import RtlBridge.Traced
import RtlBridge.Vhdl.Clocking

/-! Resolving a design: the kind of every process, what drives every signal, and whether widths and
sensitivity lists fit. Wrong drivers and shapes are faults; widths and sensitivity lists that do not fit
are diagnostics, and the design stays usable. -/

namespace RtlBridge.Vhdl

inductive ResolvedStmt where
  | process (block : ProcessBlock DataType) (kind : ProcessKind)
  | assign (assignment : ContinuousAssign)
  | conditional (assignment : ConditionalAssign)
  | captured (statement : Captured)

structure Driver where
  kind : DriverKind
  line : Nat
deriving Repr, DecidableEq

abbrev DriverTable := Table String Driver

/-! ### Process kinds -/

def ResolvedStmt.ofConcurrent (constants : List String) :
    Concurrent DataType → Except Fault ResolvedStmt
  | .process block => do
      return .process block
        (← classify constants block.sensitivity block.body block.shownName block.line)
  | .assign assignment => .ok (.assign assignment)
  | .conditional assignment => .ok (.conditional assignment)
  | .captured statement => .ok (.captured statement)

/-! ### Drivers -/

/-- What a statement drives: the kind of the driver, and the names with their lines. -/
def ResolvedStmt.drives : ResolvedStmt → Option (DriverKind × List (String × Nat))
  | .process block kind =>
      some (if kind.isSequential then .sequential else .combinational, bodyWrites false block.body)
  | .assign assignment => some (.continuous, [(assignment.target.name, assignment.line)])
  | .conditional assignment => some (.continuous, [(assignment.target.name, assignment.line)])
  | .captured _ => none

/-- Adds a driver. A signal has drivers of one kind only, and an input port has none. -/
def DriverTable.add (inputs : List String) (kind : DriverKind) (drivers : DriverTable)
    (write : String × Nat) : Except Fault DriverTable :=
  let (name, line) := write
  if inputs.contains name then .error ⟨.conflictingDrivers name .inputPort, line⟩
  else
    match drivers.find? name with
    | none => .ok (drivers.insert name ⟨kind, line⟩)
    | some first =>
        if first.kind = kind then .ok drivers
        else .error ⟨.conflictingDrivers name (.twoKinds first.kind first.line kind), line⟩

def DriverTable.addAll (inputs : List String) (drivers : DriverTable) (statement : ResolvedStmt) :
    Except Fault DriverTable :=
  match statement.drives with
  | some (kind, writes) => writes.foldlM (DriverTable.add inputs kind) drivers
  | none => .ok drivers

def Entity.inputs {τ : Type} (entity : Entity τ) : List String :=
  (entity.ports.filter fun port => port.direction = .input).map (·.name)

/-- The names that hold a value between clock edges, in ascending order. -/
def DriverTable.storage (drivers : DriverTable) : List String :=
  (drivers.entries.filterMap fun (name, driver) =>
    if driver.kind = .sequential then some name else none).mergeSort fun a b => decide (a ≤ b)

def DriverTable.isStorage (drivers : DriverTable) (name : String) : Bool :=
  (drivers.find? name).any (·.kind = .sequential)

/-! ### Widths -/

/-- The declarations and statements that give a target a value. -/
inductive Giver where
  | signal
  | constant
  | var
  | assignment
  | continuous
  | conditional
deriving Repr, DecidableEq

/-- A width that does not fit, and where: the later of two in one statement counts. -/
structure Mismatch where
  giver : Giver
  line : Nat
  diagnostic : Diagnostic
deriving Repr

structure AggregateWidth where
  line : Nat
  width : Option Int
deriving Repr

/-- What a check of a part of a design has found, in the order of the source. -/
structure Findings where
  diagnostics : List Diagnostic
  mismatches : List Mismatch
  aggregates : List (Site × AggregateWidth)
  exclusiveLines : List Nat

namespace Findings

def none : Findings := ⟨[], [], [], []⟩

def append (a b : Findings) : Findings :=
  ⟨a.diagnostics ++ b.diagnostics, a.mismatches ++ b.mismatches, a.aggregates ++ b.aggregates,
    a.exclusiveLines ++ b.exclusiveLines⟩

instance : Append Findings := ⟨append⟩

def ofAggregates (aggregates : List (Site × AggregateWidth)) : Findings := ⟨[], [], aggregates, []⟩

end Findings

/-- The aggregate that an expression is, with the width its neighbour has. -/
def Expr.aggregateBeside (names : NameTable) (expr neighbour : Expr) :
    List (Site × AggregateWidth) :=
  match expr with
  | .aggregate _ site line => [(site, ⟨line, neighbour.width? names⟩)]
  | _ => []

/-- Aggregates that are operands take the width of the other operand. -/
def Expr.operandAggregates (names : NameTable) : Expr → List (Site × AggregateWidth)
  | .binary _ lhs rhs _ =>
      rhs.aggregateBeside names lhs ++ lhs.aggregateBeside names rhs ++
        lhs.operandAggregates names ++ rhs.operandAggregates names
  | .unary _ operand _ => operand.operandAggregates names
  | _ => []

/-- The aggregates of a value for a target of the given width. -/
def Expr.valueAggregates (names : NameTable) (targetWidth : Option Int) (value : Expr) :
    List (Site × AggregateWidth) :=
  match value with
  | .aggregate _ site line => [(site, ⟨line, targetWidth⟩)]
  | _ => value.operandAggregates names

/-- The diagnostic for a value whose known width is not the known width of its target. An aggregate
fits every target. -/
def widthMismatch? (names : NameTable) (target : String) (targetWidth : Option Int) (value : Expr)
    (line : Nat) : Option Diagnostic :=
  match targetWidth, value.width? names with
  | some want, some have_ =>
      if want = have_ then none else some ⟨.widthMismatch target want have_, line⟩
  | _, _ => none

/-- Checks the values given to one target, each with the condition it is given under. -/
def checkGiven (names : NameTable) (giver : Giver) (target : String) (targetWidth : Option Int)
    (line : Nat) (given : List (Expr × Option Expr)) : Findings :=
  let diagnostics := given.filterMap fun (value, _) =>
    widthMismatch? names target targetWidth value line
  { diagnostics
    mismatches := diagnostics.getLast?.toList.map fun last => ⟨giver, line, last⟩
    aggregates := given.flatMap fun (value, condition) =>
      value.valueAggregates names targetWidth ++
        (condition.map (·.operandAggregates names)).getD []
    exclusiveLines := [] }

def checkInitial (names : NameTable) (giver : Giver) (name : String) (init : Option Expr)
    (line : Nat) : Findings :=
  match init with
  | some value =>
      checkGiven names giver name ((names.type? name).map DataType.width) line [(value, none)]
  | none => .none

/-! ### Cases -/

inductive ChoiceKey where
  | number (value : Int)
  | literal (name : String)
deriving Repr, DecidableEq

/-- The key of a choice that is a number, fully known bits, or an enumeration literal. -/
def Expr.choiceKey? (names : NameTable) : Expr → Option ChoiceKey
  | .literal value _ =>
      let known := match value with
        | .bit digits | .binary digits => digits.toList.all fun c => c = '0' || c = '1'
        | _ => true
      if known then value.value?.map .number else none
  | .name spelling _ =>
      if names.role? spelling = some .enumLiteral then some (.literal spelling) else none
  | _ => none

def areExclusive (names : NameTable) (choices : List Expr) : Bool :=
  let keys := choices.map (·.choiceKey? names)
  keys.all (·.isSome) && decide keys.Nodup

/-! ### Statements -/

mutual

def Stmt.check (names : NameTable) : Stmt → Findings
  | .assign target value _ line =>
      checkGiven names .assignment target.name (target.width? names) line [(value, none)]
  | .conditional branches otherwise _ =>
      checkBranches names branches ++ checkBody names otherwise
  | .selection _ arms default line =>
      (if areExclusive names (arms.flatMap Prod.fst) then ⟨[], [], [], [line]⟩ else .none) ++
        checkArms names arms ++ checkDefault names default
  | .captured _ => .none

def checkBody (names : NameTable) : List Stmt → Findings
  | [] => .none
  | first :: rest => first.check names ++ checkBody names rest

def checkBranches (names : NameTable) : List (Expr × List Stmt) → Findings
  | [] => .none
  | (condition, body) :: rest =>
      Findings.ofAggregates (condition.operandAggregates names) ++ checkBody names body ++
        checkBranches names rest

def checkArms (names : NameTable) : List (List Expr × List Stmt) → Findings
  | [] => .none
  | (_, body) :: rest => checkBody names body ++ checkArms names rest

def checkDefault (names : NameTable) : Option (List Stmt) → Findings
  | none => .none
  | some body => checkBody names body

end

/-- A combinational process should be sensitive to exactly the ports and signals that it reads. -/
def checkSensitivity (names : NameTable) (block : ProcessBlock DataType) (kind : ProcessKind) :
    List Diagnostic :=
  match kind, block.sensitivity with
  | .combinational, .listed listed =>
      let read := (bodyReads block.body).eraseDups.filter fun name =>
        names.role? name = some .port || names.role? name = some .signal
      let missing := read.filter fun name => !listed.contains name
      let extra := listed.filter fun name => !read.contains name
      if missing.isEmpty && extra.isEmpty then []
      else [⟨.mixedSensitivity block.shownName missing extra, block.line⟩]
  | _, _ => []

def choiceEdges : List (Expr × Expr) → Nat
  | [] => 0
  | (value, condition) :: rest => value.edges + condition.edges + choiceEdges rest

/-- Checks a concurrent statement; an edge test is at home in processes only. -/
def ResolvedStmt.check (names : NameTable) : ResolvedStmt → Except Fault Findings
  | .process block kind =>
      let vars := block.vars.map fun decl =>
        checkInitial names .var decl.name decl.init decl.line
      .ok (vars.foldl (· ++ ·) .none ++ checkBody names block.body ++
        ⟨checkSensitivity names block kind, [], [], []⟩)
  | .assign assignment =>
      if assignment.target.edges + assignment.value.edges ≠ 0 then
        .error (.unsupported assignment.line .edgeOutsideProcess)
      else
        .ok (checkGiven names .continuous assignment.target.name (assignment.target.width? names)
          assignment.line [(assignment.value, none)])
  | .conditional assignment =>
      let edges := assignment.target.edges + assignment.default.edges + choiceEdges assignment.choices
      if edges ≠ 0 then .error (.unsupported assignment.line .edgeOutsideProcess)
      else
        .ok (checkGiven names .conditional assignment.target.name
          (assignment.target.width? names) assignment.line
          ((assignment.choices.map fun (value, condition) => (value, some condition)) ++
            [(assignment.default, none)]))
  | .captured _ => .ok .none

structure Resolved where
  design : Design
  names : NameTable
  statements : List ResolvedStmt
  drivers : DriverTable
  findings : Findings

namespace Resolved

def diagnostics (resolved : Resolved) : List Diagnostic := resolved.findings.diagnostics

def aggregateWidths (resolved : Resolved) : Table Site AggregateWidth :=
  Table.ofList resolved.findings.aggregates

def exclusiveLines (resolved : Resolved) : List Nat :=
  resolved.findings.exclusiveLines.mergeSort fun a b => decide (a ≤ b)

def processes (resolved : Resolved) : List (ProcessBlock DataType × ProcessKind) :=
  resolved.statements.filterMap fun statement =>
    match statement with
    | .process block kind => some (block, kind)
    | _ => none

end Resolved

def report (findings : Findings) : Traced Fault PUnit :=
  findings.diagnostics.forM fun diagnostic => Traced.note (.found diagnostic)

def checkStatements (names : NameTable) : List ResolvedStmt → Traced Fault Findings
  | [] => return .none
  | statement :: rest => do
      let first ← statement.check names
      report first
      return first ++ (← checkStatements names rest)

def resolveBody (design : Design) (body : Architecture DataType) : Traced Fault Resolved := do
  let names := names design
  let statements ← liftM (body.statements.mapM (ResolvedStmt.ofConcurrent names.constants))
  let drivers ← liftM (statements.foldlM (DriverTable.addAll design.entity.inputs) Table.empty)
  Traced.note (.storage drivers.storage)
  let signals := body.signals.map fun decl =>
    checkInitial names .signal decl.name decl.init decl.line
  let constants := body.constants.map fun decl =>
    checkInitial names .constant decl.name (some decl.value) decl.line
  let declared := (signals ++ constants).foldl (· ++ ·) .none
  report declared
  let checked ← checkStatements names statements
  return ⟨design, names, statements, drivers, declared ++ checked⟩

/-- Resolves a design. In strict mode the first diagnostic is a fault. -/
def resolve (design : Design) (strict : Bool) : Traced Fault Resolved := do
  let resolved ← match design.architecture with
    | none => pure ⟨design, names design, [], Table.empty, .none⟩
    | some body => resolveBody design body
  match strict, resolved.diagnostics with
  | true, first :: _ => throw ⟨.finding first.finding, first.line⟩
  | _, _ => return resolved

end RtlBridge.Vhdl

import RtlBridge.Emission.Expr
import RtlBridge.Verilog.Module
import RtlBridge.Vhdl.Resolution

/-! Writing a resolved design as a Verilog module. Statements that a dialect cannot write become
comments in their place; declarations that it cannot write fail the design, and so does a text that
cannot be had. -/

namespace RtlBridge.Emission

open Vhdl (NameTable DataType Resolved ResolvedStmt)

/-! ### Shadow registers -/

/-- The names tried for the register behind a wire: a plain one first, then numbered ones. -/
def shadowCandidate (name : String) : Nat → String
  | 0 => s!"{name}_comb"
  | n + 1 => s!"{name}_comb_{n + 1}"

/-- The first candidate that differs from all taken names, which are in lower case. One of the first
`taken.length + 1` candidates does. -/
def freshShadow (taken : List String) (name : String) : String :=
  let candidates := (List.range (taken.length + 1)).map (shadowCandidate name)
  (candidates.find? fun candidate => !taken.contains (Text.lower candidate)).getD
    (shadowCandidate name taken.length)

/-- Gives each name a shadow, in order, so that all are different. -/
def shadowsFor (taken : List String) : List String → List (String × String)
  | [] => []
  | name :: rest =>
      let shadow := freshShadow taken name
      (name, shadow) :: shadowsFor (Text.lower shadow :: taken) rest

/-- The names that a combinational process drives, apart from variables. -/
def shadowedNames (resolved : Resolved) : List String :=
  resolved.drivers.entries.filterMap fun (name, driver) =>
    if driver.kind = .combinational && resolved.names.role? name ≠ some .var then some name else none

def shadows (profile : Profile) (resolved : Resolved) : List (String × String) :=
  if profile.combinationalShadow then
    shadowsFor (resolved.names.keys.map Text.lower) (shadowedNames resolved)
  else []

structure Context where
  profile : Profile
  resolved : Resolved
  shadows : List (String × String)

namespace Context

def names (context : Context) : NameTable := context.resolved.names

def of (profile : Profile) (resolved : Resolved) : Context :=
  ⟨profile, resolved, Emission.shadows profile resolved⟩

end Context

/-! ### Statements -/

/-- A value or a condition, where operands lend their widths. -/
def given (context : Context) (width : Option Int) (source : Vhdl.Expr) :
    Except Refusal Verilog.Expr :=
  expr context.names context.profile true width source

/-- A subscript, a selector or a choice. -/
def plain (context : Context) (width : Option Int) (source : Vhdl.Expr) :
    Except Refusal Verilog.Expr :=
  expr context.names context.profile false width source

/-- A target; a wire with a register behind it is written through that register. -/
def target (context : Context) (source : Vhdl.Target) : Except Refusal Verilog.Expr :=
  let base := Verilog.Expr.name ((context.shadows.lookup source.name).getD source.name)
  match source.part with
  | .whole => .ok base
  | .element subscript => do return .index base (← plain context none subscript)
  | .range left right => do
      return .slice base (← plain context none left) (← plain context none right)

/-- The remark for the last value that does not fit its target. -/
def widthRemarks (names : NameTable) (name : String) (width : Option Int) (values : List Vhdl.Expr) :
    List Verilog.Remark :=
  let found := values.filterMap fun value => Vhdl.widthMismatch? names name width value 0
  found.getLast?.toList.map fun diagnostic => .width diagnostic.finding

/-- A captured statement as a comment, without its blank lines. -/
def placeholderOf (statement : Vhdl.Captured) : Verilog.Placeholder :=
  let text := (Text.lines statement.text).map Text.trim
  ⟨statement.kind.text, statement.line, text.filter fun line => !line.isEmpty⟩

/-- Stands for something that the dialect has no form for, and says so. Other refusals stay. -/
def refused (context : Context) (line : Nat) : Refusal → Traced Refusal Verilog.Placeholder
  | .unsupported construct place => do
      Traced.note (.placeholder context.resolved.design.entity.name (.unsupported place construct))
      return ⟨construct.text, if place = 0 then line else place, []⟩
  | refusal => throw refusal

mutual

def stmt (context : Context) : Vhdl.Stmt → Traced Refusal Verilog.Stmt
  | .assign source value immediate _ => do
      let width := source.width? context.names
      let written ← given context width value
      let place ← target context source
      return .assign place immediate written (widthRemarks context.names source.name width [value])
  | .conditional branches otherwise _ => do
      let written ← branchList context branches
      let rest ← body context otherwise
      return .conditional written (if otherwise.isEmpty then none else some rest)
  | .selection selector arms default _ => do
      let unique := context.profile.uniqueCase &&
        Vhdl.areExclusive context.names (arms.flatMap Prod.fst)
      let width := selector.width? context.names
      let written ← plain context none selector
      let list ← armList context width arms
      let last ← defaultBody context default
      return .selection unique written list last
  | .captured statement => return .placeholder (placeholderOf statement)

/-- Writes statements; one that cannot be written becomes a comment. -/
def body (context : Context) : List Vhdl.Stmt → Traced Refusal (List Verilog.Stmt)
  | [] => return []
  | first :: rest => do
      let written ← tryCatch (stmt context first) fun refusal => do
        return .placeholder (← refused context first.line refusal)
      let others ← body context rest
      return written :: others

def branchList (context : Context) :
    List (Vhdl.Expr × List Vhdl.Stmt) → Traced Refusal (List (Verilog.Expr × List Verilog.Stmt))
  | [] => return []
  | (condition, statements) :: rest => do
      let written ← given context none condition
      let inner ← body context statements
      let others ← branchList context rest
      return (written, inner) :: others

def armList (context : Context) (width : Option Int) :
    List (List Vhdl.Expr × List Vhdl.Stmt) →
      Traced Refusal (List (List Verilog.Expr × List Verilog.Stmt))
  | [] => return []
  | (choices, statements) :: rest => do
      let written ← liftM (choices.mapM (plain context width))
      let inner ← body context statements
      let others ← armList context width rest
      return (written, inner) :: others

def defaultBody (context : Context) :
    Option (List Vhdl.Stmt) → Traced Refusal (Option (List Verilog.Stmt))
  | none => return none
  | some statements => do
      let inner ← body context statements
      return some inner

end

theorem stmt_captured (context : Context) (statement : Vhdl.Captured) :
    stmt context (.captured statement) = pure (.placeholder (placeholderOf statement)) := by rw [stmt]

theorem body_nil (context : Context) : body context [] = pure [] := by rw [body]

theorem branchList_nil (context : Context) : branchList context [] = pure [] := by rw [branchList]

theorem armList_nil (context : Context) (width : Option Int) : armList context width [] = pure [] := by rw [armList]

theorem defaultBody_none (context : Context) : defaultBody context none = pure none := by rw [defaultBody]

/-! ### Items -/

/-- The dimension of a type: none for a bit and for an enumeration of one bit. -/
def dimension? : DataType → Option Verilog.Dimension
  | .bit => none
  | .vector vector => some ⟨vector.signed, vector.high, vector.low⟩
  | .enum enum => if enum.width > 1 then some ⟨false, enum.width - 1, 0⟩ else none

def netType (context : Context) (name : String) : String :=
  if context.resolved.drivers.isStorage name || context.names.role? name = some .var then
    context.profile.storageType
  else context.profile.netType

def typed (context : Context) (name : String) (type : DataType) :
    String × Option Verilog.Dimension :=
  match type, context.profile.typedEnums with
  | .enum enum, true => (enum.name, none)
  | type, _ => (netType context name, dimension? type)

def port (context : Context) (source : Vhdl.Port DataType) : Verilog.Port :=
  let (type, dimension) := typed context source.name source.type
  match source.direction with
  | .input => ⟨"input", type, dimension, source.name⟩
  | .output | .buffer => ⟨"output", type, dimension, source.name⟩
  | .inout => ⟨"inout", "wire", dimension? source.type, source.name⟩

def enumeration (profile : Profile) (enum : Vhdl.EnumType) : Verilog.Item :=
  let members := enum.literals.map fun literal => (literal, enum.code literal)
  if profile.typedEnums then .enumType ⟨enum.name, enum.width, members⟩ (dimension? (.enum enum))
  else .enumNote ⟨enum.name, enum.width, members⟩

def constant (context : Context) (decl : Vhdl.ConstantDecl DataType) :
    Except Refusal Verilog.Item := do
  let value ← given context (some decl.type.width) decl.value
  let width := (context.names.type? decl.name).map DataType.width
  return .parameter context.profile.parameterType (dimension? decl.type) decl.name value
    (widthRemarks context.names decl.name width [decl.value])

/-- A signal or a variable. Only what is a register, or is not driven at all, keeps its initial
value. -/
def object (context : Context) (decl : Vhdl.ObjectDecl DataType) : Except Refusal Verilog.Item := do
  let width := (context.names.type? decl.name).map DataType.width
  let value ← match decl.init with
    | some init => pure (some (← given context (some decl.type.width) init))
    | none => pure none
  let drivers := context.resolved.drivers
  let dropped := drivers.contains decl.name && !drivers.isStorage decl.name
  let droppedRemarks := match dropped, value with
    | true, some value => [Verilog.Remark.droppedInitial value decl.name]
    | _, _ => []
  let enumRemarks := match decl.type with
    | .enum enum => if context.profile.typedEnums then [] else [Verilog.Remark.enumeration enum.name]
    | _ => []
  let remarks := droppedRemarks ++ enumRemarks ++
    widthRemarks context.names decl.name width decl.init.toList
  let (type, dimension) := typed context decl.name decl.type
  return .object type dimension decl.name (if dropped then none else value) remarks

def shadow (context : Context) (name shadow : String) : Verilog.Item :=
  .object context.profile.storageType ((context.names.type? name).bind dimension?) shadow none []

/-- The always block of a process. An asynchronous reset is an edge of its own and comes first. -/
def always (context : Context) (block : Vhdl.ProcessBlock DataType) (kind : Vhdl.ProcessKind) :
    Traced Refusal Verilog.Item := do
  match kind with
  | .combinational =>
      let statements ← body context block.body
      return .always (.inputs context.profile.combinationalHeader) block.label statements
  | .sequential clock (.async test resetBody) clocked =>
      let resetting ← body context resetBody
      let statements ← body context clocked
      let edge := match test.level with
        | .high => Vhdl.Edge.rising
        | .low => Vhdl.Edge.falling
      let condition := Verilog.Expr.binary .eq (.name test.signal) (.sized 1 .binary test.level.digit)
      return .always
        (.edges context.profile.clockedKeyword [(clock.edge, clock.clock), (edge, test.signal)])
        block.label [.conditional [(condition, resetting)] (some statements)]
  | .sequential clock _ clocked =>
      let statements ← body context clocked
      return .always (.edges context.profile.clockedKeyword [(clock.edge, clock.clock)]) block.label
        statements

/-- The assignments of wires from the registers behind them, for the names that a process is the
first to write. -/
def forwards (context : Context) (forwarded : List String) (block : Vhdl.ProcessBlock DataType) :
    List (String × Verilog.Item) :=
  ((Vhdl.bodyWrites false block.body).map Prod.fst).eraseDups.filterMap fun name =>
    if forwarded.contains name then none
    else (context.shadows.lookup name).map fun shadow =>
      (name, .assign (.name name) (.name shadow) [])

def chosen (context : Context) (width : Option Int) (last : Vhdl.Expr) :
    List (Vhdl.Expr × Vhdl.Expr) → Except Refusal Verilog.Expr
  | [] => given context width last
  | (value, condition) :: rest => do
      let test ← given context none condition
      let yes ← given context width value
      let no ← chosen context width last rest
      return .choose (.paren test) yes no

def continuous (context : Context) (source : Vhdl.Target) (choices : List (Vhdl.Expr × Vhdl.Expr))
    (last : Vhdl.Expr) : Except Refusal Verilog.Item := do
  let width := source.width? context.names
  let value ← chosen context width last choices
  let place ← target context source
  return .assign place value
    (widthRemarks context.names source.name width (choices.map Prod.fst ++ [last]))

def orPlaceholder (context : Context) (line : Nat) (item : Except Refusal Verilog.Item) :
    Traced Refusal Verilog.Item :=
  tryCatch (liftM item) fun refusal => do
    return .placeholder (← refused context line refusal)

/-- The groups of the concurrent statements, after the names forwarded so far. -/
def statementGroups (context : Context) (forwarded : List String) :
    List ResolvedStmt → Traced Refusal (List (List Verilog.Item))
  | [] => return []
  | .process block kind :: rest => do
      let item ← always context block kind
      let assigns := forwards context forwarded block
      let others ← statementGroups context (assigns.map Prod.fst ++ forwarded) rest
      return (item :: assigns.map Prod.snd) :: others
  | .assign assignment :: rest => do
      let item ← orPlaceholder context assignment.line
        (continuous context assignment.target [] assignment.value)
      let others ← statementGroups context forwarded rest
      return [item] :: others
  | .conditional assignment :: rest => do
      let item ← orPlaceholder context assignment.line
        (continuous context assignment.target assignment.choices assignment.default)
      let others ← statementGroups context forwarded rest
      return [item] :: others
  | .captured statement :: rest => do
      let others ← statementGroups context forwarded rest
      return [.placeholder (placeholderOf statement)] :: others

def groupOf (items : List Verilog.Item) : List (List Verilog.Item) :=
  if items.isEmpty then [] else [items]

/-- The groups of an architecture: enumerations, constants, objects, then one per statement. -/
def groups (context : Context) (architecture : Vhdl.Architecture DataType) :
    Traced Refusal (List (List Verilog.Item)) := do
  let enums := architecture.enums.map fun decl => enumeration context.profile decl.type
  let constants ← liftM (architecture.constants.mapM (constant context))
  let vars := architecture.processes.flatMap (·.vars)
  let objects ← liftM ((architecture.signals ++ vars).mapM (object context))
  let shadowItems := context.shadows.map fun (name, register) => shadow context name register
  let statements ← statementGroups context [] context.resolved.statements
  return groupOf enums ++ groupOf constants ++ groupOf (objects ++ shadowItems) ++ statements

def moduleOf (profile : Profile) (resolved : Resolved) : Traced Refusal Verilog.Module := do
  let context := Context.of profile resolved
  let entity := resolved.design.entity
  let groups ← match resolved.design.architecture with
    | some architecture => groups context architecture
    | none => pure []
  Traced.note (.rendered entity.name profile.dialect.text)
  return {
    name := entity.name
    banner := s!"{entity.name}: generated by vhdl2ver ({profile.dialect.text} dialect)"
    ports := entity.ports.map (port context)
    groups }

end RtlBridge.Emission

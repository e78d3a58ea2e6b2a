import RtlBridge.Vhdl.Access
import RtlBridge.Vhdl.Width

/-! Telling clocked processes from combinational ones. A process with an edge test must have one of two
shapes: a single `if` on the edge, or an `if` on a reset level with the edge as its only alternative. -/

namespace RtlBridge.Vhdl

def Expr.edges : Expr → Nat
  | .name _ _ => 0
  | .literal _ _ => 0
  | .binary _ lhs rhs _ => lhs.edges + rhs.edges
  | .unary _ operand _ => operand.edges
  | .call function arguments _ =>
      (if (Builtin.edge? function).isSome then 1 else 0) + edgesAll arguments
  | .aggregate fill _ _ => fill.edges
  | .concat parts _ => edgesAll parts
  | .index base subscript _ => base.edges + subscript.edges
  | .slice base left right _ => base.edges + left.edges + right.edges
  | .tick base property _ => (if property = "event" then 1 else 0) + base.edges
where
  edgesAll : List Expr → Nat
    | [] => 0
    | first :: rest => first.edges + edgesAll rest

def Target.edges (target : Target) : Nat := target.toExpr.edges

mutual

def Stmt.edges : Stmt → Nat
  | .assign target value _ _ => target.edges + value.edges
  | .conditional branches otherwise _ => branchEdges branches + bodyEdges otherwise
  | .selection selector arms default _ => selector.edges + armEdges arms + defaultEdges default
  | .captured _ => 0

def bodyEdges : List Stmt → Nat
  | [] => 0
  | first :: rest => first.edges + bodyEdges rest

def branchEdges : List (Expr × List Stmt) → Nat
  | [] => 0
  | (condition, body) :: rest => condition.edges + bodyEdges body + branchEdges rest

def armEdges : List (List Expr × List Stmt) → Nat
  | [] => 0
  | (choices, body) :: rest => Expr.edges.edgesAll choices + bodyEdges body + armEdges rest

def defaultEdges : Option (List Stmt) → Nat
  | none => 0
  | some body => bodyEdges body

end

structure LevelTest where
  signal : String
  level : Level
deriving Repr, DecidableEq

structure EdgeTest where
  clock : String
  edge : Edge
deriving Repr, DecidableEq

namespace Expr

def level? : Expr → Option Level
  | .literal (.bit value) _ =>
      if value = "0" then some .low else if value = "1" then some .high else none
  | _ => none

def spelling? : Expr → Option String
  | .name spelling _ => some spelling
  | _ => none

/-- A name equal to `'0'` or `'1'`, in either order. -/
def levelTest? : Expr → Option LevelTest
  | .binary .eq lhs rhs _ =>
      match lhs.spelling?, rhs.level?, rhs.spelling?, lhs.level? with
      | some signal, some level, _, _ => some ⟨signal, level⟩
      | _, _, some signal, some level => some ⟨signal, level⟩
      | _, _, _, _ => none
  | _ => none

def event? : Expr → Option String
  | .tick base property _ => if property = "event" then base.spelling? else none
  | _ => none

def eventTest? (event level : Expr) : Option EdgeTest :=
  match event.event?, level.levelTest? with
  | some clock, some test =>
      if test.signal = clock then
        some ⟨clock, if test.level = .high then .rising else .falling⟩
      else none
  | _, _ => none

/-- An edge predicate of a name, or an event with a level test, in either order. -/
def edgeTest? : Expr → Option EdgeTest
  | .call function (.name clock _ :: _) _ => (Builtin.edge? function).map fun edge => ⟨clock, edge⟩
  | .binary .and lhs rhs _ => (eventTest? lhs rhs).or (eventTest? rhs lhs)
  | _ => none

end Expr

/-- The reset of a clocked process. A synchronous reset is a branch inside the clocked statements; an
asynchronous one has statements of its own. -/
inductive Reset where
  | none
  | sync (test : LevelTest) (body : List Stmt)
  | async (test : LevelTest) (body : List Stmt)
deriving Repr

/-- What a process describes: logic, or registers that change at a clock edge. -/
inductive ProcessKind where
  | combinational
  | sequential (clock : EdgeTest) (reset : Reset) (body : List Stmt)
deriving Repr

instance : Inhabited ProcessKind := ⟨.combinational⟩

def ProcessKind.isSequential : ProcessKind → Bool
  | .combinational => false
  | .sequential _ _ _ => true

def assignsOnlyConstants (constants : List String) (body : List Stmt) : Bool :=
  !body.isEmpty && body.all fun statement =>
    match statement with
    | .assign _ value _ _ => value.isConstant constants
    | _ => false

def resetsEveryRegister (reset clocked : List Stmt) : Bool :=
  (bodyWrites true clocked).all fun write =>
    ((bodyWrites false reset).map Prod.fst).contains write.1

/-- The synchronous reset at the start of clocked statements: an `if` on a level that has an
alternative, and whose branch sets every register to a constant. -/
def syncReset (constants : List String) (clocked : List Stmt) : Reset :=
  match clocked with
  | .conditional ((condition, body) :: others) otherwise _ :: _ =>
      match condition.levelTest? with
      | some test =>
          if (!others.isEmpty || !otherwise.isEmpty) && assignsOnlyConstants constants body &&
              resetsEveryRegister body clocked then
            .sync test body
          else .none
      | none => .none
  | _ => .none

/-- The kind of a process whose only edge test is the condition of its only branch. -/
def clockedIf (constants : List String) (sensitivity : List String) (clock : EdgeTest)
    (body : List Stmt) (alone : Bool) : Except ShapeFault ProcessKind :=
  if !alone then .error .clockedElse
  else if !sensitivity.contains clock.clock then .error (.clockNotSensitive clock.clock)
  else if sensitivity.length ≠ 1 then
    .error (.otherSensitivity (sensitivity.filter (· ≠ clock.clock)))
  else .ok (.sequential clock (syncReset constants body) body)

def resetIf (sensitivity : List String) (reset : Expr) (resetBody : List Stmt) (edge : Expr)
    (body : List Stmt) : Except ShapeFault ProcessKind :=
  match edge.edgeTest? with
  | none => .error .nestedEdge
  | some clock =>
      match reset.levelTest? with
      | none => .error .noResetTest
      | some test =>
          if test.signal ≠ clock.clock ∧ (sensitivity = [clock.clock, test.signal] ∨
              sensitivity = [test.signal, clock.clock]) then
            .ok (.sequential clock (.async test resetBody) body)
          else .error (.sensitivityMismatch clock.clock test.signal)

/-- The kind of a process, or why it has none. The constants are the names that a synchronous reset
may assign. -/
def processKind (constants : List String) (sensitivity : Sensitivity) (body : List Stmt) :
    Except ShapeFault ProcessKind :=
  if bodyEdges body = 0 then .ok .combinational
  else if bodyEdges body > 1 then .error .manyEdges
  else
    match sensitivity, body with
    | .all, _ => .error .allSensitive
    | .listed names, [.conditional ((condition, first) :: others) otherwise _] =>
        match condition.edgeTest? with
        | some clock => clockedIf constants names clock first (others.isEmpty && otherwise.isEmpty)
        | none =>
            match others, otherwise with
            | [(edge, second)], [] => resetIf names condition first edge second
            | _, _ => .error .otherAlternatives
    | .listed _, _ => .error .outsideIf

def classify (constants : List String) (sensitivity : Sensitivity) (body : List Stmt)
    (name : String) (line : Nat) : Except Fault ProcessKind :=
  match processKind constants sensitivity body with
  | .ok kind => .ok kind
  | .error fault => .error ⟨.ambiguousReset name fault, line⟩

namespace ProcessKind

def describe : ProcessKind → String
  | .combinational => "combinational"
  | .sequential clock reset _ =>
      let resetText := match reset with
        | .none => ""
        | .sync test _ => s!", sync reset {test.signal}='{test.level.digit}'"
        | .async test _ => s!", async reset {test.signal}='{test.level.digit}'"
      s!"sequential ({clock.edge.text} {clock.clock}{resetText})"

end ProcessKind

end RtlBridge.Vhdl

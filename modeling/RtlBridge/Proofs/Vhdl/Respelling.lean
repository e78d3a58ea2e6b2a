import RtlBridge.Proofs.Vhdl.Shape

/-! Changing the names that a unit uses. What a unit declares keeps its spelling: only the names in expressions and
targets, the functions that are called, type marks and sensitivity lists change. -/

namespace RtlBridge

namespace Vhdl

/-- New spellings for the names in use, and new sites for aggregates. -/
structure Respelling where
  spell : String → String
  move : Site → Site

namespace Respelling

def folding : Respelling := ⟨Text.lower, fun _ => default⟩

def unplacing : Respelling := ⟨id, fun _ => default⟩

def KeepsNames (change : Respelling) : Prop := ∀ name, Text.lower (change.spell name) = Text.lower name

theorem unplacing_keepsNames : unplacing.KeepsNames := fun _ => rfl

end Respelling

/-! ### Expressions -/

def Expr.respell (change : Respelling) : Expr → Expr
  | .name spelling line => .name (change.spell spelling) line
  | .literal value line => .literal value line
  | .binary op lhs rhs line => .binary op (lhs.respell change) (rhs.respell change) line
  | .unary op operand line => .unary op (operand.respell change) line
  | .call function arguments line => .call (change.spell function) (respellAll change arguments) line
  | .aggregate fill site line => .aggregate (fill.respell change) (change.move site) line
  | .concat parts line => .concat (respellAll change parts) line
  | .index base subscript line => .index (base.respell change) (subscript.respell change) line
  | .slice base left right line => .slice (base.respell change) (left.respell change) (right.respell change) line
  | .tick base property line => .tick (base.respell change) property line
where
  respellAll (change : Respelling) : List Expr → List Expr
    | [] => []
    | first :: rest => first.respell change :: respellAll change rest

theorem Expr.respellAll_eq_map (change : Respelling) :
    ∀ list, respell.respellAll change list = list.map (respell change) := eq_map rfl fun _ _ => rfl

/-! ### Statements -/

def Part.respell (change : Respelling) : Part → Part
  | .whole => .whole
  | .element subscript => .element (subscript.respell change)
  | .range left right => .range (left.respell change) (right.respell change)

def Target.respell (change : Respelling) (target : Target) : Target :=
  ⟨change.spell target.name, target.part.respell change, target.line⟩

mutual

def Stmt.respell (change : Respelling) : Stmt → Stmt
  | .assign target value immediate line => .assign (target.respell change) (value.respell change) immediate line
  | .conditional branches otherwise line =>
    .conditional (respellBranches change branches) (respellBody change otherwise) line
  | .selection selector arms default line =>
    .selection (selector.respell change) (respellArms change arms) (respellDefault change default) line
  | .captured statement => .captured statement

def respellBody (change : Respelling) : List Stmt → List Stmt
  | [] => []
  | first :: rest => first.respell change :: respellBody change rest

def respellBranches (change : Respelling) : List (Expr × List Stmt) → List (Expr × List Stmt)
  | [] => []
  | (condition, body) :: rest => (condition.respell change, respellBody change body) :: respellBranches change rest

def respellArms (change : Respelling) : List (List Expr × List Stmt) → List (List Expr × List Stmt)
  | [] => []
  | (choices, body) :: rest => (choices.map (Expr.respell change), respellBody change body) :: respellArms change rest

def respellDefault (change : Respelling) : Option (List Stmt) → Option (List Stmt)
  | none => none
  | some body => some (respellBody change body)

end

section

variable (change : Respelling)

theorem respellBody_eq_map : ∀ body, respellBody change body = body.map (Stmt.respell change) :=
  eq_map rfl fun _ _ => rfl

theorem respellBranches_eq_map : ∀ branches, respellBranches change branches =
    branches.map fun branch => (branch.1.respell change, respellBody change branch.2) := eq_map rfl fun _ _ => rfl

theorem respellArms_eq_map : ∀ arms, respellArms change arms =
    arms.map fun arm => (arm.1.map (Expr.respell change), respellBody change arm.2) := eq_map rfl fun _ _ => rfl

end

/-! ### Declarations and units -/

def TypeMark.respell (change : Respelling) (mark : TypeMark) : TypeMark :=
  ⟨change.spell mark.name,
    mark.bounds.map fun bounds => ⟨bounds.left.respell change, bounds.right.respell change, bounds.ascending⟩, mark.line⟩

def Sensitivity.respell (change : Respelling) : Sensitivity → Sensitivity
  | .all => .all
  | .listed names => .listed (names.map change.spell)

section

variable {τ : Type} (change : Respelling) (retype : τ → τ)

def Port.respell (port : Port τ) : Port τ := ⟨port.name, port.direction, retype port.type, port.line⟩

def ObjectDecl.respell (decl : ObjectDecl τ) : ObjectDecl τ :=
  ⟨decl.name, retype decl.type, decl.init.map (Expr.respell change), decl.line⟩

def ConstantDecl.respell (decl : ConstantDecl τ) : ConstantDecl τ :=
  ⟨decl.name, retype decl.type, decl.value.respell change, decl.line⟩

def ProcessBlock.respell (block : ProcessBlock τ) : ProcessBlock τ :=
  ⟨block.label, block.sensitivity.respell change, block.vars.map (ObjectDecl.respell change retype),
    respellBody change block.body, block.line⟩

def ContinuousAssign.respell (assignment : ContinuousAssign) : ContinuousAssign :=
  ⟨assignment.target.respell change, assignment.value.respell change, assignment.line⟩

def ConditionalAssign.respell (assignment : ConditionalAssign) : ConditionalAssign :=
  ⟨assignment.target.respell change,
    assignment.choices.map fun choice => (choice.1.respell change, choice.2.respell change),
    assignment.default.respell change, assignment.line⟩

def Concurrent.respell : Concurrent τ → Concurrent τ
  | .process block => .process (block.respell change retype)
  | .assign assignment => .assign (assignment.respell change)
  | .conditional assignment => .conditional (assignment.respell change)
  | .captured statement => .captured statement

def Architecture.respell (body : Architecture τ) : Architecture τ :=
  ⟨body.name, body.entityName, body.signals.map (ObjectDecl.respell change retype),
    body.constants.map (ConstantDecl.respell change retype), body.enums,
    body.statements.map (Concurrent.respell change retype), body.line⟩

def DesignUnit.respell (unit : DesignUnit τ) : DesignUnit τ :=
  ⟨⟨unit.entity.name, unit.entity.ports.map (Port.respell retype), unit.entity.line⟩,
    unit.architecture.map (Architecture.respell change retype)⟩

end

end Vhdl

end RtlBridge

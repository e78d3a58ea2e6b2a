import RtlBridge.Proofs.Sequencing
import RtlBridge.Token.Scan
import RtlBridge.Vhdl.Builtin
import RtlBridge.Vhdl.DesignUnit

/-! Expressions and statements node by node: induction principles that take lists of parts as a whole, and
the shapes that parsing and lowering give them. -/

namespace RtlBridge.Vhdl

open List

namespace Expr

theorem induction {motive : Expr → Prop}
    (name : ∀ spelling line, motive (.name spelling line))
    (literal : ∀ value line, motive (.literal value line))
    (binary : ∀ op lhs rhs line, motive lhs → motive rhs → motive (.binary op lhs rhs line))
    (unary : ∀ op operand line, motive operand → motive (.unary op operand line))
    (call : ∀ function arguments line, (∀ argument ∈ arguments, motive argument) →
      motive (.call function arguments line))
    (aggregate : ∀ fill site line, motive fill → motive (.aggregate fill site line))
    (concat : ∀ parts line, (∀ part ∈ parts, motive part) → motive (.concat parts line))
    (index : ∀ base subscript line, motive base → motive subscript → motive (.index base subscript line))
    (slice : ∀ base left right line, motive base → motive left → motive right → motive (.slice base left right line))
    (tick : ∀ base property line, motive base → motive (.tick base property line)) (expr : Expr) :
    motive expr :=
  @Expr.rec motive (fun list => ∀ element ∈ list, motive element)
    name literal binary unary call aggregate concat index slice tick
    (fun _ member => absurd member not_mem_nil)
    (fun _ _ first others _ member => (mem_cons.mp member).elim (fun same => same ▸ first) (others _)) expr

/-- Whether a property holds of an expression and of everything in it. -/
def All (property : Expr → Prop) : Expr → Prop
  | .name spelling line => property (.name spelling line)
  | .literal value line => property (.literal value line)
  | .binary op lhs rhs line => property (.binary op lhs rhs line) ∧ lhs.All property ∧ rhs.All property
  | .unary op operand line => property (.unary op operand line) ∧ operand.All property
  | .call function arguments line => property (.call function arguments line) ∧ areAll arguments
  | .aggregate fill site line => property (.aggregate fill site line) ∧ fill.All property
  | .concat parts line => property (.concat parts line) ∧ areAll parts
  | .index base subscript line => property (.index base subscript line) ∧ base.All property ∧ subscript.All property
  | .slice base left right line =>
    property (.slice base left right line) ∧ base.All property ∧ left.All property ∧ right.All property
  | .tick base attributeName line => property (.tick base attributeName line) ∧ base.All property
where
  areAll : List Expr → Prop
    | [] => True
    | first :: rest => first.All property ∧ areAll rest

theorem areAll_iff (list : List Expr) : All.areAll property list ↔ ∀ element ∈ list, element.All property := by
  induction list with
  | nil => simp [All.areAll]
  | cons first rest ih => simp [All.areAll, ih]

def nodes : Expr → List Expr
  | .name spelling line => [.name spelling line]
  | .literal value line => [.literal value line]
  | .binary op lhs rhs line => .binary op lhs rhs line :: (lhs.nodes ++ rhs.nodes)
  | .unary op operand line => .unary op operand line :: operand.nodes
  | .call function arguments line => .call function arguments line :: nodesAll arguments
  | .aggregate fill site line => .aggregate fill site line :: fill.nodes
  | .concat parts line => .concat parts line :: nodesAll parts
  | .index base subscript line => .index base subscript line :: (base.nodes ++ subscript.nodes)
  | .slice base left right line => .slice base left right line :: (base.nodes ++ left.nodes ++ right.nodes)
  | .tick base property line => .tick base property line :: base.nodes
where
  nodesAll : List Expr → List Expr
    | [] => []
    | first :: rest => first.nodes ++ nodesAll rest

theorem nodesAll_eq_flatMap : ∀ list, nodes.nodesAll list = list.flatMap nodes := eq_flatMap rfl fun _ _ => rfl

def children : Expr → List Expr
  | .binary _ lhs rhs _ => [lhs, rhs]
  | .unary _ operand _ => [operand]
  | .call _ arguments _ => arguments
  | .aggregate fill _ _ => [fill]
  | .concat parts _ => parts
  | .index base subscript _ => [base, subscript]
  | .slice base left right _ => [base, left, right]
  | .tick base _ _ => [base]
  | _ => []

@[elab_as_elim]
theorem childInduction {motive : Expr → Prop}
    (step : ∀ expr, (∀ child ∈ expr.children, motive child) → motive expr) (expr : Expr) : motive expr := by
  induction expr using Expr.induction <;> exact step _ (by simp_all [children])

theorem nodes_eq_cons (expr : Expr) : expr.nodes = expr :: expr.children.flatMap nodes := by
  cases expr <;> simp [nodes, children, nodesAll_eq_flatMap]

theorem mem_nodes {node : Expr} : node ∈ expr.nodes ↔ node = expr ∨ ∃ child ∈ expr.children, node ∈ child.nodes := by
  rw [nodes_eq_cons, mem_cons, mem_flatMap]

theorem mem_nodes_self (expr : Expr) : expr ∈ expr.nodes := mem_nodes.mpr (.inl rfl)

theorem all_iff (expr : Expr) : expr.All property ↔ property expr ∧ ∀ child ∈ expr.children, child.All property := by
  cases expr <;> simp [All, children, areAll_iff]

theorem all_iff_forall_nodes (expr : Expr) : expr.All property ↔ ∀ node ∈ expr.nodes, property node := by
  induction expr using childInduction with
  | step expr ih =>
    rw [all_iff, nodes_eq_cons, forall_mem_cons, forall_mem_flatMap]
    exact and_congr_right fun _ => forall₂_congr ih

theorem All.and {expr : Expr} (left : expr.All first) (right : expr.All second)
    : expr.All fun node => first node ∧ second node := by
  rw [all_iff_forall_nodes] at left right ⊢
  exact fun node member => ⟨left node member, right node member⟩

theorem All.mono (implies : ∀ node, property node → weaker node) {expr : Expr} (all : expr.All property)
    : expr.All weaker := by
  rw [all_iff_forall_nodes] at all ⊢
  exact fun node member => implies node (all node member)

theorem all_of_forall (holds : ∀ expr, property expr) (expr : Expr) : expr.All property :=
  expr.all_iff_forall_nodes.mpr fun node _ => holds node

theorem All.of_mem_nodes {expr : Expr} (all : expr.All property) (member : node ∈ expr.nodes) : node.All property := by
  induction expr using childInduction with
  | step expr ih =>
    obtain rfl | ⟨child, isChild, inChild⟩ := mem_nodes.mp member
    · exact all
    · exact ih child isChild (((all_iff expr).mp all).2 child isChild) inChild

theorem All.self {expr : Expr} (all : expr.All property) : property expr := ((all_iff expr).mp all).1

def isName : Expr → Bool
  | .name _ _ => true
  | _ => false

end Expr

def isIdentifier (text : String) : Bool :=
  match text.toList with
  | c :: rest => c.isAlpha && rest.all Piece.isWordChar
  | [] => false

def isLegalName (text : String) : Bool := isIdentifier text && !reservedWords.contains (Text.lower text)

theorem isIdentifier_of_legal (legal : isLegalName name = true) : isIdentifier name = true := by
  simp only [isLegalName, Bool.and_eq_true] at legal
  exact legal.1

def isTruthName (text : String) : Bool := Text.lower text = "true" || Text.lower text = "false"

def Literal.IsParsed : Literal → Prop
  | .bit value => ∃ c : Char, value = Text.lower c.toString
  | .hex digits => digits.toList ≠ [] ∧ ∀ d ∈ digits.toList, d ∈ "0123456789abcdefABCDEF".toList
  | .binary digits => digits.toList ≠ [] ∧ ∀ d ∈ digits.toList, d ∈ "01xz".toList
  | .decimal digits => digits.toList ≠ [] ∧ ∀ d ∈ digits.toList, Text.isDigit d = true

namespace Expr

def takesAttribute : Expr → Bool
  | .name _ _ => true
  | .call _ _ _ => true
  | .slice _ _ _ _ => true
  | .tick _ _ _ => true
  | _ => false

/-- A node of a parsed expression. Elements are not told from calls yet. -/
def ParsedNode : Expr → Prop
  | .name spelling _ => isLegalName spelling = true ∧ isTruthName spelling = false
  | .literal value _ => value.IsParsed
  | .call function arguments _ => (isLegalName function = true ∧ isTruthName function = false) ∧ arguments ≠ []
  | .concat parts _ => 2 ≤ parts.length
  | .index _ _ _ => False
  | .slice base _ _ _ => base.isName = true
  | .tick base attributeName _ =>
    base.takesAttribute = true ∧ isIdentifier attributeName = true ∧ Text.lower attributeName = attributeName
  | _ => True

def IsParsed : Expr → Prop := All ParsedNode

/-- A node of a lowered expression: a declared name, a function with all its arguments, parts to
concatenate, or a selection from a name. -/
def LoweredNode : Expr → Prop
  | .name spelling _ => isIdentifier spelling = true
  | .call function arguments _ => Builtin.arity? function = some arguments.length
  | .concat parts _ => parts ≠ []
  | .index base _ _ => base.isName = true
  | .slice base _ _ _ => base.isName = true
  | _ => True

def IsLowered : Expr → Prop := All LoweredNode

end Expr

/-- Whether a property holds of all expressions in the part that an assignment writes. -/
def Part.All (property : Expr → Prop) : Part → Prop
  | .whole => True
  | .element subscript => property subscript
  | .range left right => property left ∧ property right

theorem Part.all_of_forall (holds : ∀ expr, property expr) (part : Part) : part.All property := by
  cases part <;> simp [All, holds]

theorem Part.All.mono (implies : ∀ expr, property expr → weaker expr) {part : Part} (all : part.All property)
    : part.All weaker := by
  cases part with
  | whole => trivial
  | element subscript => exact implies subscript all
  | range left right => exact ⟨implies left all.1, implies right all.2⟩

/-! ### Statements -/

namespace Stmt

theorem induction {motive : Stmt → Prop}
    (assign : ∀ target value immediate line, motive (.assign target value immediate line))
    (conditional : ∀ branches otherwise line, (∀ branch ∈ branches, ∀ inner ∈ branch.2, motive inner) →
      (∀ inner ∈ otherwise, motive inner) → motive (.conditional branches otherwise line))
    (selection : ∀ selector arms default line, (∀ arm ∈ arms, ∀ inner ∈ arm.2, motive inner) →
      (∀ body ∈ default, ∀ inner ∈ body, motive inner) → motive (.selection selector arms default line))
    (captured : ∀ statement, motive (.captured statement)) (stmt : Stmt) : motive stmt :=
  @Stmt.rec motive (fun branches => ∀ branch ∈ branches, ∀ inner ∈ branch.2, motive inner)
    (fun body => ∀ inner ∈ body, motive inner) (fun arms => ∀ arm ∈ arms, ∀ inner ∈ arm.2, motive inner)
    (fun default => ∀ body ∈ default, ∀ inner ∈ body, motive inner)
    (fun branch => ∀ inner ∈ branch.2, motive inner) (fun arm => ∀ inner ∈ arm.2, motive inner)
    assign conditional selection captured
    (fun _ member => absurd member not_mem_nil)
    (fun _ _ first others => forall_mem_cons.mpr ⟨first, others⟩)
    (fun _ member => absurd member not_mem_nil)
    (fun _ _ first others => forall_mem_cons.mpr ⟨first, others⟩)
    (fun _ member => absurd member not_mem_nil)
    (fun _ _ first others => forall_mem_cons.mpr ⟨first, others⟩)
    (fun _ member => absurd member (Option.not_mem_none _))
    (fun _ inside _ member => Option.mem_some.mp member ▸ inside)
    (fun _ _ inside => inside) (fun _ _ inside => inside) stmt

end Stmt

mutual

/-- Whether a property holds of a statement and of all statements in it. -/
def Stmt.All (property : Stmt → Prop) : Stmt → Prop
  | .assign target value immediate line => property (.assign target value immediate line)
  | .conditional branches otherwise line =>
    property (.conditional branches otherwise line) ∧ branchAll property branches ∧ bodyAll property otherwise
  | .selection selector arms default line =>
    property (.selection selector arms default line) ∧ armAll property arms ∧ defaultAll property default
  | .captured statement => property (.captured statement)

def bodyAll (property : Stmt → Prop) : List Stmt → Prop
  | [] => True
  | first :: rest => first.All property ∧ bodyAll property rest

def branchAll (property : Stmt → Prop) : List (Expr × List Stmt) → Prop
  | [] => True
  | (_, body) :: rest => bodyAll property body ∧ branchAll property rest

def armAll (property : Stmt → Prop) : List (List Expr × List Stmt) → Prop
  | [] => True
  | (_, body) :: rest => bodyAll property body ∧ armAll property rest

def defaultAll (property : Stmt → Prop) : Option (List Stmt) → Prop
  | none => True
  | some body => bodyAll property body

end

section

variable {property : Stmt → Prop}

theorem bodyAll_iff (body : List Stmt) : bodyAll property body ↔ ∀ inner ∈ body, inner.All property := by
  induction body with
  | nil => simp [bodyAll]
  | cons first rest ih => simp [bodyAll, ih]

theorem branchAll_iff (branches : List (Expr × List Stmt)) :
    branchAll property branches ↔ ∀ branch ∈ branches, bodyAll property branch.2 := by
  induction branches with
  | nil => simp [branchAll]
  | cons first rest ih => simp [branchAll, ih]

theorem armAll_iff (arms : List (List Expr × List Stmt)) :
    armAll property arms ↔ ∀ arm ∈ arms, bodyAll property arm.2 := by
  induction arms with
  | nil => simp [armAll]
  | cons first rest ih => simp [armAll, ih]

theorem defaultAll_iff (default : Option (List Stmt)) :
    defaultAll property default ↔ ∀ body ∈ default, bodyAll property body := by cases default <;> simp [defaultAll]

end

mutual

def Stmt.stmts : Stmt → List Stmt
  | .assign target value immediate line => [.assign target value immediate line]
  | .conditional branches otherwise line =>
    .conditional branches otherwise line :: (branchStmts branches ++ bodyStmts otherwise)
  | .selection selector arms default line =>
    .selection selector arms default line :: (armStmts arms ++ defaultStmts default)
  | .captured statement => [.captured statement]

def bodyStmts : List Stmt → List Stmt
  | [] => []
  | first :: rest => first.stmts ++ bodyStmts rest

def branchStmts : List (Expr × List Stmt) → List Stmt
  | [] => []
  | (_, body) :: rest => bodyStmts body ++ branchStmts rest

def armStmts : List (List Expr × List Stmt) → List Stmt
  | [] => []
  | (_, body) :: rest => bodyStmts body ++ armStmts rest

def defaultStmts : Option (List Stmt) → List Stmt
  | none => []
  | some body => bodyStmts body

end

theorem bodyStmts_eq_flatMap : ∀ body, bodyStmts body = body.flatMap Stmt.stmts := eq_flatMap rfl fun _ _ => rfl

theorem branchStmts_eq_flatMap : ∀ branches, branchStmts branches = branches.flatMap fun branch => bodyStmts branch.2 :=
  eq_flatMap rfl fun _ _ => rfl

theorem armStmts_eq_flatMap : ∀ arms, armStmts arms = arms.flatMap fun arm => bodyStmts arm.2 :=
  eq_flatMap rfl fun _ _ => rfl

def Stmt.children : Stmt → List Stmt
  | .conditional branches otherwise _ => branches.flatMap Prod.snd ++ otherwise
  | .selection _ arms default _ => arms.flatMap Prod.snd ++ default.getD []
  | _ => []

@[elab_as_elim]
theorem Stmt.childInduction {motive : Stmt → Prop}
    (step : ∀ stmt, (∀ child ∈ stmt.children, motive child) → motive stmt) (stmt : Stmt) : motive stmt := by
  induction stmt using Stmt.induction with
  | conditional branches otherwise line inBranches inOtherwise =>
    exact step _ (forall_mem_append.mpr ⟨forall_mem_flatMap.mpr inBranches, inOtherwise⟩)
  | selection selector arms default line inArms inDefault =>
    refine step _ (forall_mem_append.mpr ⟨forall_mem_flatMap.mpr inArms, ?_⟩)
    cases default with
    | none => exact forall_mem_nil _
    | some body => exact inDefault body rfl
  | _ => exact step _ (forall_mem_nil _)

theorem Stmt.all_iff (stmt : Stmt) :
    stmt.All property ↔ property stmt ∧ ∀ child ∈ stmt.children, child.All property := by
  cases stmt with
  | conditional branches otherwise line =>
    simp only [All, children, branchAll_iff, bodyAll_iff, forall_mem_append, forall_mem_flatMap]
  | selection selector arms default line =>
    simp only [All, children, armAll_iff, bodyAll_iff, forall_mem_append, forall_mem_flatMap]
    cases default <;> simp [defaultAll, bodyAll_iff]
  | _ => simp [All, children]

theorem Stmt.stmts_eq_cons (stmt : Stmt) : stmt.stmts = stmt :: stmt.children.flatMap stmts := by
  cases stmt with
  | selection selector arms default line =>
    cases default <;>
      simp [stmts, children, armStmts_eq_flatMap, bodyStmts_eq_flatMap, defaultStmts, flatMap_assoc]
  | _ => simp [stmts, children, branchStmts_eq_flatMap, bodyStmts_eq_flatMap, flatMap_assoc]

theorem Stmt.mem_stmts {inner : Stmt} :
    inner ∈ stmt.stmts ↔ inner = stmt ∨ ∃ child ∈ stmt.children, inner ∈ child.stmts := by
  rw [stmts_eq_cons, mem_cons, mem_flatMap]

theorem Stmt.mem_stmts_self (stmt : Stmt) : stmt ∈ stmt.stmts := mem_stmts.mpr (.inl rfl)

theorem Stmt.all_iff_forall_stmts (stmt : Stmt) : stmt.All property ↔ ∀ inner ∈ stmt.stmts, property inner := by
  induction stmt using Stmt.childInduction with
  | step stmt ih =>
    rw [all_iff, stmts_eq_cons, forall_mem_cons, forall_mem_flatMap]
    exact and_congr_right fun _ => forall₂_congr ih

theorem Stmt.all_of_forall (holds : ∀ stmt, property stmt) (stmt : Stmt) : stmt.All property :=
  stmt.all_iff_forall_stmts.mpr fun inner _ => holds inner

theorem Stmt.All.mono (implies : ∀ stmt, property stmt → weaker stmt) {stmt : Stmt} (all : stmt.All property)
    : stmt.All weaker := by
  rw [all_iff_forall_stmts] at all ⊢
  exact fun inner member => implies inner (all inner member)

theorem Stmt.All.of_mem_stmts {stmt : Stmt} (all : stmt.All property) (member : nested ∈ stmt.stmts) : nested.All property := by
  induction stmt using Stmt.childInduction with
  | step stmt ih =>
    obtain rfl | ⟨child, isChild, inChild⟩ := mem_stmts.mp member
    · exact all
    · exact ih child isChild (((all_iff stmt).mp all).2 child isChild) inChild

/-- A property of the expressions of a statement, apart from those of the statements in it. -/
def Stmt.UsesNode (property : Expr → Prop) : Stmt → Prop
  | .assign target value _ _ => target.part.All property ∧ property value
  | .conditional branches _ _ => ∀ branch ∈ branches, property branch.1
  | .selection selector arms _ _ => property selector ∧ ∀ arm ∈ arms, ∀ choice ∈ arm.1, property choice
  | .captured _ => True

theorem Stmt.usesNode_of_forall (holds : ∀ expr, property expr) (stmt : Stmt) : stmt.UsesNode property := by
  cases stmt <;> simp [UsesNode, holds, Part.all_of_forall]

def Stmt.Uses (property : Expr → Prop) : Stmt → Prop := All (UsesNode property)

theorem Stmt.Uses.mono (implies : ∀ expr, property expr → weaker expr) {stmt : Stmt} (uses : stmt.Uses property)
    : stmt.Uses weaker := by
  refine Stmt.All.mono (fun stmt node => ?_) uses
  cases stmt with
  | assign target value immediate line => exact ⟨node.1.mono implies, implies value node.2⟩
  | conditional branches otherwise line => exact fun branch member => implies _ (node branch member)
  | selection selector arms default line =>
    exact ⟨implies _ node.1, fun arm member choice inArm => implies _ (node.2 arm member choice inArm)⟩
  | captured statement => trivial

/-! ### Parsed designs -/

def Target.IsParsed (target : Target) : Prop := isLegalName target.name = true ∧ target.part.All Expr.IsParsed

/-- The expressions of a parsed statement; a choice has at least one value and an `if` at least one
branch. -/
def Stmt.ParsedNode : Stmt → Prop
  | .assign target value _ _ => target.IsParsed ∧ value.IsParsed
  | .conditional branches _ _ => branches ≠ [] ∧ ∀ branch ∈ branches, branch.1.IsParsed
  | .selection selector arms _ _ => selector.IsParsed ∧ ∀ arm ∈ arms, arm.1 ≠ [] ∧ ∀ choice ∈ arm.1, choice.IsParsed
  | .captured _ => True

def Stmt.IsParsed : Stmt → Prop := All ParsedNode

theorem Stmt.IsParsed.uses {stmt : Stmt} (parsed : stmt.IsParsed) : stmt.Uses Expr.IsParsed := by
  refine Stmt.All.mono (fun stmt node => ?_) parsed
  cases stmt with
  | assign target value immediate line => exact ⟨node.1.2, node.2⟩
  | conditional branches otherwise line => exact node.2
  | selection selector arms default line => exact ⟨node.1, fun arm member => (node.2 arm member).2⟩
  | captured statement => trivial

structure TypeMark.IsParsed (mark : TypeMark) : Prop where
  name : isLegalName mark.name = true
  bounds : ∀ bounds ∈ mark.bounds, bounds.left.IsParsed ∧ bounds.right.IsParsed

structure ObjectDecl.IsParsed (decl : ObjectDecl TypeMark) : Prop where
  name : isLegalName decl.name = true
  type : decl.type.IsParsed
  init : ∀ value ∈ decl.init, value.IsParsed

structure Port.IsParsed (port : Port TypeMark) : Prop where
  name : isLegalName port.name = true
  type : port.type.IsParsed

structure ConstantDecl.IsParsed (decl : ConstantDecl TypeMark) : Prop where
  name : isLegalName decl.name = true
  type : decl.type.IsParsed
  value : decl.value.IsParsed

structure EnumDecl.IsParsed (decl : EnumDecl) : Prop where
  name : isLegalName decl.type.name = true
  present : decl.type.literals ≠ []
  literals : ∀ literal ∈ decl.type.literals, isLegalName literal = true

structure ProcessBlock.IsParsed (block : ProcessBlock TypeMark) : Prop where
  label : ∀ label ∈ block.label, isLegalName label = true
  sensitivity : ∀ names, block.sensitivity = .listed names → names ≠ [] ∧ ∀ name ∈ names, isLegalName name = true
  vars : ∀ decl ∈ block.vars, decl.IsParsed
  body : ∀ stmt ∈ block.body, stmt.IsParsed

def Concurrent.IsParsed : Concurrent TypeMark → Prop
  | .process block => block.IsParsed
  | .assign assignment => assignment.target.IsParsed ∧ assignment.value.IsParsed
  | .conditional assignment =>
    assignment.target.IsParsed ∧ assignment.choices ≠ [] ∧
      (∀ choice ∈ assignment.choices, choice.1.IsParsed ∧ choice.2.IsParsed) ∧
      assignment.default.IsParsed
  | .captured _ => True

structure Entity.IsParsed (entity : Entity TypeMark) : Prop where
  name : isLegalName entity.name = true
  ports : ∀ port ∈ entity.ports, port.IsParsed

structure Architecture.IsParsed (body : Architecture TypeMark) : Prop where
  name : isLegalName body.name = true
  signals : ∀ decl ∈ body.signals, decl.IsParsed
  constants : ∀ decl ∈ body.constants, decl.IsParsed
  enums : ∀ decl ∈ body.enums, decl.IsParsed
  statements : ∀ stmt ∈ body.statements, stmt.IsParsed

/-- The shape of a design unit after parsing; its architecture is that of its entity. -/
structure DesignUnit.IsParsed (parsed : DesignUnit TypeMark) : Prop where
  entity : parsed.entity.IsParsed
  architecture : ∀ body ∈ parsed.architecture, body.IsParsed ∧ body.entityName = parsed.entity.name

/-! ### Where aggregates stand -/

def Expr.PlacedNode (places : Nat → Prop) : Expr → Prop
  | .aggregate _ site _ => places site.position
  | _ => True

def Expr.IsPlaced (places : Nat → Prop) : Expr → Prop := All (PlacedNode places)

def Concurrent.IsPlaced {τ : Type} (places : Nat → Prop) : Concurrent τ → Prop
  | .process block =>
    (∀ decl ∈ block.vars, ∀ value ∈ decl.init, value.IsPlaced places) ∧
      ∀ stmt ∈ block.body, stmt.Uses (Expr.IsPlaced places)
  | .assign assignment => assignment.target.part.All (Expr.IsPlaced places) ∧ assignment.value.IsPlaced places
  | .conditional assignment =>
    assignment.target.part.All (Expr.IsPlaced places) ∧
      (∀ choice ∈ assignment.choices, choice.1.IsPlaced places ∧ choice.2.IsPlaced places) ∧
      assignment.default.IsPlaced places
  | .captured _ => True

/-- No aggregate of one statement stands where one of the other does. -/
def Concurrent.Apart {τ : Type} (first second : Concurrent τ) : Prop :=
  ∃ places : Nat → Prop, first.IsPlaced places ∧ second.IsPlaced fun place => ¬ places place

end RtlBridge.Vhdl

import RtlBridge.Proofs.Vhdl.Shape

/-! Everything that stands in an expression, a statement or a design unit, as lists. -/

namespace RtlBridge.Vhdl

open List

mutual

def Stmt.nodes : Stmt → List Expr
  | .assign target value _ _ => target.toExpr.nodes ++ value.nodes
  | .conditional branches otherwise _ => branchNodes branches ++ bodyNodes otherwise
  | .selection selector arms default _ => selector.nodes ++ armNodes arms ++ defaultNodes default
  | .captured _ => []

def bodyNodes : List Stmt → List Expr
  | [] => []
  | first :: rest => first.nodes ++ bodyNodes rest

def branchNodes : List (Expr × List Stmt) → List Expr
  | [] => []
  | (condition, body) :: rest => condition.nodes ++ bodyNodes body ++ branchNodes rest

def armNodes : List (List Expr × List Stmt) → List Expr
  | [] => []
  | (choices, body) :: rest => Expr.nodes.nodesAll choices ++ bodyNodes body ++ armNodes rest

def defaultNodes : Option (List Stmt) → List Expr
  | none => []
  | some body => bodyNodes body

end

/-! ### Statements as lists -/

theorem bodyNodes_eq_flatMap : ∀ body, bodyNodes body = body.flatMap Stmt.nodes := eq_flatMap rfl fun _ _ => rfl

theorem branchNodes_eq_flatMap : ∀ branches,
    branchNodes branches = branches.flatMap fun branch => branch.1.nodes ++ bodyNodes branch.2 :=
  eq_flatMap rfl fun _ _ => rfl

theorem armNodes_eq_flatMap : ∀ arms,
    armNodes arms = arms.flatMap fun arm => arm.1.flatMap Expr.nodes ++ bodyNodes arm.2 :=
  eq_flatMap rfl fun _ _ => by rw [armNodes, Expr.nodesAll_eq_flatMap]

theorem mem_bodyStmts_of_mem (member : stmt ∈ body) : stmt ∈ bodyStmts body := by
  rw [bodyStmts_eq_flatMap]
  exact mem_flatMap.mpr ⟨stmt, member, stmt.mem_stmts_self⟩

theorem all_of_mem_bodyStmts (all : ∀ stmt ∈ body, stmt.All property) (member : child ∈ bodyStmts body)
    : child.All property := by
  rw [bodyStmts_eq_flatMap] at member
  obtain ⟨stmt, inList, inStmt⟩ := mem_flatMap.mp member
  exact (all stmt inList).of_mem_stmts inStmt

section

variable {property : Expr → Prop}

theorem Target.forall_mem_nodes {target : Target}
    (placed : ∀ part, property (Target.toExpr ⟨target.name, part, target.line⟩))
    (inPart : target.part.All fun expr => ∀ node ∈ expr.nodes, property node) :
    ∀ node ∈ target.toExpr.nodes, property node := by
  obtain ⟨name, part, line⟩ := target
  have named : property (.name name line) := placed .whole
  cases part with
  | whole => simpa [toExpr, Expr.nodes] using named
  | element subscript =>
    have whole := placed (.element subscript)
    simp only [toExpr, Expr.nodes, forall_mem_cons, forall_mem_append]
    exact ⟨whole, ⟨named, forall_mem_nil _⟩, inPart⟩
  | range left right =>
    have whole := placed (.range left right)
    simp only [toExpr, Expr.nodes, forall_mem_cons, forall_mem_append]
    exact ⟨whole, ⟨⟨named, forall_mem_nil _⟩, inPart.1⟩, inPart.2⟩

/-- The expressions of a statement, apart from those of the statements in it. -/
def Stmt.ownNodes : Stmt → List Expr
  | .assign target value _ _ => target.toExpr.nodes ++ value.nodes
  | .conditional branches _ _ => branches.flatMap fun branch => branch.1.nodes
  | .selection selector arms _ _ => selector.nodes ++ arms.flatMap fun arm => arm.1.flatMap Expr.nodes
  | .captured _ => []

theorem Stmt.mem_nodes {stmt : Stmt} :
    node ∈ stmt.nodes ↔ node ∈ stmt.ownNodes ∨ node ∈ stmt.children.flatMap nodes := by
  cases stmt with
  | conditional branches otherwise line =>
    simp only [nodes, ownNodes, children, branchNodes_eq_flatMap, bodyNodes_eq_flatMap, flatMap_append,
      flatMap_assoc, mem_append, mem_flatMap_append, or_assoc]
  | selection selector arms default line =>
    cases default <;> simp only [nodes, ownNodes, children, armNodes_eq_flatMap, bodyNodes_eq_flatMap, defaultNodes,
      Option.getD, flatMap_append, flatMap_assoc, flatMap_nil, mem_append, mem_flatMap_append, or_assoc]
  | _ => simp [nodes, ownNodes, children]

theorem Stmt.forall_mem_nodes_of_own (stmt : Stmt)
    (all : stmt.All fun inner => ∀ node ∈ inner.ownNodes, property node) : ∀ node ∈ stmt.nodes, property node := by
  induction stmt using Stmt.childInduction with
  | step stmt ih =>
    obtain ⟨own, children⟩ := (all_iff stmt).mp all
    intro node member
    obtain isOwn | inside := mem_nodes.mp member
    · exact own node isOwn
    · obtain ⟨child, isChild, inChild⟩ := mem_flatMap.mp inside
      exact ih child isChild (children child isChild) node inChild

theorem Stmt.forall_mem_nodes (placed : ∀ target : Target, property target.toExpr) (stmt : Stmt)
    (uses : stmt.Uses fun expr => ∀ node ∈ expr.nodes, property node) : ∀ node ∈ stmt.nodes, property node := by
  refine stmt.forall_mem_nodes_of_own (Stmt.All.mono (fun inner own => ?_) uses)
  cases inner with
  | assign target value immediate line =>
    rw [ownNodes, forall_mem_append]
    exact ⟨target.forall_mem_nodes (fun part => placed _) own.1, own.2⟩
  | conditional branches otherwise line =>
    rw [ownNodes, forall_mem_flatMap]
    exact own
  | selection selector arms default line =>
    simp only [ownNodes, forall_mem_append, forall_mem_flatMap]
    exact own
  | captured statement => exact nofun

end

/-! ### Design units as lists -/

theorem Architecture.mem_processes {τ : Type} {body : Architecture τ} {block : ProcessBlock τ} :
    block ∈ body.processes ↔ .process block ∈ body.statements := by
  rw [Architecture.processes, mem_filterMap]
  constructor
  · rintro ⟨stmt, member, same⟩
    cases stmt with
    | process inner =>
      cases same
      exact member
    | _ => nomatch same
  · intro member
    exact ⟨_, member, rfl⟩

section

variable {τ : Type} (ofType : τ → List Expr)

def TypeMark.nodes (mark : TypeMark) : List Expr :=
  mark.bounds.toList.flatMap fun bounds => bounds.left.nodes ++ bounds.right.nodes

def ObjectDecl.nodes (decl : ObjectDecl τ) : List Expr := ofType decl.type ++ decl.init.toList.flatMap Expr.nodes

def ConstantDecl.nodes (decl : ConstantDecl τ) : List Expr := ofType decl.type ++ decl.value.nodes

def Concurrent.nodes : Concurrent τ → List Expr
  | .process block => block.vars.flatMap (·.nodes ofType) ++ block.body.flatMap Stmt.nodes
  | .assign assignment => assignment.target.toExpr.nodes ++ assignment.value.nodes
  | .conditional assignment =>
    assignment.target.toExpr.nodes ++
      (assignment.choices.flatMap fun choice => choice.1.nodes ++ choice.2.nodes) ++ assignment.default.nodes
  | .captured _ => []

def Architecture.nodes (body : Architecture τ) : List Expr :=
  body.signals.flatMap (·.nodes ofType) ++ body.constants.flatMap (·.nodes ofType) ++
    body.statements.flatMap (·.nodes ofType)

/-- All expressions in a design unit, at any depth, with those in its types. -/
def DesignUnit.nodes (unit : DesignUnit τ) : List Expr :=
  unit.entity.ports.flatMap (fun port => ofType port.type) ++ unit.architecture.toList.flatMap (·.nodes ofType)

end

end RtlBridge.Vhdl

import RtlBridge.Proofs.Vhdl.Findings
import RtlBridge.Proofs.Vhdl.LoweringSteps
import RtlBridge.Proofs.Vhdl.ResolvedShape

/-! Where aggregates stand. Lowering leaves every aggregate at its place, and a check gives widths to the aggregates
of what it checks only. -/

namespace RtlBridge.Vhdl

open List (forall_mem_cons forall_mem_nil forall_mem_singleton)

section

variable {scope : Scope} {places : Nat → Prop}

/-! ### Lowering -/

theorem Expr.lower_isPlaced {owner : Option String} (expr : Expr) (placed : expr.IsPlaced places) {lowered : Expr}
    (ok : expr.lower scope owner = .ok lowered) : lowered.IsPlaced places := by
  refine all_of_lower (fun _ _ _ _ => trivial) (fun expr lowered placed lowers => ?_) expr placed ok
  cases lowers with
  | aggregate same _ =>
    rw [PlacedNode, same]
    exact placed
  | _ => trivial

theorem Lowering.vars_arePlaced {decls : List (ObjectDecl TypeMark)}
    (placed : ∀ decl ∈ decls, ∀ value ∈ decl.init, value.IsPlaced places)
    (ok : (decls.mapM variableDecl scope).result = .ok (vars, after)) :
    ∀ decl ∈ vars, ∀ value ∈ decl.init, value.IsPlaced places := by
  have each : ∀ decl ∈ decls, Ensures (fun _ => True) (variableDecl decl)
      fun lowered => ∀ value ∈ lowered.init, value.IsPlaced places := by
    intro decl member state _ lowered next ok
    obtain ⟨type, init, _, _, _, _, initOk, rfl, _⟩ := variableDecl_eq_ok ok
    refine ⟨trivial, fun value isInit => ?_⟩
    obtain ⟨source, isSource, sourceOk⟩ := initOk value isInit
    exact Expr.lower_isPlaced source (placed decl member source isSource) sourceOk
  exact (Ensures.mapM each scope trivial vars after ok).2

theorem Lowering.concurrent_isPlaced {stmt : Concurrent TypeMark} (placed : stmt.IsPlaced places)
    {lowered : Concurrent DataType} {after : Scope} (ok : (concurrent stmt scope).result = .ok (lowered, after)) :
    lowered.IsPlaced places := by
  cases concurrent_eq_ok ok with
  | process blockOk =>
    obtain ⟨inside, varsOk, _, _, bodyOk, _⟩ := processBlock_eq_ok blockOk
    exact ⟨vars_arePlaced placed.1 varsOk, lowerBody_uses Expr.lower_isPlaced placed.2 bodyOk⟩
  | assign targetOk valueOk _ =>
    exact ⟨(Target.lower_eq_ok targetOk).2.2 Expr.lower_isPlaced placed.1, Expr.lower_isPlaced _ placed.2 valueOk⟩
  | conditional targetOk pairsOk defaultOk _ =>
    exact ⟨(Target.lower_eq_ok targetOk).2.2 Expr.lower_isPlaced placed.1,
      choices_use Expr.lower_isPlaced placed.2.1 pairsOk, Expr.lower_isPlaced _ placed.2.2 defaultOk⟩
  | captured => trivial

/-! ### Checks -/

/-- All aggregates that are given widths stand at some of the places. -/
def ArePlaced (places : Nat → Prop) (aggregates : List (Site × AggregateWidth)) : Prop :=
  ∀ entry ∈ aggregates, places entry.1.position

theorem ArePlaced.append (one : ArePlaced places first) (two : ArePlaced places second)
    : ArePlaced places (first ++ second) := List.forall_mem_append.mpr ⟨one, two⟩

variable {names : NameTable}

theorem Expr.aggregateBeside_arePlaced {expr : Expr} (placed : expr.IsPlaced places) (neighbour : Expr) :
    ArePlaced places (expr.aggregateBeside names neighbour) := by
  cases expr with
  | aggregate fill site line => exact forall_mem_singleton.mpr placed.1
  | _ => exact forall_mem_nil _

theorem Expr.operandAggregates_arePlaced {expr : Expr} (placed : expr.IsPlaced places) :
    ArePlaced places (expr.operandAggregates names) := by
  induction expr using Expr.induction with
  | binary op lhs rhs line inLeft inRight =>
    obtain ⟨_, left, right⟩ := placed
    refine (ArePlaced.append ?_ (inLeft left)).append (inRight right)
    exact (aggregateBeside_arePlaced right lhs).append (aggregateBeside_arePlaced left rhs)
  | unary op operand line inOperand => exact inOperand placed.2
  | _ => exact forall_mem_nil _

theorem Expr.valueAggregates_arePlaced (targetWidth : Option Int) {value : Expr} (placed : value.IsPlaced places) :
    ArePlaced places (value.valueAggregates names targetWidth) := by
  unfold valueAggregates
  split
  · exact forall_mem_singleton.mpr placed.1
  · exact operandAggregates_arePlaced placed

theorem checkGiven_arePlaced
    (placed : ∀ pair ∈ given, pair.1.IsPlaced places ∧ ∀ condition ∈ pair.2, condition.IsPlaced places) :
    ArePlaced places (checkGiven names giver target targetWidth line given).aggregates := by
  refine List.forall_mem_flatMap.mpr fun pair member => ?_
  obtain ⟨value, condition⟩ := pair
  obtain ⟨valuePlaced, conditionPlaced⟩ := placed _ member
  refine (Expr.valueAggregates_arePlaced targetWidth valuePlaced).append ?_
  cases condition with
  | none => exact forall_mem_nil _
  | some condition => exact Expr.operandAggregates_arePlaced (conditionPlaced condition rfl)

theorem checkInitial_arePlaced (placed : ∀ value ∈ init, value.IsPlaced places) :
    ArePlaced places (checkInitial names giver name init line).aggregates := by
  cases init with
  | none => exact forall_mem_nil _
  | some value => exact checkGiven_arePlaced (forall_mem_singleton.mpr ⟨placed value rfl, nofun⟩)

theorem Stmt.findings_arePlaced {stmt : Stmt} (placed : stmt.UsesNode (Expr.IsPlaced places)) :
    ArePlaced places (stmt.findings names).aggregates := by
  cases stmt with
  | assign target value immediate line => exact checkGiven_arePlaced (forall_mem_singleton.mpr ⟨placed.2, nofun⟩)
  | conditional branches otherwise line =>
    rw [findings, Findings.view_concat Findings.aggregates rfl fun _ _ => rfl, List.flatMap_map]
    exact List.forall_mem_flatMap.mpr fun branch member => Expr.operandAggregates_arePlaced (placed branch member)
  | selection selector arms default line =>
    rw [findings]
    split <;> exact forall_mem_nil _
  | captured statement => exact forall_mem_nil _

theorem Stmt.check_arePlaced {stmt : Stmt} (placed : stmt.Uses (Expr.IsPlaced places)) :
    ArePlaced places (stmt.check names).aggregates := by
  intro entry member
  have perm := stmt.check_perm Findings.aggregates rfl (fun _ _ => rfl) names
  obtain ⟨inner, inside, found⟩ := List.mem_flatMap.mp (perm.mem_iff.mp member)
  exact findings_arePlaced ((all_iff_forall_stmts stmt).mp placed inner inside) entry found

theorem ResolvedStmt.check_arePlaced {stmt : ResolvedStmt} (placed : stmt.source.IsPlaced places)
    (ok : stmt.check names = .ok found) : ArePlaced places found.aggregates := by
  cases stmt with
  | process block kind =>
    cases ok
    obtain ⟨initials, body⟩ := placed
    refine ArePlaced.append (ArePlaced.append ?_ ?_) (forall_mem_nil _)
    · rw [Findings.view_foldl Findings.aggregates fun _ _ => rfl, List.flatMap_map]
      exact List.forall_mem_flatMap.mpr fun decl member => checkInitial_arePlaced (initials decl member)
    · rw [checkBody_view Findings.aggregates rfl fun _ _ => rfl]
      exact List.forall_mem_flatMap.mpr fun inner member => Stmt.check_arePlaced (body inner member)
  | assign assignment =>
    rw [check] at ok
    split at ok
    · cases ok
    · cases ok
      exact checkGiven_arePlaced (forall_mem_singleton.mpr ⟨placed.2, nofun⟩)
  | conditional assignment =>
    obtain ⟨_, choices, default⟩ := placed
    simp only [check] at ok
    split at ok
    · cases ok
    · cases ok
      refine checkGiven_arePlaced (List.forall_mem_append.mpr ⟨?_, forall_mem_singleton.mpr ⟨default, nofun⟩⟩)
      rw [List.forall_mem_map]
      intro choice member
      refine ⟨(choices choice member).1, ?_⟩
      rintro _ ⟨⟩
      exact (choices choice member).2
  | captured statement =>
    cases ok
    exact forall_mem_nil _

end

end RtlBridge.Vhdl

import RtlBridge.Proofs.Emission.Declarations
import RtlBridge.Proofs.Verilog.Execution
import RtlBridge.Proofs.Vhdl.Drivers
import RtlBridge.Proofs.Vhdl.Execution

/-! Written statements do what the source statements do, as long as the expressions in them mean the same. -/

namespace RtlBridge.Emission

open Verilog (Scope Expr Stmt Tree execArms execBody)
open Vhdl (bodyAll)

/-! ### Statements -/

/-- Statements whose expressions can be written and mean the same in every store. An assignment is to write the
name itself, and of the statements that are kept as text only assertions and reports do nothing. -/
def KeepsMeaning (context : Context) (scope : Scope) : Vhdl.Stmt → Prop
  | .assign source value _ _ => ∃ written place,
      given context (source.width? context.names) value = .ok written ∧
      target { context with shadows := [] } source = .ok place ∧
      ∀ store, place.tree.change scope store written.tree = source.change context.names store value
  | .conditional branches _ _ => ∀ branch ∈ branches, ∃ written, given context none branch.1 = .ok written ∧
      ∀ store, written.tree.truth scope store = branch.1.isTrue context.names store
  | .selection selector arms _ _ => ∃ written choices, plain context none selector = .ok written ∧
      (arms.mapM fun arm => arm.1.mapM (plain context (selector.width? context.names))) = .ok choices ∧
      ∀ store, choices.map (fun list => written.tree.selects scope store
          (choices.flatMap fun list => list.map Expr.tree) (list.map Expr.tree)) =
        arms.map fun arm => selector.selects context.names store arm.1
  | .captured statement => statement.kind = .assertion ∨ statement.kind = .report

def IsSimulated (context : Context) (scope : Scope) (source : Vhdl.Stmt) : Prop :=
  ∃ written, (stmt context source).result = .ok written ∧
    ∀ fires activity, written.exec scope activity = source.exec context.names fires activity

theorem edgeTest?_of_expr (ok : expr names profile lend width source = .ok written) : source.edgeTest? = none := by
  refine Option.eq_none_iff_forall_ne_some.mpr fun test found => ?_
  have writes := writes_of_expr ok
  unfold Vhdl.Expr.edgeTest? at found
  split at found
  · obtain ⟨edge, isEdge, _⟩ := Option.map_eq_some_iff.mp found
    cases writes with
    | shift isShift _ _ =>
      unfold Vhdl.Builtin.edge? at isEdge
      grind [Vhdl.Builtin.shift?]
    | conversion _ notEdge _ => simp [notEdge] at isEdge
  · obtain inOrder | flipped := Vhdl.Expr.eventTest?_or.mp found
    · obtain ⟨nameLine, tickLine, rfl⟩ := Vhdl.Expr.event?_eq_some.mp (Vhdl.Expr.eventTest?_eq_some.mp inOrder).1
      cases writes with
      | binary first _ => cases first
    · obtain ⟨nameLine, tickLine, rfl⟩ := Vhdl.Expr.event?_eq_some.mp (Vhdl.Expr.eventTest?_eq_some.mp flipped).1
      cases writes with
      | binary _ second => cases second
  · cases found

theorem holds_of_given (ok : given context width condition = .ok written) (fires : Vhdl.EdgeTest → Bool) (store : Store) :
    condition.holds context.names fires store = condition.isTrue context.names store := by
  simp only [Vhdl.Expr.holds, edgeTest?_of_expr ok]

theorem target_of_lookup_eq_none (free : context.shadows.lookup source.name = none) :
    target context source = target { context with shadows := [] } source := by
  simp only [target, free, List.lookup_nil]
  rfl

section Bodies

variable {context : Context} {scope : Scope}

theorem body_simulated (each : ∀ inner ∈ list, IsSimulated context scope inner) :
    ∃ written, (body context list).result = .ok written ∧ ∀ fires activity,
      execBody scope written activity = Vhdl.execBody context.names fires list activity := by
  induction list with
  | nil => exact ⟨[], rfl, fun _ _ => rfl⟩
  | cons first rest ih =>
    rw [List.forall_mem_cons] at each
    obtain ⟨head, headOk, headExec⟩ := each.1
    obtain ⟨tail, tailOk, tailExec⟩ := ih each.2
    refine ⟨head :: tail, ?_, fun fires activity => ?_⟩
    · have caught : (tryCatch (stmt context first) fun refusal => do
          return .placeholder (← refused context first.line refusal)).result = .ok head := by
        simp only [tryCatch, tryCatchThe, MonadExceptOf.tryCatch, headOk]
      rw [body, Traced.result_bind, caught]
      simp only [Traced.result_bind]
      exact bind_eq_ok.mpr ⟨head, rfl, bind_eq_ok.mpr ⟨tail, tailOk, rfl⟩⟩
    · rw [execBody, Vhdl.execBody, headExec fires, tailExec fires]

theorem branches_simulated (conditions : ∀ branch ∈ branches, ∃ written, given context none branch.1 = .ok written ∧
      ∀ store, written.tree.truth scope store = branch.1.isTrue context.names store)
    (each : ∀ branch ∈ branches, ∀ inner ∈ branch.2, IsSimulated context scope inner) :
    ∃ written, (branchList context branches).result = .ok written ∧ ∀ fires activity,
      Verilog.execBranches scope written activity = Vhdl.execBranches context.names fires branches activity := by
  induction branches with
  | nil => exact ⟨[], rfl, fun _ _ => rfl⟩
  | cons branch rest ih =>
    rw [List.forall_mem_cons] at conditions each
    obtain ⟨condition, conditionOk, truth⟩ := conditions.1
    obtain ⟨inner, innerOk, innerExec⟩ := body_simulated each.1
    obtain ⟨others, othersOk, othersExec⟩ := ih conditions.2 each.2
    refine ⟨(condition, inner) :: others, ?_, fun fires activity => ?_⟩
    · simp only [branchList, Traced.result_bind]
      exact bind_eq_ok.mpr ⟨condition, conditionOk,
        bind_eq_ok.mpr ⟨inner, innerOk, bind_eq_ok.mpr ⟨others, othersOk, rfl⟩⟩⟩
    · rw [Verilog.execBranches, Vhdl.execBranches, truth, holds_of_given conditionOk, innerExec fires, othersExec fires]

theorem arms_simulated {written : Expr}
    (choicesOk : (arms.mapM fun arm => arm.1.mapM (plain context width)) = .ok choices)
    (selects : ∀ store, choices.map (fun list => written.tree.selects scope store all
        (list.map Expr.tree)) =
      arms.map fun arm => selector.selects context.names store arm.1)
    (each : ∀ arm ∈ arms, ∀ inner ∈ arm.2, IsSimulated context scope inner) :
    ∃ list, (armList context width arms).result = .ok list ∧ list.map Prod.fst = choices ∧ ∀ fires activity,
      execArms scope all written.tree list activity = Vhdl.execArms context.names fires selector arms activity := by
  induction arms generalizing choices with
  | nil =>
    cases choicesOk
    exact ⟨[], rfl, rfl, fun _ _ => rfl⟩
  | cons arm rest ih =>
    rw [List.mapM_cons] at choicesOk
    obtain ⟨first, firstOk, choicesOk⟩ := bind_eq_ok.mp choicesOk
    obtain ⟨others, othersOk, choicesOk⟩ := bind_eq_ok.mp choicesOk
    cases choicesOk
    rw [List.forall_mem_cons] at each
    simp only [List.map_cons, List.cons.injEq] at selects
    obtain ⟨inner, innerOk, innerExec⟩ := body_simulated each.1
    obtain ⟨list, listOk, firsts, listExec⟩ := ih othersOk (fun store => (selects store).2) each.2
    refine ⟨(first, inner) :: list, ?_, by rw [List.map_cons, firsts], fun fires activity => ?_⟩
    · simp only [armList, Traced.result_bind]
      exact bind_eq_ok.mpr ⟨first, firstOk, bind_eq_ok.mpr ⟨inner, innerOk, bind_eq_ok.mpr ⟨list, listOk, rfl⟩⟩⟩
    · rw [execArms, Vhdl.execArms, (selects activity.store).1, innerExec fires, listExec fires]

theorem default_simulated {default : Option (List Vhdl.Stmt)}
    (each : ∀ inner ∈ default.getD [], IsSimulated context scope inner) :
    ∃ written, (defaultBody context default).result = .ok written ∧ ∀ fires activity,
      Verilog.execElse scope written activity = Vhdl.execDefault context.names fires default activity := by
  cases default with
  | none => exact ⟨none, rfl, fun _ _ => rfl⟩
  | some list =>
    obtain ⟨inner, innerOk, innerExec⟩ := body_simulated each
    refine ⟨some inner, ?_, fun fires activity => innerExec fires activity⟩
    simp only [defaultBody, Traced.result_bind]
    exact bind_eq_ok.mpr ⟨inner, innerOk, rfl⟩

/-- Names that are written themselves, with no register in front of them. -/
def Unshadowed (context : Context) (writes : List (String × Nat)) : Prop :=
  ∀ write ∈ writes, context.shadows.lookup write.1 = none

theorem isSimulated_of_keepsMeaning (keeps : source.All (KeepsMeaning context scope))
    (free : Unshadowed context (source.writes false)) : IsSimulated context scope source := by
  induction source using Vhdl.Stmt.childInduction with
  | step source ih =>
    obtain ⟨own, children⟩ := (Vhdl.Stmt.all_iff source).mp keeps
    have inside : ∀ child ∈ source.children, IsSimulated context scope child := fun child member =>
      ih child member (children child member) fun write isWrite => free write (Vhdl.Stmt.writes_subset member _ isWrite)
    cases source with
    | assign source value immediate line =>
      obtain ⟨written, place, writtenOk, placeOk, same⟩ := own
      have unshadowed := target_of_lookup_eq_none (free (source.name, line) (by simp [Vhdl.Stmt.writes]))
      refine ⟨.assign place immediate written
        (widthRemarks context.names source.name (source.width? context.names) [value]), ?_,
        fun fires activity => ?_⟩
      · simp only [stmt, Traced.result_bind]
        exact bind_eq_ok.mpr ⟨written, writtenOk, bind_eq_ok.mpr ⟨place, unshadowed.trans placeOk, rfl⟩⟩
      · rw [Stmt.exec, Vhdl.Stmt.exec, same]
    | conditional branches otherwise line =>
      obtain ⟨inBranches, inOtherwise⟩ := List.forall_mem_append.mp inside
      obtain ⟨list, listOk, listExec⟩ := branches_simulated own (List.forall_mem_flatMap.mp inBranches)
      obtain ⟨rest, restOk, restExec⟩ := body_simulated inOtherwise
      refine ⟨.conditional list (if otherwise.isEmpty then none else some rest), ?_, fun fires activity => ?_⟩
      · simp only [stmt, Traced.result_bind]
        exact bind_eq_ok.mpr ⟨list, listOk, bind_eq_ok.mpr ⟨rest, restOk, rfl⟩⟩
      · rw [Stmt.exec, Vhdl.Stmt.exec, listExec fires]
        congr 1
        cases otherwise with
        | nil => rfl
        | cons first others => exact restExec fires activity
    | selection selector arms default line =>
      obtain ⟨written, choices, writtenOk, choicesOk, selects⟩ := own
      obtain ⟨inArms, inDefault⟩ := List.forall_mem_append.mp inside
      obtain ⟨list, listOk, firsts, listExec⟩ := arms_simulated choicesOk selects (List.forall_mem_flatMap.mp inArms)
      obtain ⟨rest, restOk, restExec⟩ := default_simulated inDefault
      refine ⟨.selection (context.profile.uniqueCase &&
        Vhdl.areExclusive context.names (arms.flatMap Prod.fst)) written list rest, ?_, fun fires activity => ?_⟩
      · simp only [stmt, Traced.result_bind]
        exact bind_eq_ok.mpr ⟨written, writtenOk, bind_eq_ok.mpr ⟨list, listOk, bind_eq_ok.mpr ⟨rest, restOk, rfl⟩⟩⟩
      · have all : (list.flatMap fun arm => arm.1.map Expr.tree) = choices.flatMap fun list => list.map Expr.tree := by
          rw [← firsts, List.flatMap_map]
        rw [Stmt.exec, Vhdl.Stmt.exec, all, listExec fires, restExec fires]
    | captured statement => exact ⟨_, rfl, fun _ _ => rfl⟩

theorem body_of_keepsMeaning (keeps : bodyAll (KeepsMeaning context scope) list)
    (free : Unshadowed context (Vhdl.bodyWrites false list)) :
    ∃ written, (body context list).result = .ok written ∧ ∀ fires activity,
      execBody scope written activity = Vhdl.execBody context.names fires list activity := by
  rw [Unshadowed, Vhdl.bodyWrites_eq_flatMap, List.forall_mem_flatMap] at free
  exact body_simulated fun inner member =>
    isSimulated_of_keepsMeaning ((Vhdl.bodyAll_iff list).mp keeps inner member) (free inner member)

end Bodies

/-! ### Assignments of whole names -/

theorem toNat_ofInt_mod (room : width ≤ wider) (n : Int) :
    (BitVec.ofInt wider n).toNat % 2 ^ width = (Vhdl.wrapped false (some (width : Int)) n).toNat := by
  have divides : ((2 ^ width : Nat) : Int) ∣ (2 ^ wider : Nat) := Int.natCast_dvd_natCast.mpr (Nat.pow_dvd_pow 2 room)
  have positive : ((2 ^ wider : Nat) : Int) ≠ 0 := by simp
  apply Int.ofNat_inj.mp
  rw [BitVec.toNat_ofInt, Int.natCast_mod, Int.toNat_of_nonneg (Int.emod_nonneg n positive),
    Int.emod_emod_of_dvd n divides]
  simp only [Vhdl.wrapped, Int.toNat_natCast, Bool.false_eq_true, if_false]
  exact (Int.toNat_of_nonneg (Int.emod_nonneg n (by simp))).symm

theorem change_of_whole (isType : names.type? name = some type) (ranged : scope.dimension name = dimension? type)
    (same : value.bits scope store (max (scope.width name) (value.width scope)) (value.isSigned scope) =
      BitVec.ofInt _ (source.number names store (some type.width))) (line : Nat) :
    (Tree.name name).change scope store value = (⟨name, .whole, line⟩ : Vhdl.Target).change names store source := by
  obtain ⟨width, _⟩ := width_of_dimension ranged
  have target : (⟨name, .whole, line⟩ : Vhdl.Target).width? names = some (scope.width name : Int) := by
    rw [width]
    simp [Vhdl.Target.width?, Vhdl.Target.toExpr, Vhdl.Expr.width?, isType]
  rw [Tree.change, Vhdl.Target.change, target, Tree.assigned, same, toNat_ofInt_mod (le_max_left _ _), width]
  simp [Vhdl.Target.place, ← width]

end RtlBridge.Emission

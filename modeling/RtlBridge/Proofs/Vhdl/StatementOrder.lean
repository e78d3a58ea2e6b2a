import Mathlib.Data.List.Perm.Basic
import RtlBridge.Proofs.Vhdl.DriverConflicts
import RtlBridge.Proofs.Vhdl.IndependentLowering
import RtlBridge.Proofs.Vhdl.NameLookup
import RtlBridge.Proofs.Vhdl.WrittenNames

/-! The order of concurrent statements. Every statement is lowered, classified and checked on its own, against
tables that do not tell in which order the statements stand. -/

namespace RtlBridge

/-! ### Rearranged lists -/

theorem mergeSort_eq_of_perm {α : Type} {le : α → α → Bool} (trans : ∀ a b c, le a b → le b c → le a c)
    (total : ∀ a b, le a b || le b a) (antisymm : ∀ a b, le a b → le b a → a = b) {first second : List α}
    (perm : first.Perm second) : first.mergeSort le = second.mergeSort le := by
  have sorted (list : List α) : (list.mergeSort le).Pairwise fun a b => le a b = true :=
    List.pairwise_mergeSort trans total list
  refine List.Perm.eq_of_pairwise (fun a b _ _ => antisymm a b) (sorted first) (sorted second) ?_
  exact (List.mergeSort_perm first le).trans (perm.trans (List.mergeSort_perm second le).symm)

theorem exists_perm_of_map_perm {α ρ : Type} {rows : List ρ} {view : ρ → α} {moved : List α}
    (perm : (rows.map view).Perm moved) : ∃ others, rows.Perm others ∧ others.map view = moved := by
  have rowsOf : List.Forall₂ (fun item row => item = view row) (rows.map view) rows :=
    List.forall₂_map_left_iff.mpr (List.forall₂_same.mpr fun _ _ => rfl)
  obtain ⟨others, viewed, moves⟩ := List.perm_comp_forall₂ perm.symm rowsOf
  have same : List.Forall₂ Eq moved (others.map view) := List.forall₂_map_right_iff.mpr viewed
  rw [List.forall₂_eq_eq_eq] at same
  exact ⟨others, moves.symm, same.symm⟩

theorem Table.find?_ofList {κ α : Type} [DecidableEq κ] (entries : List (κ × α)) (key : κ) :
    (ofList entries).find? key = ((entries.filter fun entry => entry.1 = key).getLast?).map Prod.snd := by
  have run (entries : List (κ × α)) (table : Table κ α) :
      (entries.foldl (fun table entry => table.insert entry.1 entry.2) table).find? key =
        (((entries.filter fun entry => entry.1 = key).getLast?).map Prod.snd).or (table.find? key) := by
    induction entries generalizing table with
    | nil => rfl
    | cons entry rest ih =>
      rw [List.foldl_cons, ih, find?_insert]
      by_cases same : entry.1 = key
      · rw [List.filter_cons_of_pos (by simpa using same), List.getLast?_cons, if_pos same.symm]
        cases ((rest.filter fun entry => entry.1 = key).getLast?) <;> rfl
      · rw [List.filter_cons_of_neg (by simpa using same), if_neg (Ne.symm same)]
  exact (run entries empty).trans (Option.or_none)

theorem filter_flatMap_of_perm {κ α ρ : Type} [DecidableEq κ] {view : ρ → List (κ × α)} {rows others : List ρ}
    (perm : rows.Perm others) (apart : rows.Pairwise fun a b => ∀ x ∈ view a, ∀ y ∈ view b, x.1 ≠ y.1) (key : κ) :
    (rows.flatMap view).filter (fun entry => entry.1 = key) = (others.flatMap view).filter fun entry => entry.1 = key := by
  have none {list : List (κ × α)} (absent : ∀ entry ∈ list, entry.1 ≠ key) :
      list.filter (fun entry => entry.1 = key) = [] := List.filter_eq_nil_iff.mpr (by simpa using absent)
  induction perm with
  | nil => rfl
  | cons row _ ih =>
    rw [List.flatMap_cons, List.flatMap_cons, List.filter_append, List.filter_append, ih (List.pairwise_cons.mp apart).2]
  | swap first second rest =>
    have differ := (List.pairwise_cons.mp apart).1 first (List.mem_cons_self ..)
    simp only [List.flatMap_cons, List.filter_append, ← List.append_assoc]
    congr 1
    -- Only one of the two has entries of the key.
    by_cases absent : ∀ entry ∈ view first, entry.1 ≠ key
    · rw [none absent, List.append_nil, List.nil_append]
    · obtain ⟨entry, member, same⟩ : ∃ entry ∈ view first, entry.1 = key := by simpa using absent
      rw [none fun other inSecond isKey => differ other inSecond entry member (isKey.trans same.symm), List.append_nil,
        List.nil_append]
  | trans first _ ih later =>
    refine (ih apart).trans (later ((first.pairwise_iff fun differ => ?_).mp apart))
    exact fun x inX y inY same => differ y inY x inX same.symm

theorem mapM_map_eq_ok {ε α β ρ : Type} {step : α → Except ε β} {rows : List ρ} {input : ρ → α} {output : ρ → β}
    (each : ∀ row ∈ rows, step (input row) = .ok (output row)) :
    (rows.map input).mapM step = .ok (rows.map output) := by
  rw [mapM_eq_ok_iff, List.forall₂_map_left_iff, List.forall₂_map_right_iff, List.forall₂_same]
  exact each

namespace Vhdl

/-! ### Drivers -/

namespace DriverTable

theorem storage_congr {first second : DriverTable} (firstDistinct : first.keys.Nodup) (secondDistinct : second.keys.Nodup)
    (same : ∀ name, first.Drives .sequential name ↔ second.Drives .sequential name) : first.storage = second.storage := by
  have distinct {drivers : DriverTable} (isDistinct : drivers.keys.Nodup) : (drivers.entries.filterMap fun entry =>
      if entry.2.kind = .sequential then some entry.1 else none).Nodup := by
    refine (Table.filterMap_sublist_keys fun entry key isKey => ?_).nodup isDistinct
    split at isKey
    · exact Option.some.inj isKey
    · nomatch isKey
  refine mergeSort_eq_of_perm ?_ ?_ ?_ ((List.perm_ext_iff_of_nodup (distinct firstDistinct) (distinct secondDistinct)).mpr
    fun name => ?_)
  · simpa using fun a b c => String.le_trans
  · simpa using String.le_total
  · simpa using fun a b => String.le_antisymm
  · have members := same name
    rw [← mem_storage firstDistinct, ← mem_storage secondDistinct, storage, storage, List.mem_mergeSort,
      List.mem_mergeSort] at members
    exact members

theorem foldlM_addAll_of_perm {first : List ResolvedStmt} (perm : first.Perm second)
    (ok : first.foldlM (addAll inputs) Table.empty = .ok drivers) :
    ∃ others, second.foldlM (addAll inputs) Table.empty = .ok others ∧ others.keys.Nodup ∧
      ∀ kind name, drivers.Drives kind name ↔ others.Drives kind name := by
  have recorded := (foldlM_addAll_comesTo inputs first).of_ok ok
  have sameMembers (assignment : Assignment) : assignment ∈ assignments first ↔ assignment ∈ assignments second :=
    (perm.flatMap_right _).mem_iff
  have comesTo := foldlM_addAll_comesTo inputs second
  cases found : second.foldlM (addAll inputs) Table.empty with
  | error fault =>
    rw [found] at comesTo
    obtain ⟨before, assignment, after, split, _, reports⟩ := comesTo
    refine absurd reports.clashes (recorded.not_clashes (fun earlier inBefore => ?_) ?_)
    · exact (sameMembers earlier).mpr (by simp [split, inBefore])
    · exact (sameMembers assignment).mpr (by simp [split])
  | ok others =>
    have recordedToo := comesTo.of_ok found
    refine ⟨others, rfl, recordedToo.distinct, fun kind name => ?_⟩
    rw [recorded.drives_iff, recordedToo.drives_iff]
    simp only [sameMembers]

end DriverTable

/-! ### Names -/

section

variable {declared : Design} {first second : List (Concurrent DataType)}

theorem DesignUnit.statements_withStatements (is : declared.architecture = some body) :
    (declared.withStatements first).statements = first := by
  rw [statements, withStatements, is]
  rfl

theorem Design.globals_withStatements : Design.globals (declared.withStatements first) = Design.globals declared := by
  rw [globals, globals, DesignUnit.withStatements]
  cases declared.architecture <;> rfl

theorem Design.declarations_withStatements (is : declared.architecture = some body) :
    Design.declarations (declared.withStatements first) = Design.globals declared ++ variableInfos first := by
  rw [declarations, globals_withStatements, DesignUnit.statements_withStatements is]

theorem names_agree (is : declared.architecture = some body) (perm : first.Perm second)
    (firstScoped : Design.IsScoped (declared.withStatements first))
    (secondScoped : Design.IsScoped (declared.withStatements second)) :
    (names (declared.withStatements first)).Agrees (names (declared.withStatements second)) := by
  have moved : (Design.declarations (declared.withStatements first)).Perm
      (Design.declarations (declared.withStatements second)) := by
    rw [Design.declarations_withStatements is, Design.declarations_withStatements is]
    exact (((perm.filterMap _).flatMap_right _).append_left _)
  intro name
  ext info
  rw [Table.find?_eq_some_iff firstScoped.nodup_names, Table.find?_eq_some_iff secondScoped.nodup_names,
    firstScoped.entries_names, secondScoped.entries_names, moved.mem_iff]

theorem constants_names (is : declared.architecture = some body)
    (isScoped : Design.IsScoped (declared.withStatements first)) :
    (names (declared.withStatements first)).constants = NameTable.constants ⟨Design.globals declared⟩ := by
  have noConstants : NameTable.constants ⟨variableInfos first⟩ = [] := by
    refine List.filterMap_eq_nil_iff.mpr fun entry member => ?_
    obtain ⟨block, _, isVariable⟩ := List.mem_flatMap.mp member
    obtain ⟨decl, _, rfl⟩ := List.mem_map.mp isVariable
    rfl
  rw [NameTable.constants, isScoped.entries_names, Design.declarations_withStatements is, List.filterMap_append]
  change _ ++ NameTable.constants ⟨variableInfos first⟩ = _
  rw [noConstants, List.append_nil]
  rfl

end

/-! ### Statements on their way -/

/-- A statement on its way from the source into a resolved design. -/
structure Passage where
  source : Concurrent TypeMark
  lowered : Concurrent DataType
  resolved : ResolvedStmt
  findings : Findings

structure Passage.Passes (scope : Scope) (names : NameTable) (passage : Passage) : Prop where
  lowers : Lowering.LowersAlone scope passage.source passage.lowered
  classifies : ResolvedStmt.ofConcurrent names.constants passage.lowered = .ok passage.resolved
  checks : passage.resolved.check names = .ok passage.findings

theorem exists_passages {names : NameTable} (loweredOk : List.Forall₂ (Lowering.LowersAlone scope) sources lowered)
    (resolvedOk : lowered.mapM (ResolvedStmt.ofConcurrent names.constants) = .ok resolved)
    (findingsOk : resolved.mapM (ResolvedStmt.check names) = .ok findings) :
    ∃ passages : List Passage, passages.map Passage.source = sources ∧ passages.map Passage.lowered = lowered ∧
      passages.map Passage.resolved = resolved ∧ passages.map Passage.findings = findings ∧
      ∀ passage ∈ passages, passage.Passes scope names := by
  rw [mapM_eq_ok_iff] at resolvedOk findingsOk
  induction loweredOk generalizing resolved findings with
  | nil =>
    cases resolvedOk
    cases findingsOk
    exact ⟨[], rfl, rfl, rfl, rfl, List.forall_mem_nil _⟩
  | cons lowers _ ih =>
    obtain ⟨stmt, _, classifies, othersResolved, rfl⟩ := List.forall₂_cons_left_iff.mp resolvedOk
    obtain ⟨found, _, checks, othersFound, rfl⟩ := List.forall₂_cons_left_iff.mp findingsOk
    obtain ⟨passages, rfl, rfl, rfl, rfl, each⟩ := ih othersResolved othersFound
    refine ⟨⟨_, _, stmt, found⟩ :: passages, rfl, rfl, rfl, rfl, ?_⟩
    exact List.forall_mem_cons.mpr ⟨⟨lowers, classifies, checks⟩, each⟩

def elaborate (parsed : DesignUnit TypeMark) (strict : Bool) : Traced Fault Resolved := do
  resolve (← lower parsed) strict

/-- What declarations and statements on their way come to. -/
structure LeadsTo (declared : Design) (scope : Scope) (strict : Bool) (passages : List Passage) (resolved : Resolved) :
    Prop where
  design : resolved.design = declared.withStatements (passages.map Passage.lowered)
  names : resolved.names = Vhdl.names resolved.design
  each : ∀ passage ∈ passages, passage.Passes scope resolved.names
  statements : resolved.statements = passages.map Passage.resolved
  drivers : resolved.statements.foldlM (DriverTable.addAll declared.entity.inputs) Table.empty = .ok resolved.drivers
  findings : ∃ body, declared.architecture = some body ∧ resolved.findings =
    declaredFindings resolved.names body ++ Findings.concat (passages.map Passage.findings)
  quiet : strict = true → resolved.diagnostics = []

theorem Resolved.accepted_eq_ok_iff {resolved : Resolved} :
    found.accepted strict = .ok resolved ↔ resolved = found ∧ (strict = true → resolved.diagnostics = []) := by
  unfold accepted
  split
  · rename_i first rest isFirst
    simp only [reduceCtorEq, false_iff, not_and]
    rintro rfl quiet
    rw [isFirst] at quiet
    nomatch quiet trivial
  · rename_i other
    rw [Except.ok.injEq, eq_comm]
    refine (and_iff_left_of_imp ?_).symm
    rintro rfl rfl
    cases isEmpty : resolved.diagnostics with
    | nil => rfl
    | cons first rest => exact absurd isEmpty (other first rest rfl)

theorem Lowering.architecture_declarations (ok : outcome (declarations entity body) scope = some (declared, after)) :
    ∃ inner, declared.architecture = some inner := by
  simp only [declarations, outcome_bind, outcome_pure, Option.bind_eq_some_iff] at ok
  obtain ⟨_, _, _, _, _, _, _, _, ⟨⟩⟩ := ok
  exact ⟨_, rfl⟩

theorem lower_of_passages (is : parsed.architecture = some body)
    (distinct : (body.statements.flatMap Concurrent.ownKeys).Nodup)
    (declaredOk : Lowering.outcome (Lowering.declarations parsed.entity body) Scope.empty = some (declared, scope))
    {passages : List Passage} (sources : passages.map Passage.source = body.statements)
    (each : ∀ passage ∈ passages, Lowering.LowersAlone scope passage.source passage.lowered) :
    (lower parsed).result = .ok (declared.withStatements (passages.map Passage.lowered)) := by
  refine (lower_eq_ok_iff is).mpr ⟨distinct, declared, scope, declaredOk, _, ?_, rfl⟩
  rw [← sources, List.forall₂_map_left_iff, List.forall₂_map_right_iff, List.forall₂_same]
  exact each

theorem elaborate_eq_ok_iff (is : parsed.architecture = some body) :
    (elaborate parsed strict).result = .ok resolved ↔ (body.statements.flatMap Concurrent.ownKeys).Nodup ∧
      ∃ declared scope passages, Lowering.outcome (Lowering.declarations parsed.entity body) Scope.empty =
        some (declared, scope) ∧ passages.map Passage.source = body.statements ∧
          LeadsTo declared scope strict passages resolved := by
  have inside {declared : Design} {inner : Architecture DataType} (isInner : declared.architecture = some inner)
      (statements : List (Concurrent DataType)) :
      (declared.withStatements statements).architecture = some { inner with statements } := by
    rw [DesignUnit.withStatements, isInner]
    rfl
  rw [elaborate, Traced.result_bind, bind_eq_ok]
  constructor
  · rintro ⟨design, lowerOk, resolveOk⟩
    obtain ⟨distinct, declared, scope, declaredOk, lowered, each, rfl⟩ := (lower_eq_ok_iff is).mp lowerOk
    obtain ⟨inner, isInner⟩ := Lowering.architecture_declarations declaredOk
    rw [result_resolve_architecture (inside isInner lowered), result_resolveBody] at resolveOk
    obtain ⟨_, found, accepted⟩ := bind_eq_ok.mp resolveOk
    obtain ⟨statements, statementsOk, found⟩ := bind_eq_ok.mp found
    obtain ⟨drivers, driversOk, found⟩ := bind_eq_ok.mp found
    obtain ⟨checked, checkedOk, found⟩ := bind_eq_ok.mp found
    cases found
    obtain ⟨rfl, quiet⟩ := Resolved.accepted_eq_ok_iff.mp accepted
    obtain ⟨passages, sources, rfl, rfl, rfl, each⟩ := exists_passages each statementsOk checkedOk
    exact ⟨distinct, declared, scope, passages, declaredOk, sources,
      ⟨rfl, rfl, each, rfl, driversOk, ⟨inner, isInner, rfl⟩, quiet⟩⟩
  · rintro ⟨distinct, declared, scope, passages, declaredOk, sources, leads⟩
    obtain ⟨design, table, statements, drivers, findings⟩ := resolved
    obtain ⟨isDesign, isTable, each, isStatements, driversOk, ⟨inner, isInner, isFindings⟩, quiet⟩ := leads
    dsimp only at isDesign isTable isStatements isFindings each driversOk
    subst isDesign isTable isStatements isFindings
    refine ⟨_, lower_of_passages is distinct declaredOk sources fun passage member => (each passage member).lowers, ?_⟩
    rw [result_resolve_architecture (inside isInner _), result_resolveBody]
    refine bind_eq_ok.mpr ⟨_, bind_eq_ok.mpr ⟨_, ?_, bind_eq_ok.mpr ⟨drivers, driversOk, bind_eq_ok.mpr ⟨_, ?_, rfl⟩⟩⟩,
      Resolved.accepted_eq_ok_iff.mpr ⟨rfl, quiet⟩⟩
    · exact mapM_map_eq_ok fun passage member => (each passage member).classifies
    · exact mapM_map_eq_ok fun passage member => (each passage member).checks

/-! ### Statements in another order -/

theorem declaredFindings_congr (same : first.Agrees second) (body : Architecture DataType) :
    declaredFindings first body = declaredFindings second body := by
  simp only [declaredFindings, checkInitial_congr same]

/-- What resolution finds in statements moves along with them. -/
structure Reordered (sources moved : List (Concurrent TypeMark)) (first second : Resolved) : Prop where
  names : first.names.Agrees second.names
  drives : ∀ kind name, first.drivers.Drives kind name ↔ second.drivers.Drives kind name
  passages : ∃ before after : List Passage, before.Perm after ∧
    (∀ passage ∈ before, ∃ scope, passage.Passes scope first.names) ∧
    before.map Passage.source = sources ∧ after.map Passage.source = moved ∧
    before.map Passage.resolved = first.statements ∧ after.map Passage.resolved = second.statements ∧
    ∃ declared : Findings, first.findings = declared ++ Findings.concat (before.map Passage.findings) ∧
      second.findings = declared ++ Findings.concat (after.map Passage.findings)

section

variable {declared : Design} {scope : Scope} {strict : Bool} {passages others : List Passage} {first : Resolved}

theorem Findings.view_perm {β : Type} (view : Findings → List β) (empty : view .none = [])
    (joins : ∀ a b : Findings, view (a ++ b) = view a ++ view b) (perm : passages.Perm others) (declared : Findings) :
    (view (declared ++ concat (passages.map Passage.findings))).Perm
      (view (declared ++ concat (others.map Passage.findings))) := by
  rw [joins, joins, view_concat view empty joins, view_concat view empty joins]
  exact ((perm.map _).flatMap_right _).append_left _

theorem LeadsTo.reordered (leads : LeadsTo declared scope strict passages first) (perm : passages.Perm others)
    (isScoped : Design.IsScoped first.design)
    (othersScoped : Design.IsScoped (declared.withStatements (others.map Passage.lowered))) :
    ∃ second, LeadsTo declared scope strict others second ∧
      Reordered (passages.map Passage.source) (others.map Passage.source) first second := by
  obtain ⟨body, isBody, isFindings⟩ := leads.findings
  rw [leads.design] at isScoped
  have agree : first.names.Agrees (Vhdl.names (declared.withStatements (others.map Passage.lowered))) := by
    rw [leads.names, leads.design]
    exact names_agree isBody (perm.map _) isScoped othersScoped
  have sameConstants : first.names.constants =
      (Vhdl.names (declared.withStatements (others.map Passage.lowered))).constants := by
    rw [leads.names, leads.design, constants_names isBody isScoped, constants_names isBody othersScoped]
  have sameStatements : first.statements.Perm (others.map Passage.resolved) := by
    rw [leads.statements]
    exact perm.map _
  obtain ⟨drivers, driversOk, _, drives⟩ := DriverTable.foldlM_addAll_of_perm sameStatements leads.drivers
  rw [declaredFindings_congr agree] at isFindings
  refine ⟨⟨_, _, others.map Passage.resolved, drivers, _⟩, ⟨rfl, rfl, fun passage member => ?_, rfl, driversOk,
    ⟨body, isBody, rfl⟩, fun isStrict => ?_⟩, agree, drives, passages, others, perm,
    fun passage member => ⟨scope, leads.each passage member⟩, rfl, rfl, leads.statements.symm, rfl, _, isFindings, rfl⟩
  · obtain ⟨lowers, classifies, checks⟩ := leads.each passage (perm.mem_iff.mpr member)
    rw [sameConstants] at classifies
    rw [ResolvedStmt.check_congr agree] at checks
    exact ⟨lowers, classifies, checks⟩
  · have quiet := leads.quiet isStrict
    rw [Resolved.diagnostics, isFindings] at quiet
    have moved := Findings.view_perm Findings.diagnostics rfl (fun _ _ => rfl) perm (declaredFindings
      (Vhdl.names (declared.withStatements (others.map Passage.lowered))) body)
    rw [quiet] at moved
    exact moved.nil_eq.symm

end

theorem elaborate_reordered (is : parsed.architecture = some body) (perm : body.statements.Perm statements)
    (ok : (elaborate parsed strict).result = .ok first) :
    ∃ second, (elaborate (parsed.withStatements statements) strict).result = .ok second ∧
      Reordered body.statements statements first second := by
  obtain ⟨distinct, declared, scope, passages, declaredOk, sources, leads⟩ := (elaborate_eq_ok_iff is).mp ok
  obtain ⟨others, moves, rfl⟩ := exists_perm_of_map_perm (sources ▸ perm)
  have isMoved : (parsed.withStatements (others.map Passage.source)).architecture =
      some { body with statements := others.map Passage.source } := by
    rw [DesignUnit.withStatements, is]
    rfl
  have movedDistinct : ((others.map Passage.source).flatMap Concurrent.ownKeys).Nodup :=
    (perm.flatMap_right _).nodup_iff.mp distinct
  have loweredOk := lower_of_passages is distinct declaredOk sources fun passage member => (leads.each passage member).lowers
  have movedOk := lower_of_passages isMoved movedDistinct declaredOk rfl fun passage member =>
    (leads.each passage (moves.mem_iff.mpr member)).lowers
  rw [← leads.design] at loweredOk
  obtain ⟨second, leadsToo, reordered⟩ := leads.reordered moves (isScoped_of_unit (unit_of_lower loweredOk))
    (isScoped_of_unit (unit_of_lower movedOk))
  rw [sources] at reordered
  exact ⟨second, (elaborate_eq_ok_iff isMoved).mpr ⟨movedDistinct, declared, scope, others, declaredOk, rfl, leadsToo⟩,
    reordered⟩

end Vhdl

end RtlBridge

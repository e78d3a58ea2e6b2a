import RtlBridge.Proofs.Vhdl.Drivers
import RtlBridge.Proofs.Vhdl.Findings

/-! Conflicts between drivers. An assignment clashes if its name is an input port, or if an earlier
assignment to the same name stands in another kind of statement. Resolution reports the first assignment
that clashes; if none does, the table of drivers has the first assignment of every name. -/

namespace RtlBridge.Vhdl

open List

/-- One assignment of a design. -/
structure Assignment where
  kind : DriverKind
  name : String
  line : Nat
deriving Repr, DecidableEq

def ProcessKind.driver : ProcessKind → DriverKind
  | .combinational => .combinational
  | .sequential _ _ _ => .sequential

def Stmt.assignment? (kind : DriverKind) : Stmt → Option Assignment
  | .assign target _ _ line => some ⟨kind, target.name, line⟩
  | _ => none

/-- The assignments of a statement from top to bottom, at any depth. -/
def ResolvedStmt.assignments : ResolvedStmt → List Assignment
  | .process block kind => (bodyStmts block.body).filterMap (Stmt.assignment? kind.driver)
  | .assign assignment => [⟨.continuous, assignment.target.name, assignment.line⟩]
  | .conditional assignment => [⟨.continuous, assignment.target.name, assignment.line⟩]
  | .captured _ => []

def assignments (statements : List ResolvedStmt) : List Assignment := statements.flatMap ResolvedStmt.assignments

namespace Assignment

/-- An assignment to an input port, or of another kind than an earlier one to the same name. -/
def Clashes (inputs : List String) (before : List Assignment) (assignment : Assignment) : Prop :=
  assignment.name ∈ inputs ∨ ∃ earlier ∈ before, earlier.name = assignment.name ∧ earlier.kind ≠ assignment.kind

def Agree (inputs : List String) (all : List Assignment) : Prop :=
  ∀ before assignment after, all = before ++ assignment :: after → ¬ assignment.Clashes inputs before

/-- The fault that an assignment causes if it clashes with those before it. -/
inductive Reports (inputs : List String) (before : List Assignment) (assignment : Assignment) : Fault → Prop where
  | input (isInput : assignment.name ∈ inputs) :
      Reports inputs before assignment ⟨.conflictingDrivers assignment.name .inputPort, assignment.line⟩
  | twoKinds {first : Assignment} (noInput : assignment.name ∉ inputs)
      (isFirst : before.find? (·.name = assignment.name) = some first) (differ : first.kind ≠ assignment.kind) :
      Reports inputs before assignment
        ⟨.conflictingDrivers assignment.name (.twoKinds first.kind first.line assignment.kind), assignment.line⟩

theorem Reports.clashes {assignment : Assignment} (reports : assignment.Reports inputs before fault)
    : assignment.Clashes inputs before := by
  cases reports with
  | input isInput => exact .inl isInput
  | twoKinds noInput isFirst differ =>
    have same := find?_some isFirst
    exact .inr ⟨_, mem_of_find?_eq_some isFirst, of_decide_eq_true same, differ⟩

theorem Reports.named {assignment : Assignment} (reports : assignment.Reports inputs before fault) :
    ∃ conflict, fault = ⟨.conflictingDrivers assignment.name conflict, assignment.line⟩ := by
  cases reports with
  | input isInput | twoKinds noInput isFirst differ => exact ⟨_, rfl⟩

def driver (assignment : Assignment) : Driver := ⟨assignment.kind, assignment.line⟩

def record (inputs : List String) (drivers : DriverTable) (assignment : Assignment) : Except Fault DriverTable :=
  drivers.add inputs assignment.kind (assignment.name, assignment.line)

/-- A table of drivers after assignments that do not clash. -/
structure Recorded (inputs : List String) (done : List Assignment) (drivers : DriverTable) : Prop where
  distinct : drivers.keys.Nodup
  firsts : ∀ name, drivers.find? name = (done.find? (·.name = name)).map driver
  drives : ∀ assignment ∈ done, assignment.name ∉ inputs ∧ drivers.Drives assignment.kind assignment.name

section

variable {inputs : List String} {done : List Assignment} {drivers : DriverTable}

theorem Recorded.empty : Recorded inputs [] Table.empty := ⟨nodup_nil, fun _ => rfl, nofun⟩

theorem Recorded.not_clashes (recorded : Recorded inputs done drivers) (earlierDone : before ⊆ done)
    (inDone : assignment ∈ done) : ¬ assignment.Clashes inputs before := by
  intro clashes
  obtain ⟨noInput, driver, found, isKind⟩ := recorded.drives assignment inDone
  rcases clashes with isInput | ⟨earlier, inBefore, same, differ⟩
  · exact noInput isInput
  · obtain ⟨_, first, foundFirst, isFirst⟩ := recorded.drives earlier (earlierDone inBefore)
    rw [same, found, Option.some.injEq] at foundFirst
    exact differ (isFirst ▸ foundFirst ▸ isKind)

theorem Recorded.agree (recorded : Recorded inputs done drivers) : Agree inputs done := by
  rintro before assignment after rfl
  exact recorded.not_clashes (subset_append_left ..) (mem_append_right _ (mem_cons_self ..))

theorem Recorded.step (recorded : Recorded inputs done drivers) (assignment : Assignment) :
    ComesTo (Recorded inputs (done ++ [assignment])) (assignment.Reports inputs done)
      (record inputs drivers assignment) := by
  cases step : record inputs drivers assignment with
  | ok after =>
    obtain ⟨extended, isDriven⟩ := DriverTable.add_eq_ok step
    simp only [record, DriverTable.add, contains_iff_mem] at step
    split at step
    · cases step
    rename_i noInput
    have drives : ∀ other ∈ done ++ [assignment], other.name ∉ inputs ∧ after.Drives other.kind other.name := by
      rw [forall_mem_append, forall_mem_singleton]
      refine ⟨fun other member => ?_, noInput, isDriven⟩
      exact ⟨(recorded.drives other member).1, (recorded.drives other member).2.mono extended⟩
    refine ⟨extended.distinct recorded.distinct, fun name => ?_, drives⟩
    rw [find?_append]
    split at step
    · rename_i absent
      cases step
      rw [recorded.firsts, Option.map_eq_none_iff] at absent
      rw [Table.find?_insert, recorded.firsts]
      by_cases same : name = assignment.name
      · subst same
        simp [absent, driver]
      · have others : ¬ assignment.name = name := fun eq => same eq.symm
        simp [same, others]
    · rename_i first found
      split at step
      · cases step
        rw [recorded.firsts] at found ⊢
        by_cases same : assignment.name = name
        · subst same
          obtain ⟨earlier, isEarlier, _⟩ := Option.map_eq_some_iff.mp found
          simp [isEarlier]
        · simp [same]
      · cases step
  | error fault =>
    simp only [record, DriverTable.add, contains_iff_mem] at step
    split at step
    · rename_i isInput
      cases step
      exact .input isInput
    · rename_i noInput
      split at step
      · cases step
      · rename_i first found
        split at step
        · cases step
        · rename_i differ
          cases step
          rw [recorded.firsts] at found
          obtain ⟨earlier, isEarlier, rfl⟩ := Option.map_eq_some_iff.mp found
          exact .twoKinds noInput isEarlier differ

theorem Recorded.run (recorded : Recorded inputs done drivers) (coming : List Assignment) :
    ComesTo (Recorded inputs (done ++ coming))
      (fun fault => ∃ before assignment after, done ++ coming = before ++ assignment :: after ∧
        Agree inputs before ∧ assignment.Reports inputs before fault)
      (coming.foldlM (record inputs) drivers) := by
  induction coming generalizing done drivers with
  | nil =>
    rw [append_nil]
    exact recorded
  | cons assignment rest ih =>
    have split : done ++ assignment :: rest = (done ++ [assignment]) ++ rest := by simp
    rw [foldlM_cons]
    cases step : record inputs drivers assignment with
    | ok middle =>
      have next := (recorded.step assignment).of_ok step
      rw [split]
      exact ih next
    | error fault =>
      have reports := recorded.step assignment
      rw [step] at reports
      exact ⟨done, assignment, rest, rfl, recorded.agree, reports⟩

end

end Assignment

/-! ### The assignments that drive -/

theorem DriverTable.addAll_eq_foldlM (inputs : List String) (drivers : DriverTable) (statement : ResolvedStmt) :
    drivers.addAll inputs statement = statement.assignments.foldlM (Assignment.record inputs) drivers := by
  cases statement with
  | process block kind =>
    have writes : (bodyStmts block.body).filterMap (Stmt.assignment? kind.driver) =
        (bodyWrites false block.body).map fun write => ⟨kind.driver, write.1, write.2⟩ := by
      rw [bodyWrites_eq_filterMap, map_filterMap]
      congr 1
      funext stmt
      cases stmt <;> rfl
    rw [ResolvedStmt.assignments, writes, foldlM_map]
    cases kind <;> rfl
  | assign assignment => rfl
  | conditional assignment => rfl
  | captured statement => rfl

theorem DriverTable.foldlM_addAll_eq_foldlM (inputs : List String) (statements : List ResolvedStmt)
    (drivers : DriverTable) :
    statements.foldlM (DriverTable.addAll inputs) drivers =
      (assignments statements).foldlM (Assignment.record inputs) drivers := by
  induction statements generalizing drivers with
  | nil => rfl
  | cons first rest ih =>
    rw [foldlM_cons, assignments, flatMap_cons, foldlM_append, addAll_eq_foldlM]
    exact congrArg _ (funext fun middle => ih middle)

/-! ### What resolution comes to -/

theorem result_report (findings : Findings) : (report findings).result = .ok () := by
  rw [report]
  induction findings.diagnostics with
  | nil => rfl
  | cons first rest ih =>
    change (Traced.note _ >>= fun _ => rest.forM _).result = _
    rw [Traced.result_bind]
    exact ih

theorem result_checkStatements (names : NameTable) (statements : List ResolvedStmt) :
    (checkStatements names statements).result =
      statements.mapM (ResolvedStmt.check names) >>= fun all => .ok (Findings.concat all) := by
  induction statements with
  | nil => rfl
  | cons first rest ih =>
    rw [checkStatements, Traced.result_bind, mapM_cons, bind_assoc]
    congr 1
    funext findings
    rw [Traced.result_bind, result_report]
    change (checkStatements names rest >>= _).result = _
    rw [Traced.result_bind, ih, bind_assoc, bind_assoc]
    rfl

def declaredFindings (names : NameTable) (body : Architecture DataType) : Findings :=
  ((body.signals.map fun decl => checkInitial names .signal decl.name decl.init decl.line) ++
    body.constants.map fun decl =>
      checkInitial names .constant decl.name (some decl.value) decl.line).foldl (· ++ ·) .none

theorem result_resolveBody (design : Design) (body : Architecture DataType) : (resolveBody design body).result = do
      let statements ← body.statements.mapM (ResolvedStmt.ofConcurrent (names design).constants)
      let drivers ← statements.foldlM (DriverTable.addAll design.entity.inputs) Table.empty
      let checked ← statements.mapM (ResolvedStmt.check (names design))
      return ⟨design, names design, statements, drivers,
        declaredFindings (names design) body ++ Findings.concat checked⟩ := by
  simp only [resolveBody, Traced.result_bind, result_report, result_checkStatements, bind_assoc]
  rfl

theorem findings_of_resolve (ok : (resolve design strict).result = .ok resolved) :
    (resolved.statements = [] ∧ resolved.findings = .none) ∨ ∃ body checked, design.architecture = some body ∧
      Forall₂ (fun stmt found => stmt.check resolved.names = .ok found) resolved.statements checked ∧
      resolved.findings = declaredFindings resolved.names body ++ .concat checked := by
  obtain ⟨_, rfl⟩ | ⟨body, is, ok⟩ := resolve_eq_ok ok
  · exact .inl ⟨rfl, rfl⟩
  · rw [result_resolveBody] at ok
    obtain ⟨statements, _, ok⟩ := bind_eq_ok.mp ok
    obtain ⟨drivers, _, ok⟩ := bind_eq_ok.mp ok
    obtain ⟨checked, eachChecked, ok⟩ := bind_eq_ok.mp ok
    cases ok
    exact .inr ⟨body, checked, is, mapM_eq_ok_iff.mp eachChecked, rfl⟩

theorem ResolvedStmt.check_failsOnly (names : NameTable) (statement : ResolvedStmt) :
    FailsOnly (fun fault => ∃ line, fault = .unsupported line .edgeOutsideProcess) (statement.check names) := by
  intro fault failed
  cases statement with
  | process block kind => nomatch failed
  | captured statement => nomatch failed
  | assign assignment =>
    rw [check] at failed
    split at failed
    · cases failed
      exact ⟨_, rfl⟩
    · nomatch failed
  | conditional assignment =>
    simp only [check] at failed
    split at failed
    · cases failed
      exact ⟨_, rfl⟩
    · nomatch failed

def Resolved.accepted (strict : Bool) (resolved : Resolved) : Except Fault Resolved :=
  match strict, resolved.diagnostics with
  | true, first :: _ => .error ⟨.finding first.finding, first.line⟩
  | _, _ => .ok resolved

section

variable {design : Design} {statements : List ResolvedStmt}

theorem result_resolve_entity (is : design.architecture = none) (strict : Bool) :
    (resolve design strict).result = .ok ⟨design, names design, [], Table.empty, .none⟩ := by
  rw [resolve, is]
  cases strict <;> rfl

theorem result_resolve_architecture (is : design.architecture = some body) (strict : Bool) :
    (resolve design strict).result = (resolveBody design body).result >>= Resolved.accepted strict := by
  rw [resolve, is]
  dsimp only
  rw [Traced.result_bind]
  congr 1
  funext resolved
  unfold Resolved.accepted
  cases strict with
  | false => rfl
  | true => cases resolved.diagnostics <;> rfl

theorem resolve_of_conflict
    (classified : design.statements.mapM (ResolvedStmt.ofConcurrent (names design).constants) = .ok statements)
    (conflict : statements.foldlM (DriverTable.addAll design.entity.inputs) Table.empty = .error fault) (strict : Bool)
    : (resolve design strict).result = .error fault := by
  rw [DesignUnit.statements] at classified
  cases is : design.architecture with
  | none =>
    rw [is] at classified
    cases classified
    cases conflict
  | some body =>
    rw [is, Option.elim_some] at classified
    rw [result_resolve_architecture is, result_resolveBody, classified]
    change (statements.foldlM _ _ >>= _) >>= _ = _
    rw [conflict]
    rfl

theorem resolve_of_drivers
    (classified : design.statements.mapM (ResolvedStmt.ofConcurrent (names design).constants) = .ok statements)
    (found : statements.foldlM (DriverTable.addAll design.entity.inputs) Table.empty = .ok drivers) (strict : Bool) :
    ComesTo (fun resolved => resolved.drivers = drivers)
      (fun fault => ∀ name conflict, fault.cause ≠ .conflictingDrivers name conflict)
      (resolve design strict).result := by
  rw [DesignUnit.statements] at classified
  cases is : design.architecture with
  | none =>
    rw [is] at classified
    cases classified
    cases found
    rw [result_resolve_entity is]
    rfl
  | some body =>
    rw [is, Option.elim_some] at classified
    rw [result_resolve_architecture is, result_resolveBody, classified]
    change ComesTo _ _ ((statements.foldlM _ _ >>= _) >>= _)
    rw [found]
    change ComesTo _ _ ((statements.mapM _ >>= _) >>= _)
    cases checked : statements.mapM (ResolvedStmt.check (names design)) with
    | ok all =>
      change ComesTo _ _ (Resolved.accepted strict _)
      unfold Resolved.accepted
      split
      · rintro _ _ ⟨⟩
      · rfl
    | error fault =>
      intro name conflict
      obtain ⟨line, rfl⟩ := FailsOnly.mapM (fun statement _ => statement.check_failsOnly _) fault checked
      rintro ⟨⟩

end

theorem DriverTable.mem_storage {drivers : DriverTable} (distinct : drivers.keys.Nodup) :
    name ∈ drivers.storage ↔ drivers.Drives .sequential name := by
  rw [storage, mem_mergeSort, mem_filterMap]
  constructor
  · rintro ⟨⟨other, driver⟩, member, isSequential⟩
    dsimp only at isSequential
    split at isSequential
    · rename_i sequential
      cases isSequential
      exact ⟨driver, Table.find?_of_mem_entries distinct member, sequential⟩
    · nomatch isSequential
  · rintro ⟨driver, found, sequential⟩
    obtain ⟨before, after, split, _⟩ := lookup_eq_some_iff.mp found
    exact ⟨(name, driver), by simp [split], by simp [sequential]⟩

namespace Assignment.Recorded

variable {inputs : List String} {all : List Assignment} {drivers : DriverTable}

theorem mem_keys (recorded : Recorded inputs all drivers) {name : String} :
    name ∈ drivers.keys ↔ ∃ assignment ∈ all, assignment.name = name := by
  constructor
  · intro member
    obtain ⟨entry, isEntry, rfl⟩ := mem_map.mp member
    have found := Table.find?_of_mem_entries recorded.distinct isEntry
    rw [recorded.firsts] at found
    obtain ⟨assignment, isFirst, _⟩ := Option.map_eq_some_iff.mp found
    have same := find?_some isFirst
    exact ⟨assignment, mem_of_find?_eq_some isFirst, of_decide_eq_true same⟩
  · rintro ⟨assignment, member, rfl⟩
    exact (recorded.drives assignment member).2.mem_keys

theorem drives_iff (recorded : Recorded inputs all drivers) {kind : DriverKind} {name : String} :
    drivers.Drives kind name ↔ ∃ assignment ∈ all, assignment.name = name ∧ assignment.kind = kind := by
  constructor
  · rintro drives
    obtain ⟨assignment, member, rfl⟩ := recorded.mem_keys.mp drives.mem_keys
    obtain ⟨driver, found, isKind⟩ := (recorded.drives assignment member).2
    obtain ⟨same, foundToo, rfl⟩ := drives
    rw [found, Option.some.injEq] at foundToo
    exact ⟨assignment, member, rfl, foundToo ▸ isKind.symm⟩
  · rintro ⟨assignment, member, rfl, rfl⟩
    exact (recorded.drives assignment member).2

end Assignment.Recorded

theorem DriverTable.foldlM_addAll_comesTo (inputs : List String) (statements : List ResolvedStmt) :
    ComesTo (Assignment.Recorded inputs (assignments statements))
      (fun fault => ∃ before assignment after, assignments statements = before ++ assignment :: after ∧
        Assignment.Agree inputs before ∧ assignment.Reports inputs before fault)
      (statements.foldlM (DriverTable.addAll inputs) Table.empty) := by
  rw [foldlM_addAll_eq_foldlM]
  exact Assignment.Recorded.empty.run (assignments statements)

/-- In a design whose processes all have a kind, drivers conflict exactly if an input port is assigned or
one name is assigned by statements of two kinds. The fault is then about the first assignment that clashes
with those before it. Without a conflict the table of drivers has the assigned names, each with the kind of
all its assignments, and the registers are the names that sequential processes assign. -/
theorem drivers_of_assignments (design : Design) (statements : List ResolvedStmt)
    (classified : design.statements.mapM (ResolvedStmt.ofConcurrent (names design).constants) = .ok statements) :
    let inputs := design.entity.inputs
    let all := assignments statements
    let found := statements.foldlM (DriverTable.addAll inputs) Table.empty
    ((∃ fault, found = .error fault) ↔ (∃ one ∈ all, one.name ∈ inputs) ∨
      ∃ one ∈ all, ∃ other ∈ all, one.name = other.name ∧ one.kind ≠ other.kind) ∧
    (∀ fault, found = .error fault →
      (∀ strict, (resolve design strict).result = .error fault) ∧
      ∃ before first after, all = before ++ first :: after ∧
        first.Clashes inputs before ∧ Assignment.Agree inputs before ∧
        first.Reports inputs before fault ∧
        ∃ conflict, fault = ⟨.conflictingDrivers first.name conflict, first.line⟩) ∧
    ∀ drivers, found = .ok drivers →
      (∀ strict resolved, (resolve design strict).result = .ok resolved → resolved.drivers = drivers) ∧
      (∀ strict fault, (resolve design strict).result = .error fault →
        ∀ name conflict, fault.cause ≠ .conflictingDrivers name conflict) ∧
      drivers.keys.Nodup ∧
      (∀ name, name ∈ drivers.keys ↔ ∃ assignment ∈ all, assignment.name = name) ∧
      (∀ assignment ∈ all, drivers.Drives assignment.kind assignment.name) ∧
      ∀ name, name ∈ drivers.storage ↔ ∃ assignment ∈ all, assignment.name = name ∧ assignment.kind = .sequential := by
  intro inputs all found
  have comesTo : ComesTo _ _ found := DriverTable.foldlM_addAll_comesTo inputs statements
  refine ⟨?_, fun fault failed => ?_, fun drivers ok => ?_⟩
  · cases is : found with
    | ok drivers =>
      have recorded := comesTo.of_ok is
      refine ⟨nofun, ?_⟩
      rintro (⟨one, member, isInput⟩ | ⟨one, isOne, other, isOther, sameName, differ⟩)
      · exact absurd isInput (recorded.drives one member).1
      · obtain ⟨driver, foundOne, isKind⟩ := (recorded.drives one isOne).2
        obtain ⟨second, foundOther, isOtherKind⟩ := (recorded.drives other isOther).2
        rw [← sameName, foundOne, Option.some.injEq] at foundOther
        exact absurd (isKind.symm.trans (foundOther ▸ isOtherKind)) differ
    | error fault =>
      rw [is] at comesTo
      obtain ⟨before, first, after, split, _, reports⟩ := comesTo
      have isFirst : first ∈ all := by simp [all, split]
      refine ⟨fun _ => ?_, fun _ => ⟨fault, rfl⟩⟩
      rcases reports.clashes with isInput | ⟨earlier, inBefore, same, differ⟩
      · exact .inl ⟨first, isFirst, isInput⟩
      · exact .inr ⟨earlier, by simp [all, split, inBefore], first, isFirst, same, differ⟩
  · rw [failed] at comesTo
    obtain ⟨before, first, after, split, agree, reports⟩ := comesTo
    exact ⟨resolve_of_conflict classified failed,
      before, first, after, split, reports.clashes, agree, reports, reports.named⟩
  · have recorded := comesTo.of_ok ok
    have resolution := resolve_of_drivers classified ok
    refine ⟨fun strict resolved isOk => (resolution strict).of_ok isOk, fun strict fault failed => ?_,
      recorded.distinct, fun name => recorded.mem_keys, fun assignment member => (recorded.drives assignment member).2,
      fun name => ?_⟩
    · have other := resolution strict
      rw [failed] at other
      exact other
    · rw [DriverTable.mem_storage recorded.distinct, recorded.drives_iff]

/-- A case gives `y` a value in an arm and in its default, and a statement outside gives it another. -/
def sampleConflict : Design :=
  let gives (line : Nat) : Stmt := .assign ⟨"y", .whole, line⟩ (.name "d" line) false line
  let decides : Stmt := .selection (.name "d" 4) [([.literal (.bit "0") 5], [gives 5])] (some [gives 6]) 4
  ⟨⟨"e", [⟨"d", .input, .bit, 1⟩, ⟨"y", .output, .bit, 1⟩], 1⟩,
    some ⟨"a", "e", [], [], [],
      [.process ⟨none, .all, [], [decides], 3⟩, .assign ⟨⟨"y", .whole, 8⟩, .name "d" 8, 8⟩], 2⟩⟩

theorem drivers_of_sampleConflict :
    ∃ statements fault,
      sampleConflict.statements.mapM (ResolvedStmt.ofConcurrent (names sampleConflict).constants) = .ok statements ∧
      assignments statements = [⟨.combinational, "y", 5⟩, ⟨.combinational, "y", 6⟩, ⟨.continuous, "y", 8⟩] ∧
      (∀ strict, (resolve sampleConflict strict).result = .error fault) ∧
      ∃ before first after, assignments statements = before ++ first :: after ∧
        first.Clashes ["d"] before ∧ Assignment.Agree ["d"] before ∧
        ∃ conflict, fault = ⟨.conflictingDrivers first.name conflict, first.line⟩ := by
  obtain ⟨statements, classified, all⟩ : ∃ statements,
      sampleConflict.statements.mapM (ResolvedStmt.ofConcurrent (names sampleConflict).constants) = .ok statements ∧
      assignments statements = [⟨.combinational, "y", 5⟩, ⟨.combinational, "y", 6⟩, ⟨.continuous, "y", 8⟩] :=
    ⟨[.process _ .combinational, .assign _], rfl, rfl⟩
  obtain ⟨conflicts, reports, _⟩ := drivers_of_assignments sampleConflict statements classified
  obtain ⟨fault, failed⟩ := conflicts.mpr (.inr (by
    rw [all]
    exact ⟨⟨.combinational, "y", 5⟩, by decide, ⟨.continuous, "y", 8⟩, by decide, rfl, nofun⟩))
  obtain ⟨resolution, before, first, after, split, clashes, agree, _, named⟩ := reports fault failed
  exact ⟨statements, fault, classified, all, resolution, before, first, after, split, clashes, agree, named⟩

end RtlBridge.Vhdl

import RtlBridge.Proofs.Execution
import RtlBridge.Proofs.Vhdl.Evaluation
import RtlBridge.Proofs.Vhdl.ProcessShape

/-! Running source processes. A process runs when a name in its sensitivity list changes: variables change at
once, signals when it is done. Statements that are kept as text have no effect here: of them only assertions and
reports are modelled (`Stmt.IsModelled`). Vectors are the lowered ones: element `k` is bit `k - low`, whichever way the
range was declared. -/

namespace RtlBridge.Vhdl

open List

def Target.place (names : NameTable) (store : Store) (target : Target) : Int :=
  match target.part with
  | .whole => 0
  | .element subscript => subscript.number names store none - names.low target.name
  | .range left right => min (left.number names store none) (right.number names store none) - names.low target.name

def Target.change (names : NameTable) (store : Store) (target : Target) (value : Expr) : Change where
  name := target.name
  low := target.place names store
  width := ((target.width? names).getD 0).toNat
  value := (wrapped false (target.width? names) (value.number names store (target.width? names))).toNat

def Expr.isTrue (names : NameTable) (store : Store) (condition : Expr) : Bool := condition.number names store none ≠ 0

/-- Whether a condition holds; whether there is an edge is not in the store. -/
def Expr.holds (names : NameTable) (fires : EdgeTest → Bool) (store : Store) (condition : Expr) : Bool :=
  match condition.edgeTest? with
  | some test => fires test
  | none => condition.isTrue names store

def Expr.selects (names : NameTable) (store : Store) (selector : Expr) (choices : List Expr) : Bool :=
  choices.any fun choice => selector.number names store none = choice.number names store (selector.width? names)

mutual

def Stmt.exec (names : NameTable) (fires : EdgeTest → Bool) : Stmt → Activity → Activity
  | .assign target value immediate _, activity => activity.assign immediate (target.change names activity.store value)
  | .conditional branches otherwise _, activity =>
    (execBranches names fires branches activity).getD (execBody names fires otherwise activity)
  | .selection selector arms default _, activity =>
    (execArms names fires selector arms activity).getD (execDefault names fires default activity)
  | .captured _, activity => activity

def execBody (names : NameTable) (fires : EdgeTest → Bool) : List Stmt → Activity → Activity
  | [], activity => activity
  | first :: rest, activity => execBody names fires rest (first.exec names fires activity)

def execBranches (names : NameTable) (fires : EdgeTest → Bool) :
    List (Expr × List Stmt) → Activity → Option Activity
  | [], _ => none
  | (condition, body) :: rest, activity =>
    if condition.holds names fires activity.store then some (execBody names fires body activity)
    else execBranches names fires rest activity

def execArms (names : NameTable) (fires : EdgeTest → Bool) (selector : Expr) :
    List (List Expr × List Stmt) → Activity → Option Activity
  | [], _ => none
  | (choices, body) :: rest, activity =>
    if selector.selects names activity.store choices then some (execBody names fires body activity)
    else execArms names fires selector rest activity

def execDefault (names : NameTable) (fires : EdgeTest → Bool) : Option (List Stmt) → Activity → Activity
  | none, activity => activity
  | some body, activity => execBody names fires body activity

end

/-- Whether a statement does what `exec` says. Of the statements that are kept as text, assertions and reports do. -/
def Stmt.IsModelled : Stmt → Prop
  | .captured statement => statement.kind = .assertion ∨ statement.kind = .report
  | _ => True

def changed (names : NameTable) (before after : Store) (name : String) : Bool :=
  let size := 2 ^ (((names.type? name).map DataType.width).getD 0).toNat
  before name % size ≠ after name % size

namespace ProcessBlock

def awaits (block : ProcessBlock DataType) : List String :=
  match block.sensitivity with
  | .listed names => names
  | .all => bodyReads block.body

def written (block : ProcessBlock DataType) : List String := (bodyWrites false block.body).map Prod.fst

/-- What a process makes of the store when a name that it waits for has changed. -/
def react (names : NameTable) (block : ProcessBlock DataType) (before after : Store) : Store :=
  if block.awaits.any (changed names before after) then
    (execBody names (fun test => occurs before after (test.edge, test.clock)) block.body (.start after)).settle
  else after

end ProcessBlock

/-! ### Writes in order -/

mutual

def Stmt.trace (names : NameTable) (fires : EdgeTest → Bool) : Stmt → Store → List Write
  | .assign target value immediate _, store => [⟨immediate, target.change names store value⟩]
  | .conditional branches otherwise _, store =>
    (branchTrace names fires branches store).getD (bodyTrace names fires otherwise store)
  | .selection selector arms default _, store =>
    (armTrace names fires selector arms store).getD (defaultTrace names fires default store)
  | .captured _, _ => []

def bodyTrace (names : NameTable) (fires : EdgeTest → Bool) : List Stmt → Store → List Write
  | [], _ => []
  | first :: rest, store =>
    first.trace names fires store ++ bodyTrace names fires rest (store.after (first.trace names fires store))

def branchTrace (names : NameTable) (fires : EdgeTest → Bool) :
    List (Expr × List Stmt) → Store → Option (List Write)
  | [], _ => none
  | (condition, body) :: rest, store =>
    if condition.holds names fires store then some (bodyTrace names fires body store)
    else branchTrace names fires rest store

def armTrace (names : NameTable) (fires : EdgeTest → Bool) (selector : Expr) :
    List (List Expr × List Stmt) → Store → Option (List Write)
  | [], _ => none
  | (choices, body) :: rest, store =>
    if selector.selects names store choices then some (bodyTrace names fires body store)
    else armTrace names fires selector rest store

def defaultTrace (names : NameTable) (fires : EdgeTest → Bool) : Option (List Stmt) → Store → List Write
  | none, _ => []
  | some body, store => bodyTrace names fires body store

end

def Stmt.ownWrites (names : NameTable) (store : Store) : Stmt → List Write
  | .assign target value immediate _ => [⟨immediate, target.change names store value⟩]
  | _ => []

def Stmt.taken (names : NameTable) (fires : EdgeTest → Bool) (store : Store) : Stmt → List Stmt
  | .conditional branches otherwise _ =>
    ((branches.find? fun branch => branch.1.holds names fires store).map Prod.snd).getD otherwise
  | .selection selector arms default _ =>
    ((arms.find? fun arm => selector.selects names store arm.1).map Prod.snd).getD (default.getD [])
  | _ => []

section Trace

variable {names : NameTable} {fires : EdgeTest → Bool}

theorem Stmt.taken_subset (store : Store) (stmt : Stmt) : stmt.taken names fires store ⊆ stmt.children := by
  intro inner member
  cases stmt with
  | conditional branches otherwise line =>
    rw [taken] at member
    cases found : branches.find? fun branch => branch.1.holds names fires store with
    | none =>
      rw [found] at member
      exact mem_append_right _ member
    | some branch =>
      rw [found] at member
      exact mem_append_left _ (mem_flatMap.mpr ⟨branch, mem_of_find?_eq_some found, member⟩)
  | selection selector arms default line =>
    rw [taken] at member
    cases found : arms.find? fun arm => selector.selects names store arm.1 with
    | none =>
      rw [found] at member
      exact mem_append_right _ member
    | some arm =>
      rw [found] at member
      exact mem_append_left _ (mem_flatMap.mpr ⟨arm, mem_of_find?_eq_some found, member⟩)
  | _ => cases member

theorem Stmt.exec_eq (stmt : Stmt) (activity : Activity) : stmt.exec names fires activity =
    execBody names fires (stmt.taken names fires activity.store)
      (activity.makeAll (stmt.ownWrites names activity.store)) := by
  cases stmt with
  | conditional branches otherwise line =>
    have inBranches : ∀ branches, execBranches names fires branches activity =
        (branches.find? fun branch => branch.1.holds names fires activity.store).map
          fun branch => execBody names fires branch.2 activity := eq_map_find? rfl fun _ _ => rfl
    rw [exec, inBranches, taken]
    cases branches.find? _ <;> rfl
  | selection selector arms default line =>
    have inArms : ∀ arms, execArms names fires selector arms activity =
        (arms.find? fun arm => selector.selects names activity.store arm.1).map
          fun arm => execBody names fires arm.2 activity := eq_map_find? rfl fun _ _ => rfl
    rw [exec, inArms, taken]
    cases arms.find? _ <;> cases default <;> rfl
  | _ => rfl

theorem Stmt.trace_eq (stmt : Stmt) (store : Store) : stmt.trace names fires store =
    stmt.ownWrites names store ++
      bodyTrace names fires (stmt.taken names fires store) (store.after (stmt.ownWrites names store)) := by
  cases stmt with
  | conditional branches otherwise line =>
    have inBranches : ∀ branches, branchTrace names fires branches store =
        (branches.find? fun branch => branch.1.holds names fires store).map
          fun branch => bodyTrace names fires branch.2 store := eq_map_find? rfl fun _ _ => rfl
    rw [trace, inBranches, taken]
    cases branches.find? _ <;> rfl
  | selection selector arms default line =>
    have inArms : ∀ arms, armTrace names fires selector arms store =
        (arms.find? fun arm => selector.selects names store arm.1).map
          fun arm => bodyTrace names fires arm.2 store := eq_map_find? rfl fun _ _ => rfl
    rw [trace, inArms, taken]
    cases arms.find? _ <;> cases default <;> rfl
  | _ => rfl

theorem execBody_of_each (each : ∀ inner ∈ body, ∀ activity : Activity,
      inner.exec names fires activity = activity.makeAll (inner.trace names fires activity.store)) (activity : Activity) :
    execBody names fires body activity = activity.makeAll (bodyTrace names fires body activity.store) := by
  induction body generalizing activity with
  | nil => rfl
  | cons first rest ih =>
    obtain ⟨here, later⟩ := forall_mem_cons.mp each
    rw [execBody, bodyTrace, Activity.makeAll_append, here activity, ih later, Activity.store_makeAll]

theorem Stmt.exec_eq_makeAll (stmt : Stmt) (activity : Activity) :
    stmt.exec names fires activity = activity.makeAll (stmt.trace names fires activity.store) := by
  induction stmt using Stmt.childInduction generalizing activity with
  | step stmt ih =>
    have each (inner : Stmt) (member : inner ∈ stmt.taken names fires activity.store) := ih inner (stmt.taken_subset _ member)
    rw [exec_eq, trace_eq, Activity.makeAll_append, execBody_of_each each, Activity.store_makeAll]

theorem execBody_eq_makeAll (body : List Stmt) (activity : Activity) :
    execBody names fires body activity = activity.makeAll (bodyTrace names fires body activity.store) :=
  execBody_of_each (fun inner _ => inner.exec_eq_makeAll) activity

/-! ### Names that are not written -/

theorem mem_bodyTrace (member : write ∈ bodyTrace names fires body store) :
    ∃ inner ∈ body, ∃ store, write ∈ inner.trace names fires store := by
  induction body generalizing store with
  | nil => cases member
  | cons first rest ih =>
    obtain here | later := mem_append.mp member
    · exact ⟨first, mem_cons_self .., store, here⟩
    · obtain ⟨inner, isInner, found⟩ := ih later
      exact ⟨inner, mem_cons_of_mem _ isInner, found⟩

theorem Stmt.trace_written (stmt : Stmt) (member : write ∈ stmt.trace names fires store)
    : write.change.name ∈ (stmt.writes false).map Prod.fst := by
  induction stmt using Stmt.childInduction generalizing store with
  | step stmt ih =>
    rw [trace_eq] at member
    obtain own | inside := mem_append.mp member
    · cases stmt with
      | assign target value immediate line =>
        cases mem_singleton.mp own
        simp [writes, Target.change]
      | _ => cases own
    · obtain ⟨inner, isTaken, _, inInner⟩ := mem_bodyTrace inside
      have isChild := stmt.taken_subset _ isTaken
      exact map_subset _ (writes_subset isChild false) (ih inner isChild inInner)

theorem bodyTrace_written (member : write ∈ bodyTrace names fires body store)
    : write.change.name ∈ (bodyWrites false body).map Prod.fst := by
  obtain ⟨inner, isInner, _, inInner⟩ := mem_bodyTrace member
  rw [bodyWrites_eq_flatMap, map_flatMap]
  exact mem_flatMap.mpr ⟨inner, isInner, inner.trace_written inInner⟩

theorem settle_execBody_of_unwritten (unwritten : name ∉ (bodyWrites false body).map Prod.fst) (activity : Activity) :
    (execBody names fires body activity).settle name = activity.settle name := by
  rw [execBody_eq_makeAll]
  apply Activity.settle_makeAll_of_name_ne
  intro write member same
  exact unwritten (same ▸ bodyTrace_written member)

end Trace

end RtlBridge.Vhdl

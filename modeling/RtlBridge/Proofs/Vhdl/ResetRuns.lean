import RtlBridge.Proofs.Emission.Clocked
import RtlBridge.Proofs.Vhdl.AccessSets

/-! Runs under a synchronous reset. When the reset has its level, the clocked statements run its branch and then what
follows the `if`. A register keeps what the branch gives it unless it is assigned behind the `if`, and what whole
assignments of constants give it does not depend on the store. -/

namespace RtlBridge

/-! ### Changes -/

theorem testBit_applyAll_of_covered (member : change ∈ changes) (whole : change.low = 0) (inside : index < change.width) :
    ∃ bit, ∀ store, (applyAll changes store change.name).testBit index = bit := by
  induction changes with
  | nil => cases member
  | cons first rest ih =>
    obtain rfl | later := List.mem_cons.mp member
    · obtain ⟨bit, fixed⟩ | kept := testBit_applyAll rest change.name index
      · exact ⟨bit, fun store => fixed _⟩
      · refine ⟨change.value.testBit index, fun store => (kept _).trans ?_⟩
        simp [Change.apply, Change.testBit_replaced, whole, inside]
    · obtain ⟨bit, fixed⟩ := ih later
      exact ⟨bit, fun store => fixed _⟩

/-- The changes that writes make, in the order in which they take effect. -/
def inEffect (writes : List Write) : List Change :=
  (writes.filter fun write => write.immediate).map Write.change ++
    (writes.filter fun write => !write.immediate).map Write.change

theorem mem_inEffect : change ∈ inEffect writes ↔ ∃ write ∈ writes, write.change = change := by
  rw [inEffect, ← List.map_append, List.mem_map]
  refine exists_congr fun write => and_congr_left fun _ => ?_
  cases now : write.immediate <;> simp [now]

theorem Activity.settle_makeAll (activity : Activity) (writes : List Write) : (activity.makeAll writes).settle =
    applyAll (activity.waiting ++ (writes.filter fun write => !write.immediate).map Write.change)
      (applyAll ((writes.filter fun write => write.immediate).map Write.change) activity.store) := by
  induction writes generalizing activity with
  | nil => simp [makeAll, settle, applyAll]
  | cons write rest ih =>
    rw [makeAll, List.foldl_cons, ← makeAll, ih]
    cases now : write.immediate <;> simp [assign, now, applyAll]

theorem Activity.settle_start (store : Store) (writes : List Write) :
    ((start store).makeAll writes).settle = applyAll (inEffect writes) store :=
  (settle_makeAll _ _).trans List.foldl_append.symm

namespace Vhdl

section Runs

variable {names : NameTable} {fires : EdgeTest → Bool} {store : Store}

/-! ### The branch of the reset -/

theorem Expr.IsBuiltFrom.reads_subset {expr : Expr} (built : expr.IsBuiltFrom constants) : expr.reads ⊆ constants := by
  induction built with
  | literal => exact List.nil_subset _
  | name line known => exact List.cons_subset.mpr ⟨known, List.nil_subset _⟩
  | aggregate site line _ ih => exact ih
  | conversion line _ _ ih =>
    rw [reads, readsAll_eq_flatMap]
    intro name member
    obtain ⟨argument, isArgument, inside⟩ := List.mem_flatMap.mp member
    exact ih argument isArgument inside

/-- An assignment of constants. -/
def Stmt.Sets (constants : List String) (stmt : Stmt) : Prop :=
  ∃ target value immediate line, stmt = .assign target value immediate line ∧ value.IsBuiltFrom constants

/-- Whether a statement assigns the whole of a name. -/
def Stmt.AssignsWhole : Stmt → Prop
  | .assign target _ _ _ => target.part = .whole
  | _ => False

section

variable {reset : List Stmt} (sets : ∀ stmt ∈ reset, stmt.Sets constants) (wholes : ∀ stmt ∈ reset, stmt.AssignsWhole)

include sets wholes

theorem bodyTrace_of_constants (agree : Store.AgreeOn constants store other) :
    bodyTrace names fires reset store = bodyTrace names fires reset other := by
  refine bodyTrace_of_each (fun stmt member first second agree => ?_) (agree.mono fun name isRead => ?_)
  · obtain ⟨target, value, immediate, line, rfl, _⟩ := sets stmt member
    exact Stmt.ownWrites_congr agree
  · obtain ⟨stmt, member, inside⟩ := List.mem_flatMap.mp isRead
    obtain ⟨⟨assigned, part, line⟩, value, immediate, line, rfl, built⟩ := sets stmt member
    cases wholes _ member
    exact built.reads_subset inside

theorem write_of_assigns (assigns : Assigns reset name) (store : Store) :
    ∃ write ∈ bodyTrace names fires reset store, write.change.name = name ∧ write.change.low = 0 ∧
      write.change.width = (((names.type? name).map DataType.width).getD 0).toNat := by
  obtain ⟨target, value, immediate, line, member, rfl⟩ := assigns
  induction reset generalizing store with
  | nil => simp [bodyStmts] at member
  | cons first rest ih =>
    obtain ⟨here, later⟩ := List.forall_mem_cons.mp sets
    obtain ⟨whole, others⟩ := List.forall_mem_cons.mp wholes
    obtain ⟨⟨name, part, nameLine⟩, _, _, _, rfl, _⟩ := here
    obtain inFirst | inRest := List.mem_append.mp member
    · cases List.mem_singleton.mp inFirst
      cases whole
      exact ⟨_, List.mem_append_left _ (List.mem_singleton_self _), rfl, rfl, rfl⟩
    · obtain ⟨write, isWrite, is⟩ := ih later others _ inRest
      exact ⟨write, List.mem_append_right _ isWrite, is⟩

end

end Runs

theorem changed_eq_false {names : NameTable} (same : ∀ index < (((names.type? name).map DataType.width).getD 0).toNat,
    (before name).testBit index = (after name).testBit index) : changed names before after name = false := by
  rw [changed, decide_eq_false_iff_not, not_not]
  apply Nat.eq_of_testBit_eq
  intro index
  rw [Nat.testBit_mod_two_pow, Nat.testBit_mod_two_pow]
  by_cases inside : index < (((names.type? name).map DataType.width).getD 0).toNat
  · rw [same index inside]
  · simp [inside]

/-- When a synchronous reset has its level, the clocked statements run its branch and then what follows the `if`. A
register that is not assigned there has the value that the branch gives it; if the branch assigns whole names only, this
value is the same for all stores that hold the same constants. A loop that is kept as text could assign a register too,
so only assertions and reports may be. -/
theorem reset_decides_registers
    (ok : processKind constants sensitivity body = .ok (.sequential clock (.sync test reset) clocked)) :
    ∃ first rest, clocked = first :: rest ∧ ∀ (names : NameTable) (fires : EdgeTest → Bool) (store : Store),
      bodyAll Stmt.IsModelled clocked → names.IsBit test.signal → store.level test.signal = test.level →
        execBody names fires clocked (.start store) =
          execBody names fires rest (execBody names fires reset (.start store)) ∧
        ∀ name, AssignsSignal clocked name → ¬Assigns rest name →
          (execBody names fires clocked (.start store)).settle name =
            (execBody names fires reset (.start store)).settle name ∧
          ((∀ stmt ∈ reset, stmt.AssignsWhole) → ∀ other, Store.AgreeOn constants store other →
            changed names (execBody names fires reset (.start store)).settle
              (execBody names fires reset (.start other)).settle name = false) := by
  have hasKind := HasKind.of_processKind ok
  cases hasKind with
  | clocked single isEdge hasReset =>
    cases hasReset with
    | sync starts =>
      obtain ⟨isTest, alternative, present, constant, covers⟩ := starts
      refine ⟨_, _, rfl, fun names fires store _ isBit level => ?_⟩
      have holds := (Emission.holds_of_isLevelTest isTest isBit fires store).trans (decide_eq_true level)
      refine ⟨?_, fun name assigned free => ⟨?_, fun wholes other agree => ?_⟩⟩
      · rw [execBody, Stmt.exec, execBranches, Activity.store_start, if_pos holds]
        rfl
      · rw [execBody, Stmt.exec, execBranches, Activity.store_start, if_pos holds]
        exact settle_execBody_of_unwritten (mt mem_bodyWrites_all.mp free) _
      · rw [execBody_eq_makeAll, execBody_eq_makeAll, Activity.store_start, Activity.store_start,
          bodyTrace_of_constants constant wholes agree, Activity.settle_start, Activity.settle_start]
        refine changed_eq_false fun index inside => ?_
        obtain ⟨write, isWrite, rfl, whole, width⟩ := write_of_assigns constant wholes (covers name assigned) other
        rw [← width] at inside
        obtain ⟨bit, fixed⟩ := testBit_applyAll_of_covered (mem_inEffect.mpr ⟨write, isWrite, rfl⟩) whole inside
        rw [fixed, fixed]

def sampleClears : List Stmt := [.assign ⟨"q", .whole, 3⟩ (.literal (.bit "0") 3) false 3]

/-- A register is cleared while `rst` is high and follows `d` otherwise, and other statements follow. -/
def sampleClocked (rest : List Stmt) : List Stmt :=
  .conditional [(.binary .eq (.name "rst" 2) (.literal (.bit "1") 2) 2, sampleClears)]
    [.assign ⟨"q", .whole, 5⟩ (.name "d" 5) false 5] 2 :: rest

def sampleReset (rest : List Stmt) : ProcessKind :=
  .sequential ⟨"clk", .rising⟩ (.sync ⟨"rst", .high⟩ sampleClears) (sampleClocked rest)

def sampleBits : NameTable := ⟨["clk", "rst", "d", "q"].map fun name => (name, ⟨.signal, some .bit⟩)⟩

theorem sampleReset_decides :
    processKind [] (.listed ["clk"]) [.conditional [(.call "rising_edge" [.name "clk" 1] 1, sampleClocked [])] [] 1] =
      .ok (sampleReset []) ∧
    ∀ fires other, (execBody sampleBits fires (sampleClocked []) (.start fun _ => 1)).settle "q" =
        (execBody sampleBits fires sampleClears (.start fun _ => 1)).settle "q" ∧
      changed sampleBits (execBody sampleBits fires sampleClears (.start fun _ => 1)).settle
        (execBody sampleBits fires sampleClears (.start other)).settle "q" = false := by
  have accepted : processKind [] (.listed ["clk"])
      [.conditional [(.call "rising_edge" [.name "clk" 1] 1, sampleClocked [])] [] 1] = .ok (sampleReset []) := rfl
  refine ⟨accepted, fun fires other => ?_⟩
  obtain ⟨first, rest, same, decides⟩ := reset_decides_registers accepted
  cases same
  have modelled : bodyAll Stmt.IsModelled (sampleClocked []) := by
    simp [sampleClocked, sampleClears, bodyAll, branchAll, Stmt.All, Stmt.IsModelled]
  obtain ⟨_, registers⟩ := decides sampleBits fires (fun _ => 1) modelled ⟨.signal, rfl, .inr rfl⟩ rfl
  obtain ⟨kept, fixed⟩ := registers "q" ⟨_, _, _, List.mem_of_getElem? (i := 1) rfl, rfl⟩ (by simp [Assigns, bodyStmts])
  exact ⟨kept, fixed (List.forall_mem_singleton.mpr rfl) other fun _ absent => absurd absent List.not_mem_nil⟩

/-- An assignment behind the `if` overrules the reset: the register follows `d`. -/
theorem reset_overruled :
    let rest := [.assign ⟨"q", .whole, 6⟩ (.name "d" 6) false 6]
    processKind [] (.listed ["clk"]) [.conditional [(.call "rising_edge" [.name "clk" 1] 1, sampleClocked rest)] [] 1] =
      .ok (sampleReset rest) ∧
    (execBody sampleBits (fun _ => true) sampleClears (.start fun _ => 1)).settle "q" = 0 ∧
    (execBody sampleBits (fun _ => true) (sampleClocked rest) (.start fun _ => 1)).settle "q" = 1 := by
  refine ⟨rfl, ?_, ?_⟩ <;> decide

end Vhdl

end RtlBridge

import RtlBridge.Proofs.Emission.Leaves
import RtlBridge.Proofs.Emission.StatementMeaning

/-! Clocked processes and their always blocks. A process wakes at every change of its clock and its reset, a
block only at the edges that it lists. Both do the same, but for one thing: while an asynchronous reset stays
active, the process runs its reset branch again when the clock goes back, and the block does not. -/

namespace RtlBridge

namespace Vhdl

def NameTable.IsBit (names : NameTable) (name : String) : Prop :=
  ∃ role, names.find? name = some ⟨role, some .bit⟩ ∧ (role = .port ∨ role = .signal)

def outcome (names : NameTable) (body : List Stmt) (store : Store) : Store :=
  (execBody names (fun _ => false) body (.start store)).settle

def Level.edge : Level → Edge
  | .high => .rising
  | .low => .falling

def Lingers (clock : EdgeTest) (test : LevelTest) (before after : Store) : Prop :=
  before.level test.signal = test.level ∧ after.level test.signal = test.level ∧
    before.level clock.clock = clock.edge.level ∧ after.level clock.clock ≠ clock.edge.level

section Levels

variable {names : NameTable} {name : String}

theorem NameTable.IsBit.type? (isBit : names.IsBit name) : names.type? name = some .bit := by
  obtain ⟨role, found, _⟩ := isBit
  rw [NameTable.type?, found]
  rfl

theorem changed_of_isBit (isBit : names.IsBit name) (before after : Store) :
    changed names before after name = decide (before.level name ≠ after.level name) := by
  have size : 2 ^ (((names.type? name).map DataType.width).getD 0).toNat = 2 := by
    rw [isBit.type?]
    rfl
  simp only [changed, size, Store.level]
  grind

def Level.bit : Level → Nat
  | .low => 0
  | .high => 1

theorem level_eq_iff (store : Store) (name : String) (level : Level) :
    store.level name = level ↔ store name % 2 = level.bit := by cases level <;> grind [Store.level, Level.bit]

theorem number_of_isBit (isBit : names.IsBit name) (store : Store) (place : Option Int) (line : Nat) :
    (Expr.name name line).number names store place = (store name % 2 : Nat) := by
  rw [Expr.number, isBit.type?]
  simp [wrapped, DataType.width, DataType.signed]

theorem number_of_level (names : NameTable) (store : Store) (place : Option Int) (level : Level) (line : Nat) :
    (Expr.literal (.bit level.digit) line).number names store place = level.bit := by
  have value : (Literal.bit level.digit).value?.getD 0 = level.bit := by cases level <;> decide
  rw [Expr.number, value]

theorem isTrue_of_eq (names : NameTable) (store : Store) (lhs rhs : Expr) (line : Nat) :
    (Expr.binary .eq lhs rhs line).isTrue names store =
      decide (lhs.number names store (lhs.placeBeside names rhs) =
        rhs.number names store (rhs.placeBeside names lhs)) := by
  simp only [Expr.isTrue, Expr.number, BinaryOp.staysInside, BinaryOp.isRelational, Bool.true_or, if_true,
    BinaryOp.exact, BinaryOp.relates]
  grind

theorem isTrue_of_isLevelTest {condition : Expr} (isTest : condition.IsLevelTest test) (isBit : names.IsBit test.signal)
    (store : Store) : condition.isTrue names store = decide (store.level test.signal = test.level) := by
  induction isTest with
  | equal test nameLine bitLine line =>
    rw [isTrue_of_eq, number_of_isBit isBit, number_of_level, decide_eq_decide, level_eq_iff]
    exact Int.ofNat_inj
  | flip _ ih =>
    rw [← ih isBit, isTrue_of_eq, isTrue_of_eq, decide_eq_decide]
    exact eq_comm

end Levels

end Vhdl

namespace Emission

open Verilog (Scope Tree execBody)
open Vhdl (Level EdgeTest LevelTest Stmt ProcessBlock DataType bodyAll Expr Lingers bodyWrites outcome resolve)

def levelCondition (test : LevelTest) : Verilog.Expr :=
  .binary .eq (.name test.signal) (.sized 1 .binary test.level.digit)

theorem truth_of_levelCondition (bit : scope.dimension test.signal = none) (store : Store) :
    (levelCondition test).tree.truth scope store = decide (store.level test.signal = test.level) := by
  have width : scope.width test.signal = 1 := by
    rw [Scope.width, bit]
    rfl
  have unsigned : scope.isSigned test.signal = false := by
    rw [Scope.isSigned, bit]
    rfl
  have widths : max ((Tree.name test.signal).width scope) ((Tree.based "1" 'b' test.level.digit).width scope) = 1 := by
    rw [Tree.width, width]
    exact (by decide : max 1 (Verilog.decimalValue "1") = 1)
  have signs : ((Tree.name test.signal).isSigned scope &&
      (Tree.based "1" 'b' test.level.digit).isSigned scope) = false := by
    rw [Tree.isSigned, unsigned]
    rfl
  have left : (Tree.name test.signal).bits scope store 1 false = BitVec.ofNat 1 (store test.signal) := by
    have last : Vhdl.wrapped false (some ((1 : Nat) : Int)) (store test.signal) = (store test.signal % 2 : Nat) := by
      simp [Vhdl.wrapped]
    rw [Tree.bits, Verilog.extendBits_ofNat false width.le, width, last, BitVec.ofInt_natCast]
    apply BitVec.eq_of_toNat_eq
    simp
  have right : (Tree.based "1" 'b' test.level.digit).bits scope store 1 false = BitVec.ofNat 1 test.level.bit := by
    rw [Tree.bits]
    cases test.level <;> decide
  calc (levelCondition test).tree.truth scope store
      = Verilog.compareBits false "==" ((Tree.name test.signal).bits scope store 1 false)
          ((Tree.based "1" 'b' test.level.digit).bits scope store 1 false) :=
        Tree.truth_of_comparison rfl widths signs
    _ = (BitVec.ofNat 1 (store test.signal) == BitVec.ofNat 1 test.level.bit) := by
        rw [left, right]
        rfl
    _ = decide (store.level test.signal = test.level) := by
        rw [beq_eq_decide, decide_eq_decide, Vhdl.level_eq_iff, ← BitVec.toNat_inj]
        cases test.level <;> simp [Level.bit]

/-! ### Shadows -/

theorem lookup_shadowsFor (absent : name ∉ list) : (shadowsFor taken list).lookup name = none := by
  induction list generalizing taken with
  | nil => rfl
  | cons first rest ih =>
    rw [List.mem_cons, not_or] at absent
    rw [shadowsFor, List.lookup_cons, beq_eq_false_iff_ne.mpr absent.1]
    exact ih absent.2

theorem unshadowed_of_sequential (isResolved : (resolve design strict).result = .ok resolved) (profile : Profile)
    (isProcess : .process block (.sequential clock reset clocked) ∈ resolved.statements) :
    Unshadowed (Context.of profile resolved) (bodyWrites false block.body) := by
  obtain ⟨distinct, covers⟩ := Vhdl.drivers_of_resolve isResolved
  intro write isWrite
  obtain ⟨driver, found, isSequential⟩ := covers _ isProcess .sequential _ rfl write isWrite
  have absent : write.1 ∉ shadowedNames resolved := by
    intro shadowed
    obtain ⟨⟨name, other⟩, member, kept⟩ := List.mem_filterMap.mp shadowed
    dsimp only at kept
    split at kept
    · rename_i combinational
      cases kept
      have same := Table.find?_of_mem_entries distinct member
      rw [found] at same
      cases same
      simp [isSequential] at combinational
    · cases kept
  change (shadows profile resolved).lookup write.1 = none
  rw [shadows]
  split
  · exact lookup_shadowsFor absent
  · rfl

/-! ### Reactions -/

section Reactions

variable {names : Vhdl.NameTable} {block : ProcessBlock DataType} {clock : EdgeTest} {clocked : List Stmt} {line : Nat}

def ticks (clock : EdgeTest) (before after : Store) : Bool := occurs before after (clock.edge, clock.clock)

theorem level_ne_of_occurs (occurred : occurs before after event = true) : before.level event.2 ≠ after.level event.2 := by
  simp only [occurs, Bool.and_eq_true, decide_eq_true_eq] at occurred
  rw [occurred.2]
  exact occurred.1

theorem holds_of_isEdgeTest {condition : Expr} (isEdge : condition.IsEdgeTest clock)
    (fires : EdgeTest → Bool) (store : Store) : condition.holds names fires store = fires clock := by
  simp only [Expr.holds, Expr.edgeTest?_iff_isEdgeTest.mpr isEdge]

theorem holds_of_isLevelTest {condition : Expr} (isLevel : condition.IsLevelTest test)
    (isBit : names.IsBit test.signal) (fires : EdgeTest → Bool) (store : Store) :
    condition.holds names fires store = decide (store.level test.signal = test.level) := by
  simp only [Expr.holds, Expr.edgeTest?_of_isLevelTest isLevel, Vhdl.isTrue_of_isLevelTest isLevel isBit]

theorem react_of_clocked (isEdge : condition.IsEdgeTest clock) (listed : block.sensitivity = .listed [clock.clock])
    (isBody : block.body = [.conditional [(condition, clocked)] [] line]) (isBit : names.IsBit clock.clock)
    {work : Store → Store}
    (works : ∀ fires store, (Vhdl.execBody names fires clocked (.start store)).settle = work store)
    (before after : Store) :
    block.react names before after = if ticks clock before after then work after else after := by
  have wakes : block.awaits.any (Vhdl.changed names before after) =
      decide (before.level clock.clock ≠ after.level clock.clock) := by
    simp only [ProcessBlock.awaits, listed, List.any_cons, List.any_nil, Bool.or_false, Vhdl.changed_of_isBit isBit]
  have runs (fires : EdgeTest → Bool) : (Vhdl.execBody names fires block.body (.start after)).settle =
      if fires clock then work after else after := by
    rw [isBody, Vhdl.execBody, Vhdl.execBody, Vhdl.Stmt.exec, Vhdl.execBranches, Vhdl.execBranches,
      holds_of_isEdgeTest isEdge]
    split
    · exact works fires after
    · rfl
  rw [ProcessBlock.react, wakes, runs]
  split
  · rfl
  · rename_i still
    rw [if_neg]
    exact fun occurred => still (decide_eq_true (level_ne_of_occurs occurred))

theorem react_of_withReset (isLevel : condition.IsLevelTest test) (isEdge : edge.IsEdgeTest clock)
    (sensitive : listed.Perm [clock.clock, test.signal]) (isListed : block.sensitivity = .listed listed)
    (isBody : block.body = [.conditional [(condition, resetBody), (edge, clocked)] [] line])
    (clockBit : names.IsBit clock.clock) (resetBit : names.IsBit test.signal) {work resets : Store → Store}
    (works : ∀ fires store, (Vhdl.execBody names fires clocked (.start store)).settle = work store)
    (clears : ∀ fires store, (Vhdl.execBody names fires resetBody (.start store)).settle = resets store)
    (before after : Store) :
    block.react names before after =
      if before.level clock.clock ≠ after.level clock.clock ∨ before.level test.signal ≠ after.level test.signal then
        if after.level test.signal = test.level then resets after
        else if ticks clock before after then work after else after
      else after := by
  have wakes : block.awaits.any (Vhdl.changed names before after) =
      decide (before.level clock.clock ≠ after.level clock.clock ∨
        before.level test.signal ≠ after.level test.signal) := by
    simp only [ProcessBlock.awaits, isListed]
    rw [sensitive.any_eq, List.any_cons, List.any_cons, List.any_nil, Bool.or_false,
      Vhdl.changed_of_isBit clockBit, Vhdl.changed_of_isBit resetBit, Bool.decide_or]
  have runs (fires : EdgeTest → Bool) : (Vhdl.execBody names fires block.body (.start after)).settle =
      if after.level test.signal = test.level then resets after
      else if fires clock then work after else after := by
    rw [isBody, Vhdl.execBody, Vhdl.execBody, Vhdl.Stmt.exec, Vhdl.execBranches, Vhdl.execBranches,
      Vhdl.execBranches, holds_of_isEdgeTest isEdge, holds_of_isLevelTest isLevel resetBit]
    rw [Activity.store_start]
    by_cases active : after.level test.signal = test.level
    · rw [if_pos (decide_eq_true active), if_pos active]
      exact clears fires after
    · rw [if_neg fun true => active (of_decide_eq_true true), if_neg active]
      split
      · exact works fires after
      · rfl
  rw [ProcessBlock.react, wakes, runs]
  simp only [decide_eq_true_eq]
  rfl

theorem react_of_resetBlock (bit : scope.dimension test.signal = none) (before after : Store) :
    Verilog.react scope [(clock.edge, clock.clock), (test.level.edge, test.signal)]
        [.conditional [(levelCondition test, resetting)] (some statements)] before after =
      if ticks clock before after || occurs before after (test.level.edge, test.signal) then
        if after.level test.signal = test.level then (execBody scope resetting (.start after)).settle
        else (execBody scope statements (.start after)).settle
      else after := by
  rw [Verilog.react, List.any_cons, List.any_cons, List.any_nil, Bool.or_false, execBody,
    execBody, Verilog.Stmt.exec, Verilog.execBranches, Verilog.execBranches, truth_of_levelCondition bit]
  rw [Activity.store_start, ticks]
  by_cases active : after.level test.signal = test.level
  · rw [if_pos (decide_eq_true active), if_pos active]
    rfl
  · rw [if_neg fun true => active (of_decide_eq_true true), if_neg active]
    rfl

theorem reset_eq_reset_iff :
    (if ticks clock before after || occurs before after (test.level.edge, test.signal) then
        if after.level test.signal = test.level then cleared else worked
      else after) =
      (if before.level clock.clock ≠ after.level clock.clock ∨ before.level test.signal ≠ after.level test.signal then
        if after.level test.signal = test.level then cleared
        else if ticks clock before after then worked else after
      else after) ↔
      (Lingers clock test before after → cleared = after) := by
  unfold ticks occurs Lingers
  dsimp only
  generalize before.level clock.clock = a, after.level clock.clock = b
  generalize before.level test.signal = c, after.level test.signal = d
  generalize test.level = level, clock.edge = edge
  cases a <;> cases b <;> cases c <;> cases d <;> cases level <;> cases edge <;>
    simp [Vhdl.Edge.level, Level.edge, eq_comm]

end Reactions

/-! ### Resets that always make the same changes -/

section ConstantReset

variable {names : Vhdl.NameTable} {clock : EdgeTest} {test : LevelTest} {resetBody : List Stmt}
  {writes : List String} {changes : List Change}

theorem outcome_shown (inside : ∀ name ∈ (bodyWrites false resetBody).map Prod.fst, name ∈ writes)
    (constant : ∀ store, outcome names resetBody store = applyAll changes store) {moment : Moment}
    (steady : outcome names resetBody moment.now = moment.now) (inputs : Store) :
    outcome names resetBody (moment.shown writes inputs) = moment.shown writes inputs := by
  funext name
  by_cases isWritten : name ∈ writes
  · have kept : moment.shown writes inputs name = moment.now name := if_pos isWritten
    calc outcome names resetBody (moment.shown writes inputs) name
        = applyAll changes (moment.shown writes inputs) name := by rw [constant]
      _ = applyAll changes moment.now name := applyAll_congr changes kept
      _ = moment.now name := by rw [← constant, steady]
      _ = moment.shown writes inputs name := kept.symm
  · exact Vhdl.settle_execBody_of_unwritten (fun member => isWritten (inside name member)) _

theorem along_of_constantReset (active : ∀ before after, after.level test.signal = test.level →
      react before after = after ∨ react before after = outcome names resetBody after)
    (entering : ∀ before after, before.level test.signal ≠ test.level → after.level test.signal = test.level →
      react before after = outcome names resetBody after)
    (inside : ∀ name ∈ (bodyWrites false resetBody).map Prod.fst, name ∈ writes)
    (constant : ∀ store, outcome names resetBody store = applyAll changes store)
    (outside : start.level test.signal ≠ test.level) (steps : List Store) :
    Along react writes (fun before after => Lingers clock test before after →
      outcome names resetBody after = after) ⟨start, start⟩ steps := by
  -- The invariant: once the reset has been seen active, it has been carried out.
  have step (moment : Moment) (inputs : Store)
      (done : moment.seen.level test.signal = test.level → outcome names resetBody moment.now = moment.now) :
      (Lingers clock test moment.seen (moment.shown writes inputs) →
        outcome names resetBody (moment.shown writes inputs) = moment.shown writes inputs) ∧
      ((moment.advance react writes inputs).seen.level test.signal = test.level →
        outcome names resetBody (moment.advance react writes inputs).now =
          (moment.advance react writes inputs).now) := by
    constructor
    · intro lingers
      exact outcome_shown inside constant (done lingers.1) inputs
    · intro isActive
      by_cases wasActive : moment.seen.level test.signal = test.level
      · have steady := outcome_shown inside constant (done wasActive) inputs
        have unchanged : (moment.advance react writes inputs).now = moment.shown writes inputs := by
          obtain same | cleared := active moment.seen _ isActive
          · exact same
          · exact cleared.trans steady
        rw [unchanged, steady]
      · have cleared : (moment.advance react writes inputs).now =
            outcome names resetBody (moment.shown writes inputs) := entering moment.seen _ wasActive isActive
        rw [cleared, constant, constant, applyAll_idempotent]
  exact along_of_invariant step (fun isActive => absurd isActive outside) steps

end ConstantReset

/-! ### Runs -/

/-- How the runs of a process and of its block compare. With an asynchronous reset they agree exactly if the
reset branch changes nothing more whenever the reset lingers, and so they always do from outside the reset if
the branch always makes the same changes. Without one they always agree. -/
def RunsAlike (names : Vhdl.NameTable) (block : ProcessBlock DataType) (clock : EdgeTest) (reset : Vhdl.Reset)
    (react : Store → Store → Store) : Prop :=
  match reset with
  | .async test resetBody =>
    (∀ start steps, run react block.written ⟨start, start⟩ steps =
        run (block.react names) block.written ⟨start, start⟩ steps ↔
      Along (block.react names) block.written (fun before after => Lingers clock test before after →
        outcome names resetBody after = after) ⟨start, start⟩ steps) ∧
    ∀ changes, (∀ store, outcome names resetBody store = applyAll changes store) →
      ∀ start steps, start.level test.signal ≠ test.level →
        run react block.written ⟨start, start⟩ steps = run (block.react names) block.written ⟨start, start⟩ steps
  | _ => ∀ start steps,
      run react block.written ⟨start, start⟩ steps = run (block.react names) block.written ⟨start, start⟩ steps

section Blocks

variable {context : Context} {scope : Scope} {block : ProcessBlock DataType} {clock : EdgeTest}
  {clocked : List Stmt} {line : Nat} (free : Unshadowed context (bodyWrites false block.body))
  (clockedKeeps : bodyAll (KeepsMeaning context scope) clocked)

include free clockedKeeps

theorem runsAlike_of_clocked (isEdge : condition.IsEdgeTest clock) (notAsync : ∀ test body, reset ≠ .async test body)
    (listed : block.sensitivity = .listed [clock.clock])
    (isBody : block.body = [.conditional [(condition, clocked)] [] line]) (isBit : context.names.IsBit clock.clock) :
    ∃ statements, (always context block (.sequential clock reset clocked)).result =
        .ok (.always (.edges context.profile.clockedKeyword [(clock.edge, clock.clock)]) block.label statements) ∧
      RunsAlike context.names block clock reset (Verilog.react scope [(clock.edge, clock.clock)] statements) := by
  have inside : Unshadowed context (bodyWrites false clocked) := by
    intro write isWrite
    apply free
    simp only [isBody, bodyWrites, Vhdl.Stmt.writes, Vhdl.branchWrites, List.append_nil]
    exact isWrite
  obtain ⟨statements, statementsOk, works⟩ := body_of_keepsMeaning clockedKeeps inside
  have alike : Verilog.react scope [(clock.edge, clock.clock)] statements = block.react context.names := by
    funext before after
    rw [react_of_clocked isEdge listed isBody isBit
      (fun fires store => congrArg Activity.settle (works fires (.start store)).symm)]
    rw [Verilog.react, List.any_cons, List.any_nil, Bool.or_false]
    rfl
  refine ⟨statements, ?_, ?_⟩
  · cases reset with
    | async test body => exact absurd rfl (notAsync test body)
    | _ =>
      simp only [always, Traced.result_bind]
      exact bind_eq_ok.mpr ⟨statements, statementsOk, rfl⟩
  · rw [alike]
    cases reset with
    | async test body => exact absurd rfl (notAsync test body)
    | _ => exact fun start steps => rfl

theorem runsAlike_of_withReset (isLevel : condition.IsLevelTest test) (isEdge : edge.IsEdgeTest clock)
    (sensitive : listed.Perm [clock.clock, test.signal]) (isListed : block.sensitivity = .listed listed)
    (isBody : block.body = [.conditional [(condition, resetBody), (edge, clocked)] [] line])
    (clockBit : context.names.IsBit clock.clock) (resetBit : context.names.IsBit test.signal)
    (bit : scope.dimension test.signal = none) (resetKeeps : bodyAll (KeepsMeaning context scope) resetBody) :
    ∃ statements, (always context block (.sequential clock (.async test resetBody) clocked)).result =
        .ok (.always (.edges context.profile.clockedKeyword
          [(clock.edge, clock.clock), (test.level.edge, test.signal)]) block.label statements) ∧
      RunsAlike context.names block clock (.async test resetBody)
        (Verilog.react scope [(clock.edge, clock.clock), (test.level.edge, test.signal)] statements) := by
  have writes : bodyWrites false block.body = bodyWrites false resetBody ++ bodyWrites false clocked := by
    simp [isBody, bodyWrites, Vhdl.Stmt.writes, Vhdl.branchWrites]
  rw [writes] at free
  obtain ⟨resetting, resettingOk, clears⟩ := body_of_keepsMeaning resetKeeps
    fun write isWrite => free write (List.mem_append_left _ isWrite)
  obtain ⟨statements, statementsOk, works⟩ := body_of_keepsMeaning clockedKeeps
    fun write isWrite => free write (List.mem_append_right _ isWrite)
  have clearsAnyway (fires : EdgeTest → Bool) (store : Store) :
      (Vhdl.execBody context.names fires resetBody (.start store)).settle = outcome context.names resetBody store := by
    rw [outcome, ← clears fires, ← clears fun _ => false]
  have process := react_of_withReset isLevel isEdge sensitive isListed isBody clockBit resetBit
    (fun fires store => congrArg Activity.settle (works fires (.start store)).symm) clearsAnyway
  refine ⟨[.conditional [(levelCondition test, resetting)] (some statements)], ?_, ?_⟩
  · simp only [always, Traced.result_bind]
    refine bind_eq_ok.mpr ⟨resetting, resettingOk, bind_eq_ok.mpr ⟨statements, statementsOk, ?_⟩⟩
    rcases test with ⟨signal, level⟩
    cases level <;> rfl
  have alike (before after : Store) :
      Verilog.react scope [(clock.edge, clock.clock), (test.level.edge, test.signal)]
          [.conditional [(levelCondition test, resetting)] (some statements)] before after =
        block.react context.names before after ↔
      (Lingers clock test before after → outcome context.names resetBody after = after) := by
    rw [process, react_of_resetBlock bit, clears fun _ => false]
    exact reset_eq_reset_iff
  refine ⟨fun start steps => run_eq_run_iff alike _ _ steps, fun changes constant start steps outside => ?_⟩
  refine (run_eq_run_iff alike _ _ steps).mpr (along_of_constantReset ?_ ?_ ?_ constant outside steps)
  · intro before after active
    rw [process, if_pos active]
    split
    · exact .inr rfl
    · exact .inl rfl
  · intro before after inactive active
    rw [process, if_pos (.inr fun same => inactive (same.trans active)), if_pos active]
  · intro name member
    rw [ProcessBlock.written, writes, List.map_append]
    exact List.mem_append_left _ member

end Blocks

/-- A clocked process is written as an always block that leaves the same store after every step, whatever the
start and the inputs, if its statements keep their meaning; an asynchronous reset may linger only where its
branch has nothing more to change. -/
theorem runsAlike_of_sequential (dialect : Dialect) {design : Vhdl.Design} {strict : Bool}
    {resolved : Vhdl.Resolved} {module : Verilog.Module} {scope : Scope}
    (isResolved : (Vhdl.resolve design strict).result = .ok resolved)
    (isWritten : (moduleOf dialect.profile resolved).result = .ok module) (follows : scope.Follows module)
    {block : ProcessBlock DataType} {clock : EdgeTest} {reset : Vhdl.Reset} {clocked : List Stmt}
    (isProcess : .process block (.sequential clock reset clocked) ∈ resolved.statements)
    (twoValued : ∀ name ∈ block.awaits, resolved.names.IsBit name)
    (keeps : (Vhdl.ProcessKind.sequential clock reset clocked).All
      (KeepsMeaning (Context.of dialect.profile resolved) scope)) :
    ∃ keyword events statements,
      (always (Context.of dialect.profile resolved) block (.sequential clock reset clocked)).result =
        .ok (.always (.edges keyword events) block.label statements) ∧
      .always (.edges keyword events) block.label statements ∈ module.items ∧
      RunsAlike resolved.names block clock reset (Verilog.react scope events statements) := by
  have resolves := Vhdl.resolve_resolves isResolved
  have holds := moduleOf_holds isWritten
  have free := unshadowed_of_sequential isResolved dialect.profile isProcess
  obtain ⟨_, classified⟩ := resolves.classified isProcess
  obtain ⟨item, inModule, isItem⟩ := leading_of_mem isResolved isWritten isProcess
  suffices alwaysAlike : ∃ keyword events statements,
      (always (Context.of dialect.profile resolved) block (.sequential clock reset clocked)).result =
        .ok (.always (.edges keyword events) block.label statements) ∧
      RunsAlike resolved.names block clock reset (Verilog.react scope events statements) by
    obtain ⟨keyword, events, statements, written, alike⟩ := alwaysAlike
    rw [leading, written] at isItem
    cases isItem
    exact ⟨keyword, events, statements, written, inModule, alike⟩
  change Vhdl.HasKind _ block.sensitivity block.body _ at classified
  generalize listed : block.sensitivity = sensitivity, isBody : block.body = source at classified
  cases classified with
  | clocked single isEdge hasReset =>
    have notAsync : ∀ test body, reset ≠ .async test body := by cases hasReset <;> rintro _ _ ⟨⟩
    have clockBit := twoValued clock.clock (by simp [ProcessBlock.awaits, listed])
    exact ⟨_, _, runsAlike_of_clocked free keeps.2 isEdge notAsync listed isBody clockBit⟩
  | @withReset names _ _ _ _ _ _ test single isLevel isEdge differ sensitive =>
    have inList (name : String) (member : name ∈ [clock.clock, test.signal]) : resolved.names.IsBit name := by
      apply twoValued
      rw [ProcessBlock.awaits, listed]
      exact sensitive.mem_iff.mpr member
    have resetBit := inList test.signal (by simp)
    have bit : scope.dimension test.signal = none := by
      obtain ⟨role, isFound, isObject⟩ := resetBit
      refine dimension_of_declared resolves holds follows isFound ?_
      rcases isObject with rfl | rfl <;> trivial
    exact ⟨_, _, runsAlike_of_withReset free keeps.2 isLevel isEdge sensitive listed isBody
      (inList clock.clock (by simp)) resetBit bit keeps.1⟩

/-- A design with inputs `clk`, `rst` and `d` of one bit and `a` and `b` of two, an output `q` of one bit, and a
single process. -/
def sampleDesign (block : ProcessBlock DataType) : Vhdl.Design where
  entity := ⟨"sample", [⟨"clk", .input, .bit, 1⟩, ⟨"rst", .input, .bit, 1⟩, ⟨"d", .input, .bit, 1⟩,
    ⟨"a", .input, .vector ⟨1, 0, false, Int.one_nonneg⟩, 1⟩,
    ⟨"b", .input, .vector ⟨1, 0, false, Int.one_nonneg⟩, 1⟩,
    ⟨"q", .output, .bit, 1⟩], 1⟩
  architecture := some ⟨"rtl", "sample", [], [], [], [.process block], 1⟩

theorem scopeOf_follows_sampleDesign (block : ProcessBlock DataType) (noVars : block.vars = [])
    (isResolved : (resolve (sampleDesign block) false).result = .ok resolved)
    (isWritten : (moduleOf Dialect.strict.profile resolved).result = .ok module) (bare : module.items.all isBare = true)
    : (scopeOf resolved.names).Follows module := by
  have resolves := Vhdl.resolve_resolves isResolved
  have table : resolved.names = Table.ofList
      ((sampleDesign block).entity.ports.map fun port => (port.name, ⟨.port, some port.type⟩)) := by
    rw [resolves.sameNames]
    simp [Vhdl.names, sampleDesign, Vhdl.Architecture.processes, Vhdl.Concurrent.process?, noVars]
  refine scopeOf_follows .strict isWritten bare ?_
  intro port member
  rw [resolves.sameDesign] at member
  rw [table]
  simp only [sampleDesign, List.mem_cons, List.not_mem_nil, or_false] at member
  obtain rfl | rfl | rfl | rfl | rfl | rfl := member <;> exact ⟨rfl, by rintro _ ⟨⟩⟩

def sampleClears : Stmt := .assign ⟨"q", .whole, 2⟩ (.literal (.bit "0") 2) false 2

def sampleFollows : Stmt := .assign ⟨"q", .whole, 4⟩ (.name "d" 4) false 4

def sampleBlock : ProcessBlock DataType := ⟨none, .listed ["rst", "clk"], [], Vhdl.sampleRegister, 1⟩

def sampleBlockResolved : Vhdl.Resolved :=
  ⟨sampleDesign sampleBlock, Vhdl.names (sampleDesign sampleBlock),
    [.process sampleBlock (.sequential ⟨"clk", .rising⟩ (.async ⟨"rst", .high⟩ [sampleClears]) [sampleFollows])],
    ⟨[("q", ⟨.sequential, 2⟩)]⟩, .none⟩

theorem resolve_sampleBlock : (resolve (sampleDesign sampleBlock) false).result = .ok sampleBlockResolved := rfl

theorem keepsMeaning_sampleBlock :
    (Vhdl.ProcessKind.sequential ⟨"clk", .rising⟩ (.async ⟨"rst", .high⟩ [sampleClears]) [sampleFollows]).All
      (KeepsMeaning (Context.of Dialect.strict.profile sampleBlockResolved) (scopeOf sampleBlockResolved.names)) := by
  have output : sampleBlockResolved.names.type? "q" = some .bit := rfl
  have input : sampleBlockResolved.names.type? "d" = some .bit := rfl
  have clears : KeepsMeaning (Context.of Dialect.strict.profile sampleBlockResolved)
      (scopeOf sampleBlockResolved.names) sampleClears :=
    ⟨_, _, rfl, rfl, fun store => change_of_whole output rfl rfl 2⟩
  have follows : KeepsMeaning (Context.of Dialect.strict.profile sampleBlockResolved)
      (scopeOf sampleBlockResolved.names) sampleFollows :=
    ⟨_, _, rfl, rfl, fun store => change_of_whole output rfl (bits_of_name input rfl (le_max_right _ _) _ _).1 4⟩
  exact ⟨⟨clears, trivial⟩, follows, trivial⟩

theorem runs_sampleBlock :
    ∃ module keyword events statements,
      (moduleOf Dialect.strict.profile sampleBlockResolved).result = .ok module ∧
      (scopeOf sampleBlockResolved.names).Follows module ∧
      .always (.edges keyword events) none statements ∈ module.items ∧
      ∀ start steps, start.level "rst" ≠ .high →
        run (Verilog.react (scopeOf sampleBlockResolved.names) events statements) sampleBlock.written
            ⟨start, start⟩ steps =
          run (sampleBlock.react sampleBlockResolved.names) sampleBlock.written ⟨start, start⟩ steps := by
  obtain ⟨module, isWritten, bare⟩ : ∃ module,
      (moduleOf Dialect.strict.profile sampleBlockResolved).result = .ok module ∧
        module.items.all isBare = true := ⟨_, rfl, rfl⟩
  have follows := scopeOf_follows_sampleDesign sampleBlock rfl resolve_sampleBlock isWritten bare
  have isProcess : .process sampleBlock
      (.sequential ⟨"clk", .rising⟩ (.async ⟨"rst", .high⟩ [sampleClears]) [sampleFollows]) ∈
        sampleBlockResolved.statements := List.mem_singleton.mpr rfl
  have twoValued : ∀ name ∈ sampleBlock.awaits, sampleBlockResolved.names.IsBit name := by
    intro name member
    have listed : name ∈ ["rst", "clk"] := member
    simp only [List.mem_cons, List.not_mem_nil, or_false] at listed
    obtain rfl | rfl := listed <;> exact ⟨.port, rfl, .inl rfl⟩
  obtain ⟨keyword, events, statements, _, inModule, _, alike⟩ :=
    runsAlike_of_sequential .strict resolve_sampleBlock isWritten follows isProcess twoValued
      keepsMeaning_sampleBlock
  exact ⟨module, keyword, events, statements, isWritten, follows, inModule, alike [⟨"q", 0, 1, 0⟩] fun store => rfl⟩

/-- After one step, the process of a design has left one value in `q` and its block another. -/
def PartsWith (block : ProcessBlock DataType) (start inputs : Store) (processValue blockValue : Nat) : Prop :=
  ∃ resolved module kind keyword events statements,
    (resolve (sampleDesign block) false).result = .ok resolved ∧
    (moduleOf Dialect.strict.profile resolved).result = .ok module ∧
    (scopeOf resolved.names).Follows module ∧
    .process block kind ∈ resolved.statements ∧ kind.isSequential = true ∧
    (always (Context.of Dialect.strict.profile resolved) block kind).result =
      .ok (.always (.edges keyword events) none statements) ∧
    (run (block.react resolved.names) block.written ⟨start, start⟩ [inputs]).map (· "q") = [processValue] ∧
    (run (Verilog.react (scopeOf resolved.names) events statements) block.written ⟨start, start⟩ [inputs]).map
      (· "q") = [blockValue]

/-- While `rst` is high `q` follows `d`; at the rising edges of `clk` it is cleared. -/
def sampleLoad : ProcessBlock DataType where
  label := none
  sensitivity := .listed ["clk", "rst"]
  vars := []
  body := [.conditional [(.binary .eq (.name "rst" 1) (.literal (.bit "1") 1) 1, [sampleFollows]),
    (.call "rising_edge" [.name "clk" 3] 3, [sampleClears])] [] 1]
  line := 1

/-- At the rising edges of `clk`, `q` becomes whether `a + b > 3`, which two bits never are. -/
def sampleCarry : ProcessBlock DataType where
  label := none
  sensitivity := .listed ["clk"]
  vars := []
  body := [.conditional [(.call "rising_edge" [.name "clk" 1] 1,
    [.conditional [(.binary .gt (.binary .add (.name "a" 2) (.name "b" 2) 2) (.literal (.decimal "3") 2) 2,
      [.assign ⟨"q", .whole, 3⟩ (.literal (.bit "1") 3) false 3])] [sampleClears] 2])] [] 1]
  line := 1

/-- A reset that loads a value goes on loading it in the process when the clock falls, and not in the block;
and a carry that the process drops counts in the block. -/
theorem blocks_part_from_processes :
    PartsWith sampleLoad (fun name => if name = "q" then 0 else 1)
        (fun name => if name = "clk" then 0 else 1) 1 0 ∧
      PartsWith sampleCarry (fun _ => 0) (fun name => if name = "a" then 3 else 1) 0 1 := by
  constructor
  · refine ⟨_, _, _, _, _, _, rfl, rfl, scopeOf_follows_sampleDesign sampleLoad rfl rfl rfl rfl,
      List.mem_singleton.mpr rfl, rfl, rfl, ?_, ?_⟩
    · decide
    · decide
  · refine ⟨_, _, _, _, _, _, rfl, rfl, scopeOf_follows_sampleDesign sampleCarry rfl rfl rfl rfl,
      List.mem_singleton.mpr rfl, rfl, rfl, ?_, ?_⟩
    · decide
    · decide

end Emission

end RtlBridge

import Mathlib.Algebra.Group.Nat.Defs
import RtlBridge.Vhdl.Builtin

/-! Running processes. A store holds the bits of every name. A process makes some changes at once and leaves
others for when it is done, and from step to step it reacts to what has changed since it looked last. -/

namespace RtlBridge

abbrev Store := String → Nat

/-- New bits for a name, from a place on. -/
structure Change where
  name : String
  low : Int
  width : Nat
  value : Nat
deriving Repr, DecidableEq

namespace Change

def replaced (change : Change) (old : Nat) : Nat :=
  let place := change.low.toNat
  2 ^ place * (2 ^ change.width * (old / 2 ^ (place + change.width)) + change.value % 2 ^ change.width) +
    old % 2 ^ place

/-- A store after a change. A place below the last bit is none, and nothing happens there. -/
def apply (change : Change) (store : Store) : Store := fun name =>
  if name = change.name ∧ 0 ≤ change.low then change.replaced (store name) else store name

theorem testBit_replaced (change : Change) (old index : Nat) :
    (change.replaced old).testBit index =
      if change.low.toNat ≤ index ∧ index < change.low.toNat + change.width then
        change.value.testBit (index - change.low.toNat)
      else old.testBit index := by
  rw [replaced, Nat.testBit_two_pow_mul_add _ (Nat.mod_lt _ (Nat.two_pow_pos _))]
  split
  · rename_i below
    rw [if_neg (by omega), Nat.testBit_mod_two_pow]
    simp [below]
  · rename_i above
    rw [Nat.testBit_two_pow_mul_add _ (Nat.mod_lt _ (Nat.two_pow_pos _)), Nat.testBit_mod_two_pow,
      Nat.testBit_div_two_pow]
    split
    · rename_i inside
      rw [if_pos (by omega)]
      simp [inside]
    · rename_i beyond
      rw [if_neg (by omega)]
      congr 1
      omega

end Change

def applyAll (changes : List Change) (store : Store) : Store :=
  changes.foldl (fun store change => change.apply store) store

theorem applyAll_congr (changes : List Change) (same : first name = second name)
    : applyAll changes first name = applyAll changes second name := by
  induction changes generalizing first second with
  | nil => exact same
  | cons change rest ih =>
    apply ih
    simp only [Change.apply, same]

theorem testBit_applyAll (changes : List Change) (name : String) (index : Nat) :
    (∃ bit, ∀ store, (applyAll changes store name).testBit index = bit) ∨
      ∀ store, (applyAll changes store name).testBit index = (store name).testBit index := by
  induction changes with
  | nil => exact .inr fun _ => rfl
  | cons change rest ih =>
    obtain ⟨bit, fixed⟩ | kept := ih
    · exact .inl ⟨bit, fun store => fixed (change.apply store)⟩
    · have step (store : Store) : (applyAll (change :: rest) store name).testBit index =
          (change.apply store name).testBit index := kept (change.apply store)
      simp only [step, Change.apply]
      split
      · simp only [Change.testBit_replaced]
        split
        · exact .inl ⟨_, fun _ => rfl⟩
        · exact .inr fun _ => rfl
      · exact .inr fun _ => rfl

theorem applyAll_idempotent (changes : List Change) (store : Store) :
    applyAll changes (applyAll changes store) = applyAll changes store := by
  funext name
  apply Nat.eq_of_testBit_eq
  intro index
  obtain ⟨bit, fixed⟩ | kept := testBit_applyAll changes name index
  · rw [fixed, fixed]
  · rw [kept]

/-- A process at work: the store as it has it, and the changes that wait for its end. -/
structure Activity where
  store : Store
  waiting : List Change

namespace Activity

def start (store : Store) : Activity := ⟨store, []⟩

@[simp] theorem store_start (store : Store) : (start store).store = store := rfl

def assign (activity : Activity) (immediate : Bool) (change : Change) : Activity :=
  if immediate then { activity with store := change.apply activity.store }
  else { activity with waiting := activity.waiting ++ [change] }

def settle (activity : Activity) : Store := applyAll activity.waiting activity.store

theorem settle_assign (activity : Activity) (immediate : Bool) (other : change.name ≠ name) :
    (activity.assign immediate change).settle name = activity.settle name := by
  have skipped (store : Store) : change.apply store name = store name := if_neg fun same => other same.1.symm
  cases immediate with
  | true => exact applyAll_congr _ (skipped _)
  | false =>
    rw [assign, if_neg Bool.false_ne_true, settle, applyAll, List.foldl_append]
    exact skipped _

end Activity

/-! ### Writes in order -/

/-- An assignment as it is made: at once or when the work is done, and what it changes. -/
structure Write where
  immediate : Bool
  change : Change
deriving Repr, DecidableEq

/-- The store in the midst of the work, once some writes are made. -/
def Store.after (store : Store) (writes : List Write) : Store :=
  writes.foldl (fun store write => if write.immediate then write.change.apply store else store) store

def Activity.makeAll (activity : Activity) (writes : List Write) : Activity :=
  writes.foldl (fun activity write => activity.assign write.immediate write.change) activity

theorem Activity.makeAll_append (activity : Activity) (writes others : List Write) :
    activity.makeAll (writes ++ others) = (activity.makeAll writes).makeAll others := List.foldl_append

theorem Activity.store_makeAll (activity : Activity) (writes : List Write) :
    (activity.makeAll writes).store = activity.store.after writes := by
  induction writes generalizing activity with
  | nil => rfl
  | cons write rest ih =>
    have step : (activity.assign write.immediate write.change).store =
        if write.immediate then write.change.apply activity.store else activity.store := by
      rw [assign]
      split <;> rfl
    rw [makeAll, List.foldl_cons, ← makeAll, ih, step]
    rfl

theorem Activity.settle_makeAll_of_name_ne (activity : Activity) (others : ∀ write ∈ writes, write.change.name ≠ name) :
    (activity.makeAll writes).settle name = activity.settle name := by
  induction writes generalizing activity with
  | nil => rfl
  | cons write rest ih =>
    obtain ⟨here, later⟩ := List.forall_mem_cons.mp others
    exact (ih _ later).trans (activity.settle_assign write.immediate here)

/-! ### Steps -/

def Vhdl.Edge.level : Vhdl.Edge → Vhdl.Level
  | .rising => .high
  | .falling => .low

def Store.level (store : Store) (name : String) : Vhdl.Level := if store name % 2 = 1 then .high else .low

/-- Whether a name comes to the level of an edge from one store to the next. -/
def occurs (before after : Store) (event : Vhdl.Edge × String) : Bool :=
  before.level event.2 ≠ event.1.level && after.level event.2 = event.1.level

/-- A process between two steps: the store that it saw last, and the store as it has left it. -/
structure Moment where
  seen : Store
  now : Store

namespace Moment

/-- What a process sees in a step: all names but those that it writes take new values. -/
def shown (moment : Moment) (writes : List String) (inputs : Store) : Store := fun name =>
  if name ∈ writes then moment.now name else inputs name

def advance (react : Store → Store → Store) (writes : List String) (moment : Moment) (inputs : Store) : Moment :=
  ⟨moment.shown writes inputs, react moment.seen (moment.shown writes inputs)⟩

end Moment

def run (react : Store → Store → Store) (writes : List String) : Moment → List Store → List Store
  | _, [] => []
  | moment, inputs :: rest =>
    (moment.advance react writes inputs).now :: run react writes (moment.advance react writes inputs) rest

/-- Whether a property holds of the stores that a process reacts to, in every step of a run. -/
def Along (react : Store → Store → Store) (writes : List String) (property : Store → Store → Prop) :
    Moment → List Store → Prop
  | _, [] => True
  | moment, inputs :: rest =>
    property moment.seen (moment.shown writes inputs) ∧
      Along react writes property (moment.advance react writes inputs) rest

theorem run_eq_run_iff (alike : ∀ before after, first before after = second before after ↔ agree before after)
    (writes : List String) (moment : Moment) (steps : List Store) :
    run first writes moment steps = run second writes moment steps ↔ Along second writes agree moment steps := by
  induction steps generalizing moment with
  | nil => exact ⟨fun _ => trivial, fun _ => rfl⟩
  | cons inputs rest ih =>
    rw [run, run, Along, List.cons.injEq, ← alike]
    refine and_congr_right fun same => ?_
    have next : moment.advance first writes inputs = moment.advance second writes inputs := by
      simp only [Moment.advance, Moment.mk.injEq, true_and]
      exact same
    rw [next]
    exact ih _

theorem along_of_invariant {invariant : Moment → Prop}
    (step : ∀ moment inputs, invariant moment → property moment.seen (moment.shown writes inputs) ∧
      invariant (moment.advance react writes inputs)) (holds : invariant moment) (steps : List Store) :
    Along react writes property moment steps := by
  induction steps generalizing moment with
  | nil => trivial
  | cons inputs rest ih => exact ⟨(step moment inputs holds).1, ih (step moment inputs holds).2⟩

end RtlBridge

import Mathlib.Data.List.Forall2
import RtlBridge.Traced

/-! Sequences of steps: what they come to when they end well, and what they ensure from a state. -/

namespace RtlBridge

theorem eq_flatMap {α β : Type} {all : List α → List β} {each : α → List β} (nil : all [] = [])
    (cons : ∀ first rest, all (first :: rest) = each first ++ all rest) (list : List α) :
    all list = list.flatMap each := by
  induction list with
  | nil => exact nil
  | cons first rest ih => rw [cons, ih, List.flatMap_cons]

theorem eq_map {α β : Type} {all : List α → List β} {each : α → β} (nil : all [] = [])
    (cons : ∀ first rest, all (first :: rest) = each first :: all rest) (list : List α) : all list = list.map each := by
  induction list with
  | nil => exact nil
  | cons first rest ih => rw [cons, ih, List.map_cons]

theorem eq_map_find? {α β : Type} {chosen : List α → Option β} {test : α → Bool} {result : α → β}
    (nil : chosen [] = none)
    (cons : ∀ first rest, chosen (first :: rest) = if test first then some (result first) else chosen rest)
    (list : List α) : chosen list = (list.find? test).map result := by
  induction list with
  | nil => exact nil
  | cons first rest ih =>
    rw [cons, List.find?_cons, ih]
    cases test first <;> rfl

theorem mem_flatMap_append {α β : Type} {list : List α} {first second : α → List β} {result : β} :
    (result ∈ list.flatMap fun element => first element ++ second element) ↔
      result ∈ list.flatMap first ∨ result ∈ list.flatMap second := by
  simp only [List.mem_flatMap, List.mem_append, and_or_left, exists_or]

theorem source_of_mem {α β : Type} {relation : α → β → Prop} {sources : List α} {results : List β}
    (related : List.Forall₂ relation sources results) {result : β} (member : result ∈ results) :
    ∃ source ∈ sources, relation source result := by
  induction related with
  | nil => cases member
  | cons here _ ih =>
    rcases List.mem_cons.mp member with rfl | later
    · exact ⟨_, List.mem_cons_self .., here⟩
    · obtain ⟨source, inside, holds⟩ := ih later
      exact ⟨source, List.mem_cons_of_mem _ inside, holds⟩

theorem result_of_mem {α β : Type} {relation : α → β → Prop} {sources : List α} {results : List β}
    (related : List.Forall₂ relation sources results) {source : α} (member : source ∈ sources) :
    ∃ result ∈ results, relation source result := source_of_mem related.flip member

section Except

variable {ε α β : Type}

theorem toOption_eq_some {result : Except ε α} : result.toOption = some value ↔ result = .ok value := by
  cases result <;> simp [Except.toOption]

/-- What a step comes to is found out by running it. -/
instance decidableExistsOk (step : Except ε α) (holds : α → Prop) [DecidablePred holds] :
    Decidable (∃ value, step = .ok value ∧ holds value) :=
  decidable_of_iff (∃ value ∈ step.toOption, holds value) (by simp only [Option.mem_def, toOption_eq_some])

theorem bind_eq_ok {next : α → Except ε β} :
    first >>= next = .ok result ↔ ∃ value, first = .ok value ∧ next value = .ok result := by
  cases first <;> simp [bind, Except.bind]

theorem mapError_eq_ok {ε' : Type} {rename : ε → ε'} {step : Except ε α} :
    step.mapError rename = .ok value ↔ step = .ok value := by cases step <;> simp [Except.mapError]

theorem mapM_eq_ok_iff {step : α → Except ε β} :
    inputs.mapM step = .ok outputs ↔ List.Forall₂ (fun input output => step input = .ok output) inputs outputs := by
  induction inputs generalizing outputs with
  | nil => simp [pure, Except.pure, eq_comm]
  | cons first rest ih =>
    simp only [List.mapM_cons, bind_eq_ok, List.forall₂_cons_left_iff]
    constructor
    · rintro ⟨value, firstOk, others, restOk, ⟨⟩⟩
      exact ⟨value, others, firstOk, ih.mp restOk, rfl⟩
    · rintro ⟨value, others, firstOk, restOk, rfl⟩
      exact ⟨value, firstOk, others, ih.mpr restOk, rfl⟩

theorem eq_mapM {all : List α → Except ε (List β)} {each : α → Except ε β} (nil : all [] = .ok [])
    (cons : ∀ first rest, all (first :: rest) = do return (← each first) :: (← all rest)) (list : List α) :
    all list = list.mapM each := by
  induction list with
  | nil => exact nil
  | cons first rest ih => rw [cons, ih, List.mapM_cons]

theorem pair_eq_ok {first : Except ε α} {second : Except ε β} (ok : (do return (← first, ← second)) = Except.ok pair) :
    first = .ok pair.1 ∧ second = .ok pair.2 := by
  obtain ⟨one, firstOk, ok⟩ := bind_eq_ok.mp ok
  obtain ⟨other, secondOk, ok⟩ := bind_eq_ok.mp ok
  cases ok
  exact ⟨firstOk, secondOk⟩

theorem mapM_eq_ok {step : α → Except ε β} {inputs : List α} (ok : inputs.mapM step = .ok outputs) :
    (∀ input ∈ inputs, ∃ output ∈ outputs, step input = .ok output) ∧
      ∀ output ∈ outputs, ∃ input ∈ inputs, step input = .ok output :=
  ⟨fun _ => result_of_mem (mapM_eq_ok_iff.mp ok), fun _ => source_of_mem (mapM_eq_ok_iff.mp ok)⟩

theorem Traced.result_mapM (step : α → Traced ε β) (inputs : List α) :
    (inputs.mapM step).result = inputs.mapM fun input => (step input).result := by
  induction inputs with
  | nil => rfl
  | cons first rest ih =>
    simp only [List.mapM_cons, Traced.result_bind, ih]
    rfl

/-- A step comes to a result that holds, or fails for an allowed cause. -/
def ComesTo (holds : α → Prop) (allowed : ε → Prop) : Except ε α → Prop
  | .ok value => holds value
  | .error fault => allowed fault

namespace ComesTo

variable {holds : α → Prop} {allowed : ε → Prop}

theorem of_ok (comesTo : ComesTo holds allowed step) (ok : step = .ok value) : holds value := by
  rw [ok] at comesTo
  exact comesTo

theorem of_error (comesTo : ComesTo holds allowed step) (failed : step = .error fault) : allowed fault := by
  rw [failed] at comesTo
  exact comesTo

theorem imp (comesTo : ComesTo holds allowed step) (ifOk : ∀ value, holds value → holds' value)
    (ifError : ∀ fault, allowed fault → allowed' fault) : ComesTo holds' allowed' step := by
  cases step with
  | ok value => exact ifOk value comesTo
  | error fault => exact ifError fault comesTo

theorem bind {next : α → Except ε β} (start : ComesTo holds allowed first)
    (goesOn : ∀ value, holds value → ComesTo after allowed (next value)) : ComesTo after allowed (first >>= next) := by
  cases first with
  | ok value => exact goesOn value start
  | error fault => exact start

theorem bindResult {next : α → Traced ε β} (start : ComesTo holds allowed first.result)
    (goesOn : ∀ value, holds value → ComesTo after allowed (next value).result) :
    ComesTo after allowed (first >>= next).result := by
  rw [Traced.result_bind]
  exact bind start goesOn

theorem mapM {inputs : List β} (each : ∀ input ∈ inputs, ComesTo holds allowed (step input)) :
    ComesTo (fun outputs => ∀ output ∈ outputs, holds output) allowed (inputs.mapM step) := by
  induction inputs with
  | nil => exact nofun
  | cons first rest ih =>
    obtain ⟨here, later⟩ := List.forall_mem_cons.mp each
    rw [List.mapM_cons]
    apply bind here
    intro value isValue
    apply bind (ih later)
    intro others areOthers
    exact List.forall_mem_cons.mpr ⟨isValue, areOthers⟩

theorem tryCatch (start : ComesTo holds middle step.result)
    (handles : ∀ fault, middle fault → ComesTo holds allowed (handler fault).result) :
    ComesTo holds allowed (MonadExceptOf.tryCatch step handler : Traced ε α).result := by
  simp only [MonadExceptOf.tryCatch]
  cases is : step.result with
  | ok value =>
    rw [is] at start
    simp only [is]
    exact start
  | error fault =>
    rw [is] at start
    exact handles fault start

end ComesTo

def FailsOnly (allowed : ε → Prop) (step : Except ε α) : Prop := ∀ fault, step = .error fault → allowed fault

namespace FailsOnly

variable {allowed : ε → Prop}

theorem ok {value : α} : FailsOnly allowed (.ok value) := nofun

theorem error (isAllowed : allowed fault) : FailsOnly allowed (.error fault : Except ε α) := by
  rintro _ ⟨⟩
  exact isAllowed

theorem mono {step : Except ε α} (holds : FailsOnly allowed step) (implies : ∀ fault, allowed fault → weaker fault)
    : FailsOnly weaker step := fun fault failed => implies fault (holds fault failed)

theorem comesTo {step : Except ε α} (holds : FailsOnly allowed step) : ComesTo (fun _ => True) allowed step := by
  cases step with
  | ok value => trivial
  | error fault => exact holds fault rfl

theorem of_comesTo {step : Except ε α} (comesTo : ComesTo holds allowed step) : FailsOnly allowed step :=
  fun _ failed => comesTo.of_error failed

theorem bind {next : α → Except ε β} (start : FailsOnly allowed first)
    (goesOn : ∀ value, FailsOnly allowed (next value)) : FailsOnly allowed (first >>= next) :=
  of_comesTo (start.comesTo.bind fun value _ => (goesOn value).comesTo)

theorem mapM {step : α → Except ε β} {inputs : List α}
    (each : ∀ input ∈ inputs, FailsOnly allowed (step input)) : FailsOnly allowed (inputs.mapM step) :=
  of_comesTo (.mapM fun input member => (each input member).comesTo)

theorem mapError {ε' : Type} {allowed' : ε' → Prop} {rename : ε → ε'} {step : Except ε α}
    (holds : FailsOnly allowed step) (renames : ∀ fault, allowed fault → allowed' (rename fault)) :
    FailsOnly allowed' (step.mapError rename) := by
  cases step with
  | ok value => exact ok
  | error fault => exact error (renames fault (holds fault rfl))

theorem bindResult {next : α → Traced ε β} (start : FailsOnly allowed first.result)
    (goesOn : ∀ value, FailsOnly allowed (next value).result) : FailsOnly allowed (first >>= next).result := by
  rw [Traced.result_bind]
  exact bind start goesOn

theorem tryCatch (start : FailsOnly middle step.result)
    (handles : ∀ fault, middle fault → FailsOnly allowed (handler fault).result) :
    FailsOnly allowed (MonadExceptOf.tryCatch step handler : Traced ε α).result :=
  of_comesTo (start.comesTo.tryCatch fun fault isMiddle => (handles fault isMiddle).comesTo)

end FailsOnly

theorem ComesTo.of_failsOnly {holds : α → Prop} {allowed : ε → Prop} (failsOnly : FailsOnly allowed step)
    (ifOk : ∀ value, step = .ok value → holds value) : ComesTo holds allowed step := by
  cases step with
  | ok value => exact ifOk value rfl
  | error fault => exact failsOnly fault rfl

end Except

section Stateful

variable {σ ε α β : Type}

theorem result_bind_apply (work : StateT σ (Traced ε) α) (next : α → StateT σ (Traced ε) β) (state : σ) :
    ((work >>= next) state).result = (work state).result >>= fun (value, after) => (next value after).result := by
  rw [← Traced.result_bind]
  rfl

theorem bind_apply_eq_ok {next : α → StateT σ (Traced ε) β} : ((work >>= next) state).result = .ok (result, after) ↔
      ∃ value middle, (work state).result = .ok (value, middle) ∧ (next value middle).result = .ok (result, after) := by
  rw [result_bind_apply, bind_eq_ok]
  constructor
  · rintro ⟨⟨value, middle⟩, first, second⟩
    exact ⟨value, middle, first, second⟩
  · rintro ⟨value, middle, first, second⟩
    exact ⟨(value, middle), first, second⟩

theorem bind_get_eq_ok {next : σ → StateT σ (Traced ε) α} :
    ((get >>= next) state).result = .ok result ↔ (next state state).result = .ok result := by
  rw [result_bind_apply]
  rfl

theorem bind_liftM_eq_ok {step : Except ε β} {next : β → StateT σ (Traced ε) α} :
    ((liftM step >>= next) state).result = .ok result ↔
      ∃ value, step = .ok value ∧ (next value state).result = .ok result := by
  rw [result_bind_apply, ← bind_eq_ok]
  cases step <;> rfl

@[elab_as_elim] theorem mapM_run {step : β → StateT σ (Traced ε) α} {motive : List β → List α → σ → Prop}
    (keeps : ∀ done yielded item value state after, motive done yielded state →
      (step item state).result = .ok (value, after) → motive (done ++ [item]) (yielded ++ [value]) after)
    (start : motive [] [] state) (ok : (items.mapM step state).result = .ok (values, after)) : motive items values after := by
  suffices run : ∀ done yielded, motive done yielded state → motive (done ++ items) (yielded ++ values) after from
    run [] [] start
  clear start
  induction items generalizing state values with
  | nil =>
    cases ok
    simp
  | cons first rest ih =>
    rw [List.mapM_cons] at ok
    obtain ⟨value, middle, firstOk, ok⟩ := bind_apply_eq_ok.mp ok
    obtain ⟨others, last, restOk, ok⟩ := bind_apply_eq_ok.mp ok
    cases ok
    intro done yielded holds
    simpa using ih restOk _ _ (keeps done yielded first value state middle holds firstOk)

@[elab_as_elim] theorem forM_run {step : β → StateT σ (Traced ε) PUnit} {motive : List β → σ → Prop}
    (keeps : ∀ done item state after, motive done state → (step item state).result = .ok (⟨⟩, after) →
      motive (done ++ [item]) after) (start : motive [] state) (ok : (items.forM step state).result = .ok (⟨⟩, after))
    : motive items after := by
  suffices run : ∀ done, motive done state → motive (done ++ items) after from run [] start
  clear start
  induction items generalizing state with
  | nil =>
    cases ok
    simp
  | cons first rest ih =>
    obtain ⟨⟨⟩, middle, firstOk, ok⟩ := bind_apply_eq_ok.mp ok
    intro done holds
    simpa using ih ok _ (keeps done first state middle holds firstOk)

/-- From a state with the invariant, work that ends well keeps the invariant and yields a value with the
postcondition. -/
def Ensures (invariant : σ → Prop) (work : StateT σ (Traced ε) α) (post : α → Prop) : Prop :=
  ∀ state, invariant state → ∀ value after, (work state).result = .ok (value, after) → invariant after ∧ post value

namespace Ensures

variable {invariant : σ → Prop} {post : α → Prop} {work : StateT σ (Traced ε) α}

theorem pure (holds : post value) : Ensures invariant (Pure.pure value : StateT σ (Traced ε) α) post := by
  rintro state kept _ _ ⟨⟩
  exact ⟨kept, holds⟩

theorem bind {next : β → StateT σ (Traced ε) α} (start : Ensures invariant first middle)
    (goesOn : ∀ value, middle value → Ensures invariant (next value) post) :
    Ensures invariant (first >>= next) post := by
  intro state kept value after ok
  rw [result_bind_apply] at ok
  obtain ⟨⟨between, state'⟩, firstOk, nextOk⟩ := bind_eq_ok.mp ok
  obtain ⟨kept', isMiddle⟩ := start state kept between state' firstOk
  exact goesOn between isMiddle state' kept' value after nextOk

theorem andThen {next : β → StateT σ (Traced ε) α} (start : Ensures invariant first fun _ => True)
    (goesOn : ∀ value, Ensures invariant (next value) post) : Ensures invariant (first >>= next) post :=
  start.bind fun value _ => goesOn value

theorem ite {condition : Prop} [Decidable condition] {yes no : StateT σ (Traced ε) α}
    (ifTrue : condition → Ensures invariant yes post) (ifFalse : ¬condition → Ensures invariant no post) :
    Ensures invariant (if condition then yes else no) post := by
  split
  · exact ifTrue ‹_›
  · exact ifFalse ‹_›

theorem exits {next : β → StateT σ (Traced ε) α} (never : Ensures invariant first fun _ => False)
    : Ensures invariant (first >>= next) post := never.bind fun _ impossible => impossible.elim

theorem throw (fault : ε) : Ensures invariant (MonadExcept.throw fault : StateT σ (Traced ε) α) post := by
  rintro state _ _ _ ⟨⟩

theorem get : Ensures invariant (MonadState.get : StateT σ (Traced ε) σ) invariant := by
  rintro state kept _ _ ⟨⟩
  exact ⟨kept, kept⟩

theorem set (kept : invariant state) :
    Ensures invariant (MonadStateOf.set state : StateT σ (Traced ε) PUnit) fun _ => True := by
  rintro _ _ _ _ ⟨⟩
  exact ⟨kept, trivial⟩

theorem modify {change : σ → σ} (keeps : ∀ state, invariant state → invariant (change state)) :
    Ensures invariant (modify change : StateT σ (Traced ε) PUnit) fun _ => True := by
  rintro state kept _ _ ⟨⟩
  exact ⟨keeps state kept, trivial⟩

theorem ofExcept {step : Except ε α} (holds : ∀ value, step = .ok value → post value) :
    Ensures invariant (liftM step : StateT σ (Traced ε) α) post := by
  intro state kept value after ok
  cases step with
  | error fault => cases ok
  | ok result =>
    cases ok
    exact ⟨kept, holds value rfl⟩

theorem mapM {step : β → StateT σ (Traced ε) α} {items : List β}
    (each : ∀ item ∈ items, Ensures invariant (step item) post) :
    Ensures invariant (items.mapM step) fun results => ∀ result ∈ results, post result := by
  induction items with
  | nil => exact pure (by simp)
  | cons first rest ih =>
    obtain ⟨here, later⟩ := List.forall_mem_cons.mp each
    rw [List.mapM_cons]
    refine bind here fun value isPost => ?_
    refine bind (ih later) fun others arePost => ?_
    exact pure (List.forall_mem_cons.mpr ⟨isPost, arePost⟩)

theorem forM {step : β → StateT σ (Traced ε) PUnit} {items : List β}
    (each : ∀ item ∈ items, Ensures invariant (step item) fun _ => True) :
    Ensures invariant (items.forM step) fun _ => True := by
  induction items with
  | nil => exact pure trivial
  | cons first rest ih =>
    obtain ⟨here, later⟩ := List.forall_mem_cons.mp each
    exact andThen here fun _ => ih later

end Ensures

end Stateful

end RtlBridge

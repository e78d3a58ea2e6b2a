import RtlBridge.Proofs.Text.LetterCase
import RtlBridge.Proofs.Vhdl.LoweringSteps
import RtlBridge.Proofs.Vhdl.Respelling

/-! The letter case of names in use does not matter. Units that differ in nothing else are lowered to the same design,
or fail on the same line with an error of the same class. -/

namespace RtlBridge

/-! ### What is seen of an outcome -/

/-- The classes of errors. -/
inductive FaultClass where
  | parse
  | unsupported
  | widthMismatch
  | mixedSensitivity
  | conflictingDrivers
  | ambiguousReset
deriving Repr, DecidableEq

def Cause.faultClass : Cause → FaultClass
  | .malformed _ => .parse
  | .misnamed _ => .parse
  | .unsupported _ => .unsupported
  | .finding (.widthMismatch _ _ _) => .widthMismatch
  | .finding (.mixedSensitivity _ _ _) => .mixedSensitivity
  | .conflictingDrivers _ _ => .conflictingDrivers
  | .ambiguousReset _ _ => .ambiguousReset

section

variable {α β γ δ : Type}

/-- A view of the value of a step that ends well, and the line and class of its error otherwise. -/
def seen (view : α → γ) : Except Fault α → Except (Nat × FaultClass) γ
  | .ok value => .ok (view value)
  | .error fault => .error (fault.line, fault.cause.faultClass)

/-- Steps that come to the same, as far as a view of their values tells. -/
abbrev Alike (view : α → γ) (one other : Except Fault α) : Prop := seen view one = seen view other

theorem Alike.pure {view : α → γ} (same : view one = view other) : Alike view (.ok one) (.ok other) :=
  congrArg Except.ok same

theorem seen_bind {view : α → γ} {later : β → δ} (start : Alike view first second)
    (goesOn : ∀ one other, view one = view other → Alike later (next one) (after other)) :
    Alike later (first >>= next) (second >>= after) := by
  cases first with
  | ok one =>
    cases second with
    | ok other => exact goesOn one other (Except.ok.inj start)
    | error fault => cases start
  | error fault =>
    cases second with
    | ok other => cases start
    | error other => exact congrArg Except.error (Except.error.inj start)

theorem of_map_id_eq {view : α → γ} {other : α × β} (same : Prod.map view id one = Prod.map view id other) :
    view one.1 = view other.1 ∧ one.2 = other.2 := Prod.ext_iff.mp same

theorem seen_eq_ok {step : Except Fault α} {shown : γ} (same : seen view step = .ok shown) :
    ∃ value, step = .ok value ∧ view value = shown := by
  cases step with
  | ok value => exact ⟨value, rfl, Except.ok.inj same⟩
  | error fault => cases same

theorem seen_eq_error {view : α → γ} (same : seen view step = .error (line, kind)) :
    ∃ fault, step = .error fault ∧ fault.line = line ∧ fault.cause.faultClass = kind := by
  cases step with
  | ok value => cases same
  | error fault => exact ⟨fault, rfl, Prod.ext_iff.mp (Except.error.inj same)⟩

theorem seen_mapM {view : β → γ} {step : α → Except Fault β} {change : α → α} {items : List α}
    (each : ∀ item ∈ items, Alike view (step (change item)) (step item)) :
    Alike (List.map view) ((items.map change).mapM step) (items.mapM step) := by
  induction items with
  | nil => rfl
  | cons first rest ih =>
    obtain ⟨here, others⟩ := List.forall_mem_cons.mp each
    rw [List.map_cons, List.mapM_cons, List.mapM_cons]
    refine seen_bind here fun one other same => seen_bind (ih others) fun ones rests sameRest => ?_
    exact .pure (congrArg₂ List.cons same sameRest)

theorem seen_bind_same {later : β → δ} (first : Except Fault α)
    (goesOn : ∀ value, Alike later (next value) (after value)) : Alike later (first >>= next) (first >>= after) := by
  cases first with
  | ok value => exact goesOn value
  | error fault => rfl

end

namespace Vhdl

open Respelling (unplacing folding)

/-! ### Expressions -/

section

variable {change : Respelling} (keeps : change.KeepsNames) (scope : Scope)

include keeps

theorem Scope.lookup_spell (name : String) : scope.lookup (change.spell name) = scope.lookup name := by
  rw [lookup, lookup, keeps]

theorem Scope.static?_respell (expr : Expr) : scope.static? (expr.respell change) = scope.static? expr := by
  induction expr using Expr.induction with
  | name spelling line => rw [Expr.respell, static?, static?, lookup_spell keeps]
  | literal value line => rfl
  | binary op lhs rhs line left right =>
    rw [Expr.respell]
    cases op <;> simp only [static?, left, right]
  | unary op operand line inOperand =>
    rw [Expr.respell]
    cases op <;> simp only [static?, inOperand]
  | _ => simp only [Expr.respell, static?]

theorem checkCall_respell (function : String) (arguments : List Expr) (line : Nat) :
    Alike id (checkCall (change.spell function) (arguments.map (Expr.respell change)) line)
      (checkCall function arguments line) := by
  unfold checkCall
  dsimp only
  rw [keeps, List.length_map]
  cases Builtin.arity? (Text.lower function) with
  | none => rfl
  | some arity =>
    dsimp only
    split
    · rfl
    · cases (Builtin.edge? (Text.lower function)).isSome with
      | false => rfl
      | true =>
        cases arguments with
        | nil => rfl
        | cons first rest => cases first <;> cases rest <;> rfl

end

theorem lowerTick_unplaced (scope : Scope) (same : one.respell unplacing = other.respell unplacing) (name : String)
    (line : Nat) :
    Alike (Expr.respell unplacing) (lowerTick scope one name line) (lowerTick scope other name line) := by
  have each (base : Expr) : Alike (Expr.respell unplacing) (lowerTick scope base name line)
      (lowerTick scope (base.respell unplacing) name line) := by cases base <;> rfl
  exact (each one).trans (same ▸ (each other).symm)

/-- A change of spellings that cannot be told from what an expression is lowered to. -/
abbrev Expr.Ignores (scope : Scope) (owner : Option String) (change : Respelling) (expr : Expr) : Prop :=
  Alike (respell unplacing) ((expr.respell change).lower scope owner) (expr.lower scope owner)

theorem Expr.lowerAll_respell (each : ∀ part ∈ list, part.Ignores scope owner change) :
    Alike (List.map (respell unplacing)) (lower.lowerAll scope owner (list.map (respell change)))
      (lower.lowerAll scope owner list) := by
  rw [Alike, lowerAll_eq_mapM, lowerAll_eq_mapM, seen_mapM each]

theorem Expr.lower_respell (keeps : change.KeepsNames) (scope : Scope) (owner : Option String) (expr : Expr) :
    expr.Ignores scope owner change := by
  unfold Ignores
  induction expr using Expr.induction with
  | name spelling line =>
    rw [respell, lower, lower, Scope.spell, Scope.spell, Scope.lookup_spell keeps]
    cases scope.lookup spelling <;> rfl
  | literal value line => rfl
  | binary op lhs rhs line left right =>
    rw [respell, lower, lower]
    refine seen_bind left fun one other sameLeft => seen_bind right fun rest more sameRight => ?_
    exact .pure (by rw [respell, respell, sameLeft, sameRight])
  | unary op operand line inOperand =>
    rw [respell, lower, lower]
    refine seen_bind inOperand fun one other same => ?_
    exact .pure (by rw [respell, respell, same])
  | call function arguments line inArguments =>
    rw [respell, lower.eq_def, lower.eq_def scope]
    dsimp only
    rw [Scope.lookup_spell keeps, respellAll_eq_map]
    cases (scope.lookup function).filter Symbol.isObject with
    | some symbol =>
      cases arguments with
      | nil => rfl
      | cons subscript rest =>
        cases rest with
        | nil =>
          refine seen_bind (inArguments subscript (List.mem_singleton_self _)) fun one other same => ?_
          exact .pure (by simp only [respell, same])
        | cons second others => rfl
    | none =>
      refine seen_bind (checkCall_respell keeps function arguments line) fun _ _ _ => ?_
      refine seen_bind (lowerAll_respell inArguments) fun ones others same => ?_
      exact .pure (by rw [respell, respell, respellAll_eq_map, respellAll_eq_map, same, keeps])
  | aggregate fill site line inFill =>
    rw [respell, lower, lower]
    refine seen_bind inFill fun one other same => ?_
    exact .pure (by rw [respell, respell, same]; rfl)
  | concat parts line inParts =>
    rw [respell, lower, lower, respellAll_eq_map]
    refine seen_bind (lowerAll_respell inParts) fun ones others same => ?_
    exact .pure (by rw [respell, respell, respellAll_eq_map, respellAll_eq_map, same])
  | index base subscript line inBase inSubscript =>
    rw [respell, lower, lower]
    refine seen_bind inBase fun one other same => seen_bind inSubscript fun rest more sameRest => ?_
    exact .pure (by rw [respell, respell, same, sameRest])
  | slice base left right line inBase inLeft inRight =>
    rw [respell, lower, lower]
    refine seen_bind inBase fun one other same => seen_bind inLeft fun low more sameLeft =>
      seen_bind inRight fun high most sameRight => ?_
    exact .pure (by rw [respell, respell, same, sameLeft, sameRight])
  | tick base property line inBase =>
    rw [respell, lower, lower]
    exact seen_bind inBase fun one other same => lowerTick_unplaced scope same property line

/-! ### Statements -/

def Part.lower (scope : Scope) : Part → Except Fault Part
  | .whole => .ok .whole
  | .element subscript => do return .element (← subscript.lower scope none)
  | .range left right => do return .range (← left.lower scope none) (← right.lower scope none)

theorem Target.lower_eq (scope : Scope) (target : Target) : target.lower scope = do
    let symbol ← scope.spell target.name target.line
    let part ← target.part.lower scope
    return (⟨symbol.name, part, target.line⟩, symbol) := by
  obtain ⟨name, part, line⟩ := target
  cases part with
  | whole => rfl
  | element subscript | range left right => simp only [lower, Part.lower, bind_assoc, pure_bind]

section

variable {change : Respelling} (keeps : change.KeepsNames) (scope : Scope)

include keeps

theorem Scope.spell_spell (name : String) (line : Nat) :
    Alike id (scope.spell (change.spell name) line) (scope.spell name line) := by
  rw [Alike, spell, spell, lookup_spell keeps]
  cases scope.lookup name <;> rfl

theorem Part.lower_respell (part : Part) :
    Alike (Part.respell unplacing) ((part.respell change).lower scope) (part.lower scope) := by
  cases part with
  | whole => rfl
  | element subscript =>
    refine seen_bind (subscript.lower_respell keeps scope none) fun one other same => ?_
    exact .pure (by rw [respell, respell, same])
  | range left right =>
    refine seen_bind (left.lower_respell keeps scope none) fun low other sameLow => ?_
    refine seen_bind (right.lower_respell keeps scope none) fun high another sameHigh => ?_
    exact .pure (by rw [respell, respell, sameLow, sameHigh])

theorem Target.lower_respell (target : Target) :
    Alike (Prod.map (Target.respell unplacing) id) ((target.respell change).lower scope) (target.lower scope) := by
  rw [lower_eq, lower_eq]
  refine seen_bind (scope.spell_spell keeps target.name target.line) fun symbol other sameSymbol => ?_
  refine seen_bind (target.part.lower_respell keeps scope) fun one another same => ?_
  cases sameSymbol
  refine .pure (Prod.ext ?_ rfl)
  change (⟨_, _, _⟩ : Target) = ⟨_, _, _⟩
  rw [same]
  rfl

abbrev Stmt.Ignores (change : Respelling) (stmt : Stmt) : Prop :=
  Alike (Stmt.respell unplacing) ((stmt.respell change).lower scope) (stmt.lower scope)

omit keeps in
theorem lowerBody_respell (each : ∀ inner ∈ body, inner.Ignores scope change) :
    Alike (respellBody unplacing) (lowerBody scope (respellBody change body)) (lowerBody scope body) := by
  rw [funext (respellBody_eq_map unplacing), respellBody_eq_map, lowerBody_eq_mapM, lowerBody_eq_mapM]
  exact seen_mapM each

theorem lowerBranches_respell (each : ∀ branch ∈ branches, ∀ inner ∈ branch.2, inner.Ignores scope change) :
    Alike (respellBranches unplacing) (lowerBranches scope (respellBranches change branches))
      (lowerBranches scope branches) := by
  rw [funext (respellBranches_eq_map unplacing), respellBranches_eq_map, lowerBranches_eq_mapM, lowerBranches_eq_mapM]
  refine seen_mapM fun branch member => ?_
  refine seen_bind (branch.1.lower_respell keeps scope none) fun condition other same => ?_
  refine seen_bind (lowerBody_respell scope (each branch member)) fun body another sameBody => ?_
  exact .pure (congrArg₂ Prod.mk same sameBody)

theorem lowerArms_respell (each : ∀ arm ∈ arms, ∀ inner ∈ arm.2, inner.Ignores scope change) :
    Alike (respellArms unplacing) (lowerArms scope (respellArms change arms)) (lowerArms scope arms) := by
  rw [funext (respellArms_eq_map unplacing), respellArms_eq_map, lowerArms_eq_mapM, lowerArms_eq_mapM]
  refine seen_mapM fun arm member => ?_
  refine seen_bind (Expr.lowerAll_respell fun choice _ => choice.lower_respell keeps scope none)
    fun choices other same => ?_
  refine seen_bind (lowerBody_respell scope (each arm member)) fun body another sameBody => ?_
  exact .pure (congrArg₂ Prod.mk same sameBody)

theorem Stmt.lower_respell (stmt : Stmt) : stmt.Ignores scope change := by
  unfold Ignores
  induction stmt using Stmt.induction with
  | assign target value immediate line =>
    rw [respell, lower, lower]
    refine seen_bind (target.lower_respell keeps scope) fun one other same => ?_
    obtain ⟨sameTarget, sameSymbol⟩ := of_map_id_eq same
    refine seen_bind (value.lower_respell keeps scope none) fun given another sameValue => ?_
    rw [sameSymbol]
    refine seen_bind_same _ fun _ => ?_
    exact .pure (by rw [respell, respell, sameTarget, sameValue])
  | conditional branches otherwise line inBranches inOtherwise =>
    rw [respell, lower, lower]
    refine seen_bind (lowerBranches_respell keeps scope inBranches) fun list other same => ?_
    refine seen_bind (lowerBody_respell scope inOtherwise) fun rest another sameRest => ?_
    exact .pure (by rw [respell, respell, same, sameRest])
  | selection selector arms default line inArms inDefault =>
    have last : Alike (respellDefault unplacing) (lowerDefault scope (respellDefault change default))
        (lowerDefault scope default) := by
      cases default with
      | none => rw [respellDefault]
      | some body =>
        rw [respellDefault, lowerDefault, lowerDefault]
        refine seen_bind (lowerBody_respell scope (inDefault body rfl)) fun one other same => ?_
        exact .pure (by rw [respellDefault, respellDefault, same])
    rw [respell, lower, lower]
    refine seen_bind (selector.lower_respell keeps scope none) fun value other same => ?_
    refine seen_bind (lowerArms_respell keeps scope inArms) fun list another sameArms => ?_
    refine seen_bind last fun rest most sameLast => ?_
    exact .pure (by rw [respell, respell, same, sameArms, sameLast])
  | captured statement => rw [respell]

end

/-! ### Work on a design -/

namespace Lowering

variable {α β γ δ : Type}

/-- Work that comes to the same in every scope, as far as a view of its value tells. -/
def Alike (view : α → γ) (one other : Lowering α) : Prop :=
  ∀ scope, RtlBridge.Alike (Prod.map view id) (one scope).result (other scope).result

namespace Alike

variable {view : α → γ} {later : β → δ}

theorem refl (view : α → γ) (work : Lowering α) : Alike view work work := fun _ => rfl

theorem pure (same : view one = view other) : Alike view (Pure.pure one) (Pure.pure other) :=
  fun _ => congrArg Except.ok (Prod.ext same rfl)

theorem bind (start : Alike view one other)
    (goesOn : ∀ first second, view first = view second → Alike later (next first) (after second)) :
    Alike later (one >>= next) (other >>= after) := by
  intro scope
  rw [result_bind_apply, result_bind_apply]
  refine seen_bind (start scope) fun first second same => ?_
  obtain ⟨sameValue, sameScope⟩ := of_map_id_eq same
  dsimp only
  rw [sameScope]
  exact goesOn first.1 second.1 sameValue second.2

theorem bind_id {after : α → Lowering β} (start : Alike id one other)
    (goesOn : ∀ value, Alike later (next value) (after value)) : Alike later (one >>= next) (other >>= after) := by
  refine bind start fun first second same => ?_
  change first = second at same
  rw [same]
  exact goesOn second

theorem andThen (work : Lowering α) (goesOn : ∀ value, Alike later (next value) (after value))
    : Alike later (work >>= next) (work >>= after) := bind_id (refl id work) goesOn

theorem lift (same : RtlBridge.Alike view one other) :
    Alike view (liftM one : Lowering α) (liftM other : Lowering α) := by
  intro scope
  cases one with
  | ok value =>
    cases other with
    | ok another => exact .pure (Prod.ext (Except.ok.inj same) rfl)
    | error fault => cases same
  | error fault =>
    cases other with
    | ok another => cases same
    | error another => exact congrArg Except.error (Except.error.inj same)

theorem ite {condition : Prop} [Decidable condition] {one other next after : Lowering α} (yes : Alike view one other)
    (no : Alike view next after) :
    Alike view (if condition then one else next) (if condition then other else after) := by
  by_cases holds : condition
  · rw [if_pos holds, if_pos holds]
    exact yes
  · rw [if_neg holds, if_neg holds]
    exact no

theorem mapM {ι : Type} {step : ι → Lowering α} {change : ι → ι} {items : List ι}
    (each : ∀ item ∈ items, Alike view (step (change item)) (step item)) :
    Alike (List.map view) ((items.map change).mapM step) (items.mapM step) := by
  induction items with
  | nil => exact refl _ _
  | cons first rest ih =>
    obtain ⟨here, others⟩ := List.forall_mem_cons.mp each
    rw [List.map_cons, List.mapM_cons, List.mapM_cons]
    refine bind here fun one other same => bind (ih others) fun ones rests sameRest => pure ?_
    rw [List.map_cons, List.map_cons, same, sameRest]

end Alike

def events (line : Nat) : Sensitivity → Lowering Sensitivity
  | .all => return .all
  | .listed names => return .listed (← sensitivity line [] names)

theorem processBlock_eq (block : ProcessBlock TypeMark) : processBlock block = do
    modify fun scope => { scope with locals := .empty }
    let vars ← block.vars.mapM variableDecl
    let listed ← events block.line block.sensitivity
    let body ← lowerBody (← get) block.body
    modify fun scope => { scope with locals := .empty }
    return ⟨block.label, listed, vars, body, block.line⟩ := by
  obtain ⟨label, sensitivity, vars, body, line⟩ := block
  cases sensitivity with
  | all => rfl
  | listed names => simp only [processBlock, events, bind_assoc, pure_bind]

end Lowering

section

variable {change : Respelling} (keeps : change.KeepsNames)

include keeps

theorem Scope.resolve_respell (scope : Scope) (mark : TypeMark) :
    Alike id (scope.resolve (mark.respell change)).result (scope.resolve mark).result := by
  obtain ⟨name, bounds, line⟩ := mark
  unfold resolve
  dsimp only [TypeMark.respell]
  rw [keeps]
  generalize Text.lower name = key
  split
  · rfl
  split
  · rfl
  split
  · rfl
  cases vectorMark? key with
  | none => cases scope.enums.lookup key <;> rfl
  | some signed =>
    cases bounds with
    | none => rfl
    | some bounds =>
      simp only [Option.map_some, staticBound, static?_respell keeps, Traced.result_bind]
      refine seen_bind_same _ fun left => seen_bind_same _ fun right => ?_
      cases bounds.ascending <;> rfl

namespace Lowering

theorem resolve_respell (mark : TypeMark) : Alike id (resolve (mark.respell change)) (resolve mark) := by
  intro scope
  rw [resolve, resolve, Traced.result_bind, Traced.result_bind]
  refine seen_bind (scope.resolve_respell keeps mark) fun one other same => ?_
  change one = other at same
  rw [same]

theorem port_respell (source : Port TypeMark) :
    Alike (Port.respell id) (port (source.respell (TypeMark.respell change))) (port source) := by
  refine Alike.bind_id (resolve_respell keeps source.type) fun type => ?_
  exact Alike.refl _ _

theorem initial_respell (owner : String) (init : Option Expr) :
    Alike (Option.map (Expr.respell unplacing)) (initial owner (init.map (Expr.respell change)))
      (initial owner init) := by
  cases init with
  | none => exact Alike.refl _ _
  | some value =>
    refine Alike.andThen _ fun scope => Alike.bind (Alike.lift (value.lower_respell keeps scope owner)) ?_
    exact fun one other same => Alike.pure (congrArg some same)

theorem constant_respell (decl : ConstantDecl TypeMark) :
    Alike (ConstantDecl.respell unplacing id) (constant (decl.respell change (TypeMark.respell change)))
      (constant decl) := by
  refine Alike.bind_id (resolve_respell keeps decl.type) fun type => ?_
  refine Alike.andThen _ fun scope => Alike.bind (Alike.lift (decl.value.lower_respell keeps scope decl.name)) ?_
  intro one other same
  have sameStatic : scope.static? one = scope.static? other := by
    rw [← scope.static?_respell Respelling.unplacing_keepsNames one, same,
      scope.static?_respell Respelling.unplacing_keepsNames]
  rw [sameStatic]
  refine Alike.andThen _ fun _ => Alike.pure ?_
  rw [ConstantDecl.respell, ConstantDecl.respell, same]
  rfl

theorem signal_respell (decl : ObjectDecl TypeMark) :
    Alike (ObjectDecl.respell unplacing id) (signal (decl.respell change (TypeMark.respell change))) (signal decl) := by
  refine Alike.bind_id (resolve_respell keeps decl.type) fun type => ?_
  refine Alike.bind (initial_respell keeps decl.name decl.init) fun one other same => ?_
  refine Alike.andThen _ fun _ => Alike.pure ?_
  rw [ObjectDecl.respell, ObjectDecl.respell, same]
  rfl

theorem variableDecl_respell (decl : ObjectDecl TypeMark) :
    Alike (ObjectDecl.respell unplacing id) (variableDecl (decl.respell change (TypeMark.respell change)))
      (variableDecl decl) := by
  refine Alike.bind_id (resolve_respell keeps decl.type) fun type => ?_
  refine Alike.andThen _ fun scope => ?_
  refine Alike.ite (fun _ => rfl) (Alike.ite (fun _ => rfl) (Alike.andThen _ fun _ => ?_))
  refine Alike.bind (initial_respell keeps decl.name decl.init) fun one other same => ?_
  refine Alike.andThen _ fun _ => Alike.pure ?_
  rw [ObjectDecl.respell, ObjectDecl.respell, same]
  rfl

theorem sensitivity_respell (line : Nat) (found names : List String) :
    Alike id (sensitivity line found (names.map change.spell)) (sensitivity line found names) := by
  induction names generalizing found with
  | nil => exact Alike.refl _ _
  | cons name rest ih =>
    rw [List.map_cons, sensitivity, sensitivity]
    refine Alike.andThen _ fun scope => ?_
    rw [scope.lookup_spell keeps]
    cases scope.lookup name with
    | none => exact fun _ => rfl
    | some symbol => exact Alike.ite (ih _) fun _ => rfl

theorem processBlock_respell (block : ProcessBlock TypeMark) :
    Alike (ProcessBlock.respell unplacing id) (processBlock (block.respell change (TypeMark.respell change)))
      (processBlock block) := by
  rw [processBlock_eq, processBlock_eq]
  refine Alike.andThen _ fun _ => ?_
  refine Alike.bind (Alike.mapM fun decl _ => variableDecl_respell keeps decl) fun vars others sameVars => ?_
  have events : Alike id (events block.line (block.sensitivity.respell change))
      (events block.line block.sensitivity) := by
    cases block.sensitivity with
    | all => exact Alike.refl _ _
    | listed names => exact Alike.bind_id (sensitivity_respell keeps block.line [] names) fun found => Alike.refl _ _
  refine Alike.bind_id events fun listed => ?_
  refine Alike.andThen _ fun scope => ?_
  refine Alike.bind (Alike.lift (lowerBody_respell scope fun stmt _ => stmt.lower_respell keeps scope)) ?_
  intro body another sameBody
  refine Alike.andThen _ fun _ => Alike.pure ?_
  rw [ProcessBlock.respell, ProcessBlock.respell, sameVars, sameBody]
  rfl

theorem choices_respell (scope : Scope) (list : List (Expr × Expr)) :
    RtlBridge.Alike (List.map fun choice => (choice.1.respell unplacing, choice.2.respell unplacing))
      (choices scope (list.map fun choice => (choice.1.respell change, choice.2.respell change)))
      (choices scope list) := by
  rw [choices_eq_mapM, choices_eq_mapM]
  refine seen_mapM fun choice _ => ?_
  refine seen_bind (choice.1.lower_respell keeps scope none) fun value other sameValue => ?_
  refine seen_bind (choice.2.lower_respell keeps scope none) fun condition another sameCondition => ?_
  exact .pure (congrArg₂ Prod.mk sameValue sameCondition)

theorem concurrent_respell (stmt : Concurrent TypeMark) :
    Alike (Concurrent.respell unplacing id) (concurrent (stmt.respell change (TypeMark.respell change)))
      (concurrent stmt) := by
  cases stmt with
  | process block =>
    refine Alike.bind (processBlock_respell keeps block) fun one other same => Alike.pure ?_
    exact congrArg Concurrent.process same
  | assign assignment =>
    refine Alike.andThen _ fun scope => ?_
    refine Alike.bind (Alike.lift (assignment.target.lower_respell keeps scope)) fun one other same => ?_
    obtain ⟨sameTarget, sameSymbol⟩ := of_map_id_eq same
    refine Alike.bind (Alike.lift (assignment.value.lower_respell keeps scope none)) fun given another sameValue => ?_
    rw [sameSymbol]
    refine Alike.andThen _ fun _ => Alike.pure (congrArg Concurrent.assign ?_)
    rw [ContinuousAssign.respell, ContinuousAssign.respell, sameTarget, sameValue]
    rfl
  | conditional assignment =>
    refine Alike.andThen _ fun scope => ?_
    refine Alike.bind (Alike.lift (assignment.target.lower_respell keeps scope)) fun one other same => ?_
    obtain ⟨sameTarget, sameSymbol⟩ := of_map_id_eq same
    refine Alike.bind (Alike.lift (choices_respell keeps scope assignment.choices)) fun list others sameChoices => ?_
    refine Alike.bind (Alike.lift (assignment.default.lower_respell keeps scope none)) ?_
    intro last another sameDefault
    rw [sameSymbol]
    refine Alike.andThen _ fun _ => Alike.pure (congrArg Concurrent.conditional ?_)
    rw [ConditionalAssign.respell, ConditionalAssign.respell, sameTarget, sameChoices, sameDefault]
    rfl
  | captured statement => exact Alike.refl _ _

theorem architecture_respell (body : Architecture TypeMark) :
    Alike (Architecture.respell unplacing id) (architecture (body.respell change (TypeMark.respell change)))
      (architecture body) := by
  refine Alike.andThen _ fun _ => ?_
  refine Alike.bind (Alike.mapM fun decl _ => constant_respell keeps decl) fun constants _ sameConstants => ?_
  refine Alike.bind (Alike.mapM fun decl _ => signal_respell keeps decl) fun signals _ sameSignals => ?_
  refine Alike.bind (Alike.mapM fun stmt _ => concurrent_respell keeps stmt) fun statements _ sameStatements => ?_
  refine Alike.pure ?_
  rw [Architecture.respell, Architecture.respell, sameConstants, sameSignals, sameStatements]
  rfl

theorem unit_respell (parsed : DesignUnit TypeMark) :
    Alike (DesignUnit.respell unplacing id) (unit (parsed.respell change (TypeMark.respell change))) (unit parsed) := by
  refine Alike.bind (Alike.mapM fun port _ => port_respell keeps port) fun ports others samePorts => ?_
  obtain ⟨entity, architecture⟩ := parsed
  cases architecture with
  | none =>
    refine Alike.andThen _ fun _ => Alike.pure ?_
    rw [DesignUnit.respell, DesignUnit.respell, samePorts]
    rfl
  | some body =>
    refine Alike.bind (architecture_respell keeps body) fun one other same => Alike.pure ?_
    rw [DesignUnit.respell, DesignUnit.respell, Option.map_some, Option.map_some, samePorts, same]
    rfl

end Lowering

theorem lower_respell (parsed : DesignUnit TypeMark) :
    Alike (DesignUnit.respell unplacing id) (lower (parsed.respell change (TypeMark.respell change))).result
      (lower parsed).result := by
  rw [lower, lower, Traced.result_bind, Traced.result_bind]
  refine seen_bind (Lowering.unit_respell keeps parsed Scope.empty) fun one other same => ?_
  exact .pure (of_map_id_eq same).1

end

theorem Respelling.folding_keepsNames : folding.KeepsNames := Text.lower_lower

/-- Units that are the same up to the letter case of the names in use, wherever their aggregates stand. -/
def DesignUnit.SameUpToCase (first second : DesignUnit TypeMark) : Prop :=
  first.respell folding (TypeMark.respell folding) = second.respell folding (TypeMark.respell folding)

/-- Designs that are the same up to the sites that tell their aggregates apart. -/
def DesignUnit.SameStructure (first second : Design) : Prop := first.respell unplacing id = second.respell unplacing id

/-- Units that are the same up to letter case are lowered to designs of the same structure, or neither is lowered and
both errors are of one class and name one line. -/
theorem lowering_ignores_letter_case {first second : DesignUnit TypeMark} (same : first.SameUpToCase second) :
    (∀ design, (lower first).result = .ok design →
      ∃ other, (lower second).result = .ok other ∧ design.SameStructure other) ∧
    ∀ fault, (lower first).result = .error fault →
      ∃ other, (lower second).result = .error other ∧ other.line = fault.line ∧
        other.cause.faultClass = fault.cause.faultClass := by
  -- Folding makes the same unit of both, and lowering does not notice it.
  have alike : seen (DesignUnit.respell unplacing id) (lower second).result =
      seen (DesignUnit.respell unplacing id) (lower first).result := by
    rw [← lower_respell Respelling.folding_keepsNames second, ← lower_respell Respelling.folding_keepsNames first, same]
  constructor
  · intro design ok
    rw [ok] at alike
    obtain ⟨other, otherOk, equal⟩ := seen_eq_ok alike
    exact ⟨other, otherOk, equal.symm⟩
  · intro fault failed
    rw [failed] at alike
    exact seen_eq_error alike

/-- A counter. Its declarations are `Clk`, `Width` and `Count`; its type marks, range, events, calls and targets take
the given spellings. -/
def sampleCounter (mark width clock edge count : String) : DesignUnit TypeMark :=
  ⟨⟨"Counter", [⟨"Clk", .input, ⟨"std_logic", none, 2⟩, 2⟩], 1⟩,
    some ⟨"rtl", "Counter",
      [⟨"Count", ⟨mark, some ⟨.name width 5, .literal (.decimal "0") 5, false⟩, 5⟩, none, 5⟩],
      [⟨"Width", ⟨"integer", none, 4⟩, .literal (.decimal "7") 4, 4⟩], [],
      [.process ⟨none, .listed [clock], [],
        [.conditional [(.call edge [.name clock 8] 8,
          [.assign ⟨count, .element (.literal (.decimal "0") 9), 9⟩
            (.unary .not (.call count [.literal (.decimal "0") 9] 9) 9) false 9])] [] 8], 7⟩], 3⟩⟩

theorem letter_case_ignored_in_sampleCounter :
    (∃ design other, (lower (sampleCounter "UNSIGNED" "WIDTH" "CLK" "Rising_Edge" "COUNT")).result = .ok design ∧
      (lower (sampleCounter "unsigned" "width" "clk" "rising_edge" "count")).result = .ok other ∧
      design.SameStructure other) ∧
    ∃ fault other, (lower (sampleCounter "UNSIGNED" "WIDTH" "CLK" "Rising_Edge" "TOTAL")).result = .error fault ∧
      (lower (sampleCounter "unsigned" "width" "clk" "rising_edge" "total")).result = .error other ∧
      other.line = fault.line ∧ other.cause.faultClass = fault.cause.faultClass := by
  have same (first second : String) (names : Text.lower first = Text.lower second) :
      (sampleCounter "UNSIGNED" "WIDTH" "CLK" "Rising_Edge" first).SameUpToCase
        (sampleCounter "unsigned" "width" "clk" "rising_edge" second) := by
    have mark : Text.lower "UNSIGNED" = Text.lower "unsigned" := by decide +kernel
    have width : Text.lower "WIDTH" = Text.lower "width" := by decide +kernel
    have clock : Text.lower "CLK" = Text.lower "clk" := by decide +kernel
    have edge : Text.lower "Rising_Edge" = Text.lower "rising_edge" := by decide +kernel
    rw [DesignUnit.SameUpToCase, sampleCounter, sampleCounter]
    simp only [DesignUnit.respell, Architecture.respell, ObjectDecl.respell, TypeMark.respell, Concurrent.respell,
      ProcessBlock.respell, Sensitivity.respell, Stmt.respell, respellBody, respellBranches, Target.respell,
      Expr.respell, Expr.respell.respellAll, folding, List.map_cons, List.map_nil, Option.map_some, mark, width, clock,
      edge, names]
  constructor
  · obtain ⟨design, ok, _⟩ : ∃ design,
        (lower (sampleCounter "UNSIGNED" "WIDTH" "CLK" "Rising_Edge" "COUNT")).result = .ok design ∧ True := by
      decide +kernel
    have names := same "COUNT" "count" (by decide +kernel)
    obtain ⟨other, otherOk, equal⟩ := (lowering_ignores_letter_case names).1 design ok
    exact ⟨design, other, ok, otherOk, equal⟩
  · have refused : seen (fun _ => ()) (lower (sampleCounter "UNSIGNED" "WIDTH" "CLK" "Rising_Edge" "TOTAL")).result =
        .error (9, .parse) := by decide +kernel
    obtain ⟨fault, failed, _⟩ := seen_eq_error refused
    have names := same "TOTAL" "total" (by decide +kernel)
    obtain ⟨other, otherFailed, equal⟩ := (lowering_ignores_letter_case names).2 fault failed
    exact ⟨fault, other, failed, otherFailed, equal⟩

end Vhdl

end RtlBridge

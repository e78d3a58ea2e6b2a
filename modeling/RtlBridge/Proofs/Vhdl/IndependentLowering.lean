import RtlBridge.Proofs.Vhdl.LoweringSteps

/-! Concurrent statements are lowered independently of each other. What one statement leaves behind for the next
are the names of its variables, and these only forbid that other processes have variables of the same names. -/

namespace RtlBridge.Vhdl

/-! ### The names of variables that are in use -/

def Scope.withKeys (scope : Scope) (keys : List String) : Scope := { scope with variableKeys := keys }

section

variable (scope : Scope) (keys : List String)

-- Lowering reads a scope through `lookup` and the enumeration types alone, whatever the keys are, so the recursions
-- agree step by step.
theorem Scope.resolve_withKeys : resolve (scope.withKeys keys) = resolve scope := by
  delta resolve staticBound static?
  rfl

theorem Expr.isVerbatim_withKeys : isVerbatim (scope.withKeys keys) = isVerbatim scope := by
  delta isVerbatim
  rfl

theorem Expr.lower_withKeys : lower (scope.withKeys keys) = lower scope := by
  delta lower lower._f
  rw [isVerbatim_withKeys]
  rfl

theorem Expr.lowerAll_withKeys : lower.lowerAll (scope.withKeys keys) = lower.lowerAll scope := by
  funext owner list
  rw [lowerAll_eq_mapM, lowerAll_eq_mapM, lower_withKeys]

theorem Target.lower_withKeys : lower (scope.withKeys keys) = lower scope := by
  delta lower
  rw [Expr.lower_withKeys]
  rfl

theorem lowerBody_withKeys : lowerBody (scope.withKeys keys) = lowerBody scope := by
  delta lowerBody Stmt.lower._f lowerBranches._f lowerArms._f
  rw [Target.lower_withKeys, Expr.lower_withKeys, Expr.lowerAll_withKeys]

theorem Lowering.choices_withKeys : choices (scope.withKeys keys) = choices scope := by
  funext pairs
  rw [choices_eq_mapM, choices_eq_mapM, Expr.lower_withKeys]

end

/-! ### Outcomes -/

namespace Lowering

variable {α β : Type}

def outcome (work : Lowering α) (scope : Scope) : Option (α × Scope) := (work scope).result.toOption

theorem outcome_pure (value : α) (scope : Scope) : outcome (pure value) scope = some (value, scope) := rfl

theorem outcome_bind (work : Lowering α) (next : α → Lowering β) (scope : Scope) :
    outcome (work >>= next) scope = (outcome work scope).bind fun found => outcome (next found.1) found.2 := by
  rw [outcome, result_bind_apply, outcome]
  cases (work scope).result <;> rfl

theorem outcome_get (scope : Scope) : outcome get scope = some (scope, scope) := rfl

theorem outcome_set (scope after : Scope) : outcome (set after) scope = some (⟨⟩, after) := rfl

theorem outcome_modify (change : Scope → Scope) (scope : Scope) :
    outcome (modify change) scope = some (⟨⟩, change scope) := rfl

theorem outcome_throw (fault : Fault) (scope : Scope) : outcome (throw fault : Lowering α) scope = none := rfl

theorem outcome_liftM (step : Except Fault α) (scope : Scope) :
    outcome (liftM step) scope = step.toOption.map (·, scope) := by cases step <;> rfl

theorem outcome_ite {condition : Prop} [Decidable condition] (yes no : Lowering α) (scope : Scope) :
    outcome (if condition then yes else no) scope = if condition then outcome yes scope else outcome no scope := by
  split <;> rfl

theorem outcome_resolve (mark : TypeMark) (scope : Scope) :
    outcome (resolve mark) scope = (scope.resolve mark).result.toOption.map (·, scope) := by
  rw [outcome, resolve, Traced.result_bind]
  cases (scope.resolve mark).result <;> rfl

def loweredInitial (scope : Scope) (decl : ObjectDecl TypeMark) : Option (Option Expr) :=
  match decl.init with
  | some value => (value.lower scope decl.name).toOption.map some
  | none => some none

theorem outcome_initial (decl : ObjectDecl TypeMark) (scope : Scope) :
    outcome (initial decl.name decl.init) scope = (loweredInitial scope decl).map (·, scope) := by
  rw [loweredInitial]
  cases decl.init with
  | none => rfl
  | some value =>
    simp only [initial, outcome_bind, outcome_get, outcome_liftM, outcome_pure, Option.bind_some]
    cases value.lower scope decl.name <;> rfl

theorem loweredInitial_withKeys (scope : Scope) (keys : List String) (decl : ObjectDecl TypeMark) :
    loweredInitial (scope.withKeys keys) decl = loweredInitial scope decl := by
  simp only [loweredInitial, Expr.lower_withKeys]

theorem outcome_variableDecl (decl : ObjectDecl TypeMark) (scope : Scope) :
    outcome (variableDecl decl) scope = (scope.resolve decl.type).result.toOption.bind fun type =>
      if scope.variableKeys.contains (Text.lower decl.name) then none
      else if (scope.globals.find? (Text.lower decl.name)).isSome || (scope.locals.find? (Text.lower decl.name)).isSome then
        none
      else (loweredInitial scope decl).map fun init => (⟨decl.name, type, init, decl.line⟩,
        (scope.withKeys (Text.lower decl.name :: scope.variableKeys)).declareVariable decl.name type) := by
  simp only [variableDecl, outcome_bind, outcome_resolve, outcome_get, outcome_ite, outcome_throw, outcome_initial,
    outcome_set, outcome_modify, outcome_pure]
  cases (scope.resolve decl.type).result.toOption with
  | none => rfl
  | some type =>
    simp only [Option.map_some, Option.bind_some, Option.bind_none]
    split
    · rfl
    · split
      · rfl
      · rw [← loweredInitial_withKeys scope (Text.lower decl.name :: scope.variableKeys)]
        change ((loweredInitial (scope.withKeys _) decl).map _).bind _ = _
        cases loweredInitial (scope.withKeys (Text.lower decl.name :: scope.variableKeys)) decl <;> rfl

/-! ### Variables of other processes -/

end Lowering

def Scope.addKeys (scope : Scope) (others : List String) : Scope := scope.withKeys (scope.variableKeys ++ others)

namespace Lowering

variable {α β : Type}

/-- Variables that are in use elsewhere stop work if it declares one of their names, and do not matter otherwise. -/
def Avoids (work : Lowering α) (own : List String) : Prop :=
  ∀ scope others, outcome work (scope.addKeys others) =
    if ∀ key ∈ own, key ∉ others then (outcome work scope).map fun found => (found.1, found.2.addKeys others)
    else none

namespace Avoids

theorem pure (value : α) : Avoids (Pure.pure value) [] := by
  intro scope others
  rw [if_pos (List.forall_mem_nil _)]
  rfl

theorem bind {next : α → Lowering β} (start : Avoids first own) (goesOn : ∀ value, Avoids (next value) later)
    : Avoids (first >>= next) (own ++ later) := by
  intro scope others
  rw [outcome_bind, outcome_bind, start]
  by_cases here : ∀ key ∈ own, key ∉ others
  · rw [if_pos here]
    cases outcome first scope with
    | none => exact (ite_self none).symm
    | some found =>
      refine (goesOn found.1 found.2 others).trans (if_congr ?_ rfl rfl)
      rw [List.forall_mem_append]
      exact (and_iff_right here).symm
  · rw [if_neg here, if_neg fun both => here (List.forall_mem_append.mp both).1]
    rfl

theorem andThen {next : α → Lowering β} (start : Avoids first []) (goesOn : ∀ value, Avoids (next value) own)
    : Avoids (first >>= next) own := bind start goesOn

theorem before {next : α → Lowering β} (start : Avoids first own) (goesOn : ∀ value, Avoids (next value) [])
    : Avoids (first >>= next) own := by
  have both := bind start goesOn
  rwa [List.append_nil] at both

theorem get {work : Scope → Lowering α} (same : ∀ scope keys, work (scope.withKeys keys) = work scope)
    (each : ∀ scope, Avoids (work scope) own) : Avoids (MonadState.get >>= work) own := by
  intro scope others
  have found (state : Scope) : outcome (MonadState.get >>= work) state = outcome (work state) state := rfl
  rw [found, found, ← each scope scope others]
  exact congrArg (outcome · _) (same scope _)

theorem lifts (step : Except Fault α) : Avoids (liftM step) [] := by
  intro scope others
  rw [if_pos (List.forall_mem_nil _), outcome_liftM, outcome_liftM]
  cases step <;> rfl

theorem changes (commutes : ∀ scope others, change (scope.addKeys others) = (change scope).addKeys others) :
    Avoids (modify change) [] := by
  intro scope others
  rw [if_pos (List.forall_mem_nil _), outcome_modify, outcome_modify, commutes]
  rfl

theorem throw (fault : Fault) : Avoids (MonadExcept.throw fault : Lowering α) [] := by
  intro scope others
  rw [if_pos (List.forall_mem_nil _)]
  rfl

theorem mapM {work : α → Lowering β} (each : ∀ item, Avoids (work item) (own item)) (items : List α)
    : Avoids (items.mapM work) (items.flatMap own) := by
  induction items with
  | nil => exact pure []
  | cons first rest ih =>
    rw [List.mapM_cons, List.flatMap_cons]
    refine bind (each first) fun value => ?_
    exact before ih fun values => pure (value :: values)

theorem variableDecl (decl : ObjectDecl TypeMark) : Avoids (Lowering.variableDecl decl) [Text.lower decl.name] := by
  intro scope others
  simp only [outcome_variableDecl, Scope.addKeys, Scope.resolve_withKeys, loweredInitial_withKeys,
    List.forall_mem_singleton]
  cases (scope.resolve decl.type).result.toOption with
  | none => exact (ite_self none).symm
  | some type =>
    have inUse : (scope.withKeys (scope.variableKeys ++ others)).variableKeys.contains (Text.lower decl.name) =
        (scope.variableKeys.contains (Text.lower decl.name) || others.contains (Text.lower decl.name)) :=
      List.contains_append
    have globals : (scope.withKeys (scope.variableKeys ++ others)).globals = scope.globals := rfl
    have locals : (scope.withKeys (scope.variableKeys ++ others)).locals = scope.locals := rfl
    simp only [Option.bind_some, inUse, globals, locals]
    cases isOther : others.contains (Text.lower decl.name) with
    | true => rw [Bool.or_true, if_pos rfl, if_neg (not_not_intro (by simpa using isOther))]
    | false =>
      have notOther : Text.lower decl.name ∉ others := by simpa using isOther
      rw [Bool.or_false, if_pos notOther]
      split
      · rfl
      · split
        · rfl
        · cases loweredInitial scope decl <;> rfl

theorem sensitivity (line : Nat) (seen names : List String) : Avoids (Lowering.sensitivity line seen names) [] := by
  induction names generalizing seen with
  | nil => exact pure _
  | cons name rest ih =>
    refine get (fun scope keys => rfl) fun scope => ?_
    cases scope.lookup name with
    | none => exact throw _
    | some symbol =>
      dsimp only
      split
      · exact ih _
      · exact throw _

theorem processBlock (block : ProcessBlock TypeMark) :
    Avoids (Lowering.processBlock block) (block.vars.map fun decl => Text.lower decl.name) := by
  rw [List.map_eq_flatMap]
  have forgets : Avoids (modify fun scope => { scope with locals := .empty } : Lowering PUnit) [] :=
    changes fun scope others => rfl
  have ends (list : Sensitivity) (vars : List (ObjectDecl DataType)) : Avoids (do
      let body ← lowerBody (← MonadState.get) block.body
      modify fun scope => { scope with locals := .empty }
      return ⟨block.label, list, vars, body, block.line⟩ : Lowering (ProcessBlock DataType)) [] := by
    refine get (fun scope keys => ?_) fun scope => ?_
    · rw [lowerBody_withKeys]
    · exact andThen (lifts _) fun body => andThen forgets fun _ => pure _
  refine andThen forgets fun _ => before (mapM variableDecl block.vars) fun vars => ?_
  cases block.sensitivity with
  | all => exact andThen (pure _) fun list => ends list vars
  | listed names => exact andThen (sensitivity _ _ _) fun listed => andThen (pure _) fun list => ends list vars

end Avoids

end Lowering

def Concurrent.ownKeys {τ : Type} : Concurrent τ → List String
  | .process block => block.vars.map fun decl => Text.lower decl.name
  | _ => []

namespace Lowering

theorem Avoids.concurrent (stmt : Concurrent TypeMark) : Avoids (Lowering.concurrent stmt) stmt.ownKeys := by
  cases stmt with
  | process block => exact before (processBlock block) fun _ => pure _
  | assign assignment =>
    refine get (fun scope keys => ?_) fun scope => ?_
    · rw [Target.lower_withKeys, Expr.lower_withKeys]
    · exact andThen (lifts _) fun _ => andThen (lifts _) fun _ => andThen (lifts _) fun _ => pure _
  | conditional assignment =>
    refine get (fun scope keys => ?_) fun scope => ?_
    · rw [Target.lower_withKeys, choices_withKeys, Expr.lower_withKeys]
    · exact andThen (lifts _) fun _ => andThen (lifts _) fun _ => andThen (lifts _) fun _ =>
        andThen (lifts _) fun _ => pure _
  | captured statement => exact pure _

/-! ### Statements one by one -/

/-- What declaring variables leaves behind. -/
structure Declares (scope : Scope) (keys : List String) (after : Scope) : Prop where
  globals : after.globals = scope.globals
  enums : after.enums = scope.enums
  inUse : after.variableKeys = keys.reverse ++ scope.variableKeys
  distinct : keys.Nodup

theorem declares_of_mapM {decls : List (ObjectDecl TypeMark)}
    (ok : (decls.mapM variableDecl scope).result = .ok (vars, after)) :
    Declares scope (decls.map fun decl => Text.lower decl.name) after := by
  refine mapM_run ?_ ?_ ok
  · intro done _ decl lowered state next before isNext
    obtain ⟨type, init, _, new, _, _, _, rfl, rfl⟩ := variableDecl_eq_ok isNext
    rw [before.inUse, List.mem_append, List.mem_reverse, not_or] at new
    refine ⟨before.globals, before.enums, ?_, ?_⟩
    · rw [List.map_append, List.reverse_append, List.append_assoc, ← before.inUse]
      rfl
    · rw [List.map_append, List.nodup_append]
      refine ⟨before.distinct, List.nodup_singleton _, ?_⟩
      rintro key inDone _ isNew rfl
      rw [List.map_singleton, List.mem_singleton] at isNew
      exact new.1 (isNew ▸ inDone)
  · exact ⟨rfl, rfl, rfl, .nil⟩

theorem leaves_ownKeys (noLocals : scope.locals = .empty) (ok : outcome (concurrent stmt) scope = some (lowered, after)) :
    after = scope.withKeys (stmt.ownKeys.reverse ++ scope.variableKeys) ∧ stmt.ownKeys.Nodup := by
  cases concurrent_eq_ok (toOption_eq_some.mp ok) with
  | process blockOk =>
    obtain ⟨⟨globals, locals, enums, keys⟩, varsOk, _, _, _, rfl⟩ := processBlock_eq_ok blockOk
    obtain ⟨sameGlobals, sameEnums, inUse, distinct⟩ := declares_of_mapM varsOk
    cases sameGlobals
    cases sameEnums
    cases inUse
    refine ⟨?_, distinct⟩
    rw [Scope.withKeys, noLocals]
    rfl
  | assign | conditional | captured => exact ⟨rfl, .nil⟩

def LowersAlone (scope : Scope) (stmt : Concurrent TypeMark) (lowered : Concurrent DataType) : Prop :=
  ∃ after, outcome (concurrent stmt) scope = some (lowered, after)

theorem LowersAlone.rightUnique (scope : Scope) : Relator.RightUnique (LowersAlone scope) := by
  rintro stmt first second ⟨_, one⟩ ⟨_, two⟩
  rw [one] at two
  cases two
  rfl

theorem lowers_iff (noLocals : scope.locals = .empty) (noKeys : scope.variableKeys = [])
    (statements : List (Concurrent TypeMark)) (lowered : List (Concurrent DataType)) (others : List String) :
    (∃ after, outcome (statements.mapM concurrent) (scope.withKeys others) = some (lowered, after)) ↔
      (statements.flatMap Concurrent.ownKeys).Nodup ∧ (statements.flatMap Concurrent.ownKeys).Disjoint others ∧
        List.Forall₂ (LowersAlone scope) statements lowered := by
  induction statements generalizing lowered others with
  | nil =>
    rw [List.mapM_nil, outcome_pure]
    constructor
    · rintro ⟨_, ⟨⟩⟩
      exact ⟨.nil, nofun, .nil⟩
    · rintro ⟨_, _, ⟨⟩⟩
      exact ⟨_, rfl⟩
  | cons first rest ih =>
    have together : scope.withKeys others = scope.addKeys others := by rw [Scope.addKeys, noKeys, List.nil_append]
    rw [List.mapM_cons, outcome_bind, together, Avoids.concurrent, List.flatMap_cons, List.nodup_append',
      List.disjoint_append_left, List.forall₂_cons_left_iff]
    by_cases here : ∀ key ∈ first.ownKeys, key ∉ others
    · rw [if_pos here]
      cases found : outcome (concurrent first) scope with
      | none =>
        constructor
        · rintro ⟨_, ⟨⟩⟩
        · rintro ⟨_, _, value, _, ⟨_, isFirst⟩, _⟩
          cases found.symm.trans isFirst
      | some result =>
        obtain ⟨value, after⟩ := result
        obtain ⟨rfl, distinct⟩ := leaves_ownKeys noLocals found
        have goesOn : (scope.withKeys (first.ownKeys.reverse ++ scope.variableKeys)).addKeys others =
            scope.withKeys (first.ownKeys.reverse ++ others) := by
          rw [noKeys, List.append_nil]
          rfl
        rw [Option.map_some, Option.bind_some, goesOn, outcome_bind]
        constructor
        · rintro ⟨after, ok⟩
          obtain ⟨⟨tail, last⟩, restOk, done⟩ := Option.bind_eq_some_iff.mp ok
          cases done
          obtain ⟨restDistinct, disjoint, each⟩ := (ih _ _).mp ⟨_, restOk⟩
          obtain ⟨apart, fromOthers⟩ := List.disjoint_append_right.mp disjoint
          have ownApart := List.disjoint_reverse_right.mp apart
          exact ⟨⟨distinct, restDistinct, fun _ inOwn inRest => ownApart inRest inOwn⟩, ⟨here, fromOthers⟩,
            value, tail, ⟨_, found⟩, each, rfl⟩
        · rintro ⟨⟨_, restDistinct, apart⟩, ⟨_, fromOthers⟩, _, tail, isFirst, each, rfl⟩
          cases LowersAlone.rightUnique scope isFirst ⟨_, found⟩
          have ownApart := List.disjoint_reverse_right.mpr fun _ inRest inOwn => apart inOwn inRest
          have disjoint := List.disjoint_append_right.mpr ⟨ownApart, fromOthers⟩
          obtain ⟨last, restOk⟩ := (ih _ _).mpr ⟨restDistinct, disjoint, each⟩
          exact ⟨last, by rw [restOk]; rfl⟩
    · rw [if_neg here]
      constructor
      · rintro ⟨_, ⟨⟩⟩
      · rintro ⟨_, ⟨disjoint, _⟩, _⟩
        exact absurd disjoint here

end Lowering

/-! ### Units -/

def DesignUnit.withStatements {τ : Type} (unit : DesignUnit τ) (statements : List (Concurrent τ)) : DesignUnit τ :=
  { unit with architecture := unit.architecture.map fun body => { body with statements } }

/-- No process is being lowered, and none has been. -/
structure Scope.IsOutside (scope : Scope) : Prop where
  noLocals : scope.locals = .empty
  noKeys : scope.variableKeys = []

namespace Lowering

theorem declare_outside (line : Nat) (symbol : Symbol) : Ensures Scope.IsOutside (declare line symbol) fun _ => True := by
  intro scope outside _ after ok
  obtain ⟨_, _, rfl⟩ := declare_eq_ok ok
  exact ⟨⟨outside.noLocals, outside.noKeys⟩, trivial⟩

theorem port_outside (decl : Port TypeMark) : Ensures Scope.IsOutside (port decl) fun _ => True := by
  intro scope outside _ after ok
  obtain ⟨_, _, _, declared⟩ := port_eq_ok ok
  exact declare_outside _ _ scope outside _ after declared

theorem constant_outside (decl : ConstantDecl TypeMark) : Ensures Scope.IsOutside (constant decl) fun _ => True := by
  intro scope outside _ after ok
  obtain ⟨_, _, _, _, _, declared⟩ := constant_eq_ok ok
  exact declare_outside _ _ scope outside _ after declared

theorem signal_outside (decl : ObjectDecl TypeMark) : Ensures Scope.IsOutside (signal decl) fun _ => True := by
  intro scope outside _ after ok
  obtain ⟨_, _, _, _, _, declared⟩ := signal_eq_ok ok
  exact declare_outside _ _ scope outside _ after declared

theorem enum_outside (decl : EnumDecl) : Ensures Scope.IsOutside (enum decl) fun _ => True := by
  intro scope outside _ after ok
  have literals : Ensures Scope.IsOutside (decl.type.literals.forM fun literal =>
      declare decl.line ⟨literal, .enumLiteral, some (.enum decl.type), none⟩) fun _ => True :=
    Ensures.forM fun literal _ => declare_outside _ _
  refine literals _ ?_ _ after (enum_eq_ok ok)
  exact ⟨outside.noLocals, outside.noKeys⟩

def declarations (entity : Entity TypeMark) (body : Architecture TypeMark) : Lowering Design := do
  let ports ← entity.ports.mapM port
  body.enums.forM enum
  let constants ← body.constants.mapM constant
  let signals ← body.signals.mapM signal
  return ⟨⟨entity.name, ports, entity.line⟩,
    some ⟨body.name, body.entityName, signals, constants, body.enums, [], body.line⟩⟩

theorem declarations_outside (entity : Entity TypeMark) (body : Architecture TypeMark) :
    Ensures Scope.IsOutside (declarations entity body) fun _ => True := by
  refine (Ensures.mapM fun decl _ => port_outside decl).bind fun _ _ => ?_
  refine (Ensures.forM fun decl _ => enum_outside decl).bind fun _ _ => ?_
  refine (Ensures.mapM fun decl _ => constant_outside decl).bind fun _ _ => ?_
  exact (Ensures.mapM fun decl _ => signal_outside decl).bind fun _ _ => .pure trivial

theorem outcome_unit (is : parsed.architecture = some body) (scope : Scope) :
    outcome (unit parsed) scope = (outcome (declarations parsed.entity body) scope).bind fun found =>
      (outcome (body.statements.mapM concurrent) found.2).map fun rest =>
        (found.1.withStatements rest.1, rest.2) := by
  simp only [unit, is, architecture, declarations, outcome_bind, outcome_pure, Option.bind_assoc, Option.bind_some,
    Option.map_eq_bind]
  rfl

end Lowering

theorem toOption_lower (parsed : DesignUnit TypeMark) :
    (lower parsed).result.toOption = (Lowering.outcome (Lowering.unit parsed) Scope.empty).map Prod.fst := by
  rw [lower, Traced.result_bind, Lowering.outcome]
  change (((Lowering.unit parsed) Scope.empty).result >>= _).toOption = _
  cases (Lowering.unit parsed Scope.empty).result <;> rfl

theorem lower_eq_ok_iff (is : parsed.architecture = some body) :
    (lower parsed).result = .ok design ↔ (body.statements.flatMap Concurrent.ownKeys).Nodup ∧
      ∃ declared scope, Lowering.outcome (Lowering.declarations parsed.entity body) Scope.empty =
        some (declared, scope) ∧ ∃ lowered, List.Forall₂ (Lowering.LowersAlone scope) body.statements lowered ∧
          design = declared.withStatements lowered := by
  have together {declared : Design} {scope : Scope}
      (declaredOk : Lowering.outcome (Lowering.declarations parsed.entity body) Scope.empty = some (declared, scope))
      {lowered : List (Concurrent DataType)} :
      (∃ after, Lowering.outcome (body.statements.mapM Lowering.concurrent) scope = some (lowered, after)) ↔
        (body.statements.flatMap Concurrent.ownKeys).Nodup ∧
          List.Forall₂ (Lowering.LowersAlone scope) body.statements lowered := by
    obtain ⟨⟨noLocals, noKeys⟩, _⟩ := Lowering.declarations_outside parsed.entity body Scope.empty ⟨rfl, rfl⟩ declared scope
      (toOption_eq_some.mp declaredOk)
    have same : scope.withKeys [] = scope := by rw [Scope.withKeys, ← noKeys]
    have lowers := Lowering.lowers_iff noLocals noKeys body.statements lowered []
    rw [same] at lowers
    exact lowers.trans (and_congr_right fun _ => and_iff_right (List.disjoint_nil_right _))
  rw [← toOption_eq_some, toOption_lower, Lowering.outcome_unit is, Option.map_eq_some_iff]
  constructor
  · rintro ⟨⟨_, after⟩, ok, rfl⟩
    obtain ⟨⟨declared, scope⟩, declaredOk, ok⟩ := Option.bind_eq_some_iff.mp ok
    obtain ⟨⟨lowered, _⟩, loweredOk, same⟩ := Option.map_eq_some_iff.mp ok
    cases same
    obtain ⟨distinct, each⟩ := (together declaredOk).mp ⟨_, loweredOk⟩
    exact ⟨distinct, declared, scope, declaredOk, lowered, each, rfl⟩
  · rintro ⟨distinct, declared, scope, declaredOk, lowered, each, rfl⟩
    obtain ⟨after, loweredOk⟩ := (together declaredOk).mpr ⟨distinct, each⟩
    exact ⟨(_, after), by rw [declaredOk, Option.bind_some, loweredOk]; rfl, rfl⟩

end RtlBridge.Vhdl

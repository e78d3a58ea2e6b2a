import RtlBridge.Proofs.Vhdl.Scoping

/-! The objects of a lowered design are those of the unit it comes from, with the types that their marks stand
for. A mark is resolved where its declaration stands; what it is resolved by, constants and enumerations, is the
same at the end of the design. -/

namespace RtlBridge.Vhdl

def DesignUnit.objects {τ : Type} (unit : DesignUnit τ) : List (String × τ) :=
  unit.entity.ports.map (fun port => (port.name, port.type)) ++ match unit.architecture with
    | none => []
    | some body =>
      body.constants.map (fun decl => (decl.name, decl.type)) ++
        body.signals.map (fun decl => (decl.name, decl.type)) ++
        body.processes.flatMap fun block => block.vars.map fun decl => (decl.name, decl.type)

/-! ### Earlier and later scopes -/

theorem Symbols.find?_insert (symbols : Symbols) (symbol : Symbol) (key : String) :
    (symbols.insert symbol).find? key = if key = Text.lower symbol.name then some symbol else symbols.find? key := by
  rw [find?, insert, List.lookup_cons]
  by_cases same : key = Text.lower symbol.name
  · rw [if_pos same, same, BEq.rfl]
  · rw [if_neg same, beq_eq_false_iff_ne.mpr same]
    rfl

theorem Scope.lookup_congr (scope : Scope) (same : Text.lower spelling = Text.lower name) :
    scope.lookup spelling = scope.lookup name := by rw [lookup, lookup, same]

/-- A later scope has one name more. -/
structure Scope.Adds (earlier : Scope) (symbol : Symbol) (later : Scope) : Prop where
  new : earlier.lookup symbol.name = none
  lookup : ∀ name, later.lookup name =
    if Text.lower name = Text.lower symbol.name then some symbol else earlier.lookup name
  enums : later.enums = earlier.enums

namespace Scope.Adds

variable {earlier later : Scope}

theorem of_declare (ok : (Lowering.declare line symbol earlier).result = .ok (value, later)) :
    earlier.Adds symbol later := by
  obtain ⟨outer, inner, rfl⟩ := Lowering.declare_eq_ok ok
  refine ⟨by rw [Scope.lookup, outer, inner]; rfl, fun name => ?_, rfl⟩
  rw [Scope.lookup, Symbols.find?_insert]
  split
  · rename_i same
    rw [same, inner]
    rfl
  · rfl

theorem port (ok : (Lowering.port decl earlier).result = .ok (lowered, later)) :
    lowered.name = decl.name ∧ (earlier.resolve decl.type).result = .ok lowered.type ∧
      earlier.Adds ⟨decl.name, .port, some lowered.type, none⟩ later := by
  obtain ⟨type, typeOk, rfl, declareOk⟩ := Lowering.port_eq_ok ok
  exact ⟨rfl, typeOk, of_declare declareOk⟩

theorem constant (ok : (Lowering.constant decl earlier).result = .ok (lowered, later)) :
    lowered.name = decl.name ∧ (earlier.resolve decl.type).result = .ok lowered.type ∧
      earlier.Adds ⟨decl.name, .constant, some lowered.type, earlier.static? lowered.value⟩ later := by
  obtain ⟨type, value, typeOk, _, rfl, declareOk⟩ := Lowering.constant_eq_ok ok
  exact ⟨rfl, typeOk, of_declare declareOk⟩

theorem signal (ok : (Lowering.signal decl earlier).result = .ok (lowered, later)) :
    lowered.name = decl.name ∧ (earlier.resolve decl.type).result = .ok lowered.type ∧
      earlier.Adds ⟨decl.name, .signal, some lowered.type, none⟩ later := by
  obtain ⟨type, init, typeOk, _, rfl, declareOk⟩ := Lowering.signal_eq_ok ok
  exact ⟨rfl, typeOk, of_declare declareOk⟩

theorem variableDecl (ok : (Lowering.variableDecl decl earlier).result = .ok (lowered, later)) :
    lowered.name = decl.name ∧ (earlier.resolve decl.type).result = .ok lowered.type ∧
      earlier.Adds ⟨decl.name, .var, some lowered.type, none⟩ later := by
  obtain ⟨type, init, typeOk, _, outer, inner, _, rfl, rfl⟩ := Lowering.variableDecl_eq_ok ok
  refine ⟨rfl, typeOk, by rw [Scope.lookup, outer, inner]; rfl, fun name => ?_, rfl⟩
  rw [Scope.lookup, declareVariable, Symbols.find?_insert]
  split <;> rfl

theorem found (adds : earlier.Adds symbol later) (found : earlier.lookup name = some other) :
    later.lookup name = some other := by
  rw [adds.lookup, if_neg, found]
  intro same
  rw [lookup_congr earlier same, adds.new] at found
  cases found

end Scope.Adds

/-- A later scope has the constants and the enumerations of an earlier one. -/
structure Scope.Keeps (earlier later : Scope) : Prop where
  constants : ∀ name symbol, earlier.lookup name = some symbol → symbol.role = .constant →
    later.lookup name = some symbol
  enums : earlier.enums ⊆ later.enums

namespace Scope.Keeps

variable {earlier later : Scope}

theorem refl (scope : Scope) : scope.Keeps scope := ⟨fun _ _ found _ => found, fun _ => id⟩

theorem trans (first : earlier.Keeps middle) (second : middle.Keeps later) : earlier.Keeps later := by
  refine ⟨fun name symbol found isConstant => ?_, fun entry member => second.enums (first.enums member)⟩
  exact second.constants name symbol (first.constants name symbol found isConstant) isConstant

theorem static? (keeps : earlier.Keeps later) (value : earlier.static? expr = some n) : later.static? expr = some n := by
  induction expr using Expr.induction generalizing n with
  | name spelling line =>
    rw [Scope.static?] at value ⊢
    split at value
    · rename_i symbol found
      split at value
      · rename_i isConstant
        rw [keeps.constants spelling symbol found isConstant]
        simpa [isConstant] using value
      · cases value
    · cases value
  | literal digits line => cases digits <;> exact value
  | binary op lhs rhs line inLeft inRight =>
    have both {f : Int → Int → Int} (value : (do return f (← earlier.static? lhs) (← earlier.static? rhs)) = some n) :
        (do return f (← later.static? lhs) (← later.static? rhs)) = some n := by
      obtain ⟨a, isLeft, value⟩ := Option.bind_eq_some_iff.mp value
      obtain ⟨b, isRight, value⟩ := Option.bind_eq_some_iff.mp value
      rw [inLeft isLeft, inRight isRight]
      exact value
    cases op with
    | add | sub | mul => exact both value
    | _ => cases value
  | unary op operand line inOperand =>
    cases op with
    | minus =>
      obtain ⟨a, isOperand, value⟩ := Option.map_eq_some_iff.mp value
      rw [Scope.static?, inOperand isOperand]
      exact congrArg some value
    | _ => cases value
  | _ => cases value

theorem of_adds (adds : earlier.Adds symbol later) : earlier.Keeps later :=
  ⟨fun _ _ found _ => adds.found found, adds.enums ▸ fun _ => id⟩

theorem of_models {globals : List (String × NameInfo)} (decls : List (ObjectDecl DataType))
    (models : earlier.Models globals (objectInfos .var decls) vars) :
    earlier.Keeps { earlier with locals := .empty } := by
  refine ⟨fun name symbol found isConstant => ?_, fun _ => id⟩
  rw [Scope.lookup, Option.or_eq_some_iff] at found
  rcases found with inner | ⟨_, outer⟩
  · have member := Scope.mem_of_lookup_eq_some inner
    have declared : symbol.entry ∈ earlier.locals.declared := by
      simp only [Symbols.declared, List.mem_map, List.mem_reverse]
      exact ⟨_, member, rfl⟩
    rw [models.inner] at declared
    obtain ⟨decl, _, same⟩ := List.mem_map.mp declared
    have isVar : symbol.role = .var := congrArg (fun entry => entry.2.role) same.symm
    rw [isVar] at isConstant
    cases isConstant
  · exact outer

end Scope.Keeps

/-- What type marks stand for. -/
inductive Scope.StandsFor (scope : Scope) (mark : TypeMark) : DataType → Prop where
  | plain {type : DataType} (isPlain : type = .bit ∨ type = .integer ∨ type = .natural)
      (notVector : vectorMark? (Text.lower mark.name) = none) : StandsFor scope mark type
  | vector {signed : Bool} {bounds : Bounds} {left right : Int}
      (isVector : vectorMark? (Text.lower mark.name) = some signed) (isBounds : mark.bounds = some bounds)
      (isLeft : scope.static? bounds.left = some left) (isRight : scope.static? bounds.right = some right) :
      StandsFor scope mark (.vector (.between left right signed))
  | enum {enum : EnumType} (notVector : vectorMark? (Text.lower mark.name) = none)
      (found : (Text.lower mark.name, enum) ∈ scope.enums) : StandsFor scope mark (.enum enum)

theorem Scope.staticBound_eq_ok {scope : Scope} (ok : scope.staticBound line bound = .ok n)
    : scope.static? bound = some n := by
  unfold staticBound at ok
  split at ok
  · cases ok
    assumption
  · nomatch ok

theorem Scope.resolve_eq_ok {scope : Scope} {mark : TypeMark} (ok : (scope.resolve mark).result = .ok type)
    : scope.StandsFor mark type := by
  have plainMarks : ∀ key, isBitMark key = true ∨ key = "integer" ∨ key = "natural" ∨ key = "positive" →
      vectorMark? key = none := by
    intro key isPlain
    simp only [isBitMark, List.contains_iff_mem, List.mem_cons, List.not_mem_nil, or_false] at isPlain
    obtain (rfl | rfl | rfl | rfl) | rfl | rfl | rfl := isPlain <;> decide
  simp only [Scope.resolve] at ok
  split at ok
  · rename_i isBit
    cases ok
    exact .plain (.inl rfl) (plainMarks _ (.inl isBit))
  · split at ok
    · rename_i isInteger
      cases ok
      exact .plain (.inr (.inl rfl)) (plainMarks _ (.inr (.inl isInteger)))
    · split at ok
      · rename_i isNatural
        cases ok
        simp only [Bool.or_eq_true, decide_eq_true_eq] at isNatural
        exact .plain (.inr (.inr rfl)) (plainMarks _ (.inr (.inr isNatural)))
      · split at ok
        · cases ok
        · rename_i signed bounds isVector isBounds
          simp only [Traced.result_bind] at ok
          obtain ⟨left, isLeft, ok⟩ := bind_eq_ok.mp ok
          obtain ⟨right, isRight, ok⟩ := bind_eq_ok.mp ok
          have same : type = .vector (.between left right signed) := by
            split at ok
            · cases ok
              rfl
            · cases ok
              rfl
          rw [same]
          exact .vector isVector isBounds (staticBound_eq_ok isLeft) (staticBound_eq_ok isRight)
        · rename_i notVector
          split at ok
          · rename_i found
            cases ok
            exact .enum notVector (mem_of_lookup_eq_some found)
          · cases ok

/-- A type that a mark stands for in an earlier scope, or in this one. -/
def Scope.Resolved (scope : Scope) (mark : TypeMark) (type : DataType) : Prop :=
  ∃ earlier : Scope, earlier.Keeps scope ∧ (earlier.resolve mark).result = .ok type

theorem Scope.Resolved.mono {earlier : Scope} (keeps : earlier.Keeps later) {mark : TypeMark}
    (resolved : earlier.Resolved mark type) : later.Resolved mark type := by
  obtain ⟨first, before, ok⟩ := resolved
  exact ⟨first, before.trans keeps, ok⟩

def Scope.LoweredTo (scope : Scope) (source : String × TypeMark) (result : String × DataType) : Prop :=
  result.1 = source.1 ∧ scope.Resolved source.2 result.2

theorem Scope.LoweredTo.mono {earlier : Scope} (keeps : earlier.Keeps later)
    (lowered : List.Forall₂ earlier.LoweredTo sources results) : List.Forall₂ later.LoweredTo sources results :=
  lowered.imp fun _ _ one => ⟨one.1, one.2.mono keeps⟩

/-! ### Runs -/

theorem objects_run {α β : Type} {step : α → Lowering β} (source : α → String × TypeMark)
    (result : β → String × DataType) {symbol : α → β → Scope → Symbol}
    (each : ∀ item value state after, (step item state).result = .ok (value, after) →
      (result value).1 = (source item).1 ∧ (state.resolve (source item).2).result = .ok (result value).2 ∧
        state.Adds (symbol item value state) after) {items : List α} {values : List β}
    (ok : (items.mapM step state).result = .ok (values, after)) :
    state.Keeps after ∧ after.enums = state.enums ∧
      List.Forall₂ after.LoweredTo (items.map source) (values.map result) := by
  refine mapM_run ?_ ⟨.refl state, rfl, .nil⟩ ok
  rintro done yielded item value middle after ⟨before, sameEnums, lowered⟩ ok
  obtain ⟨sameName, resolved, adds⟩ := each item value middle after ok
  have keeps := Scope.Keeps.of_adds adds
  refine ⟨before.trans keeps, adds.enums.trans sameEnums, ?_⟩
  rw [List.map_append, List.map_append]
  exact List.rel_append (Scope.LoweredTo.mono keeps lowered) (.cons ⟨sameName, middle, keeps, resolved⟩ .nil)

theorem enums_objects {enums : List EnumDecl} (ok : (enums.forM Lowering.enum state).result = .ok (value, after)) :
    state.Keeps after ∧ ∀ entry ∈ after.enums, entry ∈ state.enums ∨ ∃ decl ∈ enums, decl.type = entry.2 := by
  refine forM_run ?_ ⟨.refl state, fun entry => .inl⟩ ok
  rintro done decl middle after ⟨before, each⟩ ok
  have declared := Lowering.enum_eq_ok ok
  obtain ⟨keeps, sameEnums⟩ := forM_run (motive := fun _ after =>
    Scope.Keeps { middle with enums := (Text.lower decl.type.name, decl.type) :: middle.enums } after ∧
      after.enums = (Text.lower decl.type.name, decl.type) :: middle.enums)
    (fun _ _ _ _ holds ok =>
      have adds := Scope.Adds.of_declare ok
      ⟨holds.1.trans (.of_adds adds), adds.enums.trans holds.2⟩) ⟨.refl _, rfl⟩ declared
  have entered : middle.Keeps { middle with enums := (Text.lower decl.type.name, decl.type) :: middle.enums } :=
    ⟨fun _ _ found _ => found, List.subset_cons_self ..⟩
  refine ⟨before.trans (entered.trans keeps), fun entry member => ?_⟩
  rw [sameEnums] at member
  rcases List.mem_cons.mp member with rfl | earlier
  · exact .inr ⟨decl, by simp, rfl⟩
  · refine (each entry earlier).imp_right fun ⟨found, inDone, same⟩ => ?_
    exact ⟨found, List.mem_append_left _ inDone, same⟩

theorem process_objects (models : state.Models globals [] vars)
    (ok : (Lowering.processBlock block state).result = .ok (lowered, after)) :
    state.Keeps after ∧ after.enums = state.enums ∧ List.Forall₂ after.LoweredTo
      (block.vars.map fun decl => (decl.name, decl.type)) (lowered.vars.map fun decl => (decl.name, decl.type)) := by
  obtain ⟨inside, varsOk, _, _, _, rfl⟩ := Lowering.processBlock_eq_ok ok
  obtain ⟨keeps, sameEnums, vars⟩ := objects_run (fun decl => (decl.name, decl.type))
    (fun decl => (decl.name, decl.type)) (fun _ _ _ _ => Scope.Adds.variableDecl) varsOk
  have entered : state.Keeps { state with locals := .empty } := Scope.Keeps.of_models [] models
  have left := Scope.Keeps.of_models _ (models.leave.declareVariables varsOk).1
  exact ⟨entered.trans (keeps.trans left), sameEnums, Scope.LoweredTo.mono left vars⟩

def variablesOf {τ : Type} (statements : List (Concurrent τ)) : List (String × τ) :=
  (statements.filterMap Concurrent.process?).flatMap fun block => block.vars.map fun decl => (decl.name, decl.type)

theorem variablesOf_snoc {τ : Type} (statements : List (Concurrent τ)) (stmt : Concurrent τ) :
    variablesOf (statements ++ [stmt]) = variablesOf statements ++ variablesOf [stmt] := by
  rw [variablesOf, List.filterMap_append, List.flatMap_append]
  rfl

theorem variablesOf_process {τ : Type} (block : ProcessBlock τ) :
    variablesOf [.process block] = block.vars.map fun decl => (decl.name, decl.type) := by
  simp [variablesOf, Concurrent.process?]

theorem statements_objects (models : state.Models globals [] []) (outer : ∀ entry ∈ globals, entry.2.role ≠ .var)
    (ok : (stmts.mapM Lowering.concurrent state).result = .ok (lowered, after)) :
    state.Keeps after ∧ after.enums = state.enums ∧
      List.Forall₂ after.LoweredTo (variablesOf stmts) (variablesOf lowered) := by
  suffices run : (∃ vars, after.Models globals [] vars) ∧ state.Keeps after ∧ after.enums = state.enums ∧
      List.Forall₂ after.LoweredTo (variablesOf stmts) (variablesOf lowered) from run.2
  refine mapM_run ?_ ⟨⟨[], models⟩, .refl state, rfl, .nil⟩ ok
  rintro done yielded stmt value middle after ⟨⟨vars, models⟩, before, sameEnums, each⟩ ok
  have further := (models.concurrent outer ok).1
  have step : middle.Keeps after ∧ after.enums = middle.enums ∧
      List.Forall₂ after.LoweredTo (variablesOf [stmt]) (variablesOf [value]) := by
    cases Lowering.concurrent_eq_ok ok with
    | process blockOk =>
      rw [variablesOf_process, variablesOf_process]
      exact process_objects models blockOk
    | _ => exact ⟨.refl _, rfl, .nil⟩
  obtain ⟨keeps, same, own⟩ := step
  refine ⟨⟨_, further⟩, before.trans keeps, same.trans sameEnums, ?_⟩
  rw [variablesOf_snoc, variablesOf_snoc]
  exact List.rel_append (Scope.LoweredTo.mono keeps each) own

/-- The scope at the end of a design; an empty one if it cannot be lowered. -/
def finalScope (parsed : DesignUnit TypeMark) : Scope :=
  match (Lowering.unit parsed Scope.empty).result with
  | .ok (_, scope) => scope
  | .error _ => .empty

theorem unit_of_lower (ok : (lower parsed).result = .ok design) :
    (Lowering.unit parsed Scope.empty).result = .ok (design, finalScope parsed) := by
  simp only [lower, Traced.result_bind] at ok
  obtain ⟨⟨lowered, after⟩, unitOk, ok⟩ := bind_eq_ok.mp ok
  cases ok
  have unitOk : (Lowering.unit parsed Scope.empty).result = .ok (lowered, after) := unitOk
  rw [finalScope, unitOk]

theorem objects_of_lower (ok : (lower parsed).result = .ok design) :
    List.Forall₂ (finalScope parsed).LoweredTo parsed.objects design.objects ∧
      ∀ entry ∈ (finalScope parsed).enums, ∃ body decl, design.architecture = some body ∧ decl ∈ body.enums ∧
        decl.type = entry.2 := by
  have unitOk := unit_of_lower ok
  generalize finalScope parsed = scope at unitOk
  obtain ⟨first, portsOk, _, rest⟩ := Lowering.unit_eq_ok unitOk
  have withPorts := ports_run portsOk
  obtain ⟨_, noEnums, ports⟩ := objects_run (fun port => (port.name, port.type)) (fun port => (port.name, port.type))
    (fun _ _ _ _ => Scope.Adds.port) portsOk
  rcases rest with ⟨noBody, is, rfl⟩ | ⟨body, lowered, isBody, is, bodyOk⟩
  · simp only [DesignUnit.objects, noBody, is, List.append_nil]
    refine ⟨ports, ?_⟩
    rw [noEnums]
    exact List.forall_mem_nil _
  · obtain ⟨_, _, _, enumsOk, constantsOk, signalsOk, stmtsOk, sameEnums⟩ := Lowering.architecture_eq_ok bodyOk
    have withEnums := enums_run withPorts enumsOk
    have withConstants := (constants_run withEnums constantsOk).1
    have withSignals := (signals_run withConstants signalsOk).1
    have isGlobals := Design.globals_of_architecture is
    rw [sameEnums] at isGlobals
    rw [← isGlobals] at withSignals
    obtain ⟨enumsKeep, enumsEach⟩ := enums_objects enumsOk
    obtain ⟨constantsKeep, sameConstants, constants⟩ := objects_run (fun decl => (decl.name, decl.type))
      (fun decl => (decl.name, decl.type)) (fun _ _ _ _ => Scope.Adds.constant) constantsOk
    obtain ⟨signalsKeep, sameSignals, signals⟩ := objects_run (fun decl => (decl.name, decl.type))
      (fun decl => (decl.name, decl.type)) (fun _ _ _ _ => Scope.Adds.signal) signalsOk
    obtain ⟨stmtsKeep, sameStmts, vars⟩ := statements_objects withSignals (fun _ => role_of_mem_globals) stmtsOk
    constructor
    · simp only [DesignUnit.objects, isBody, is]
      have portsKeep := enumsKeep.trans (constantsKeep.trans (signalsKeep.trans stmtsKeep))
      refine List.rel_append (Scope.LoweredTo.mono portsKeep ports) (List.rel_append (List.rel_append ?_ ?_) vars)
      · exact Scope.LoweredTo.mono (signalsKeep.trans stmtsKeep) constants
      · exact Scope.LoweredTo.mono stmtsKeep signals
    · intro entry member
      rw [sameStmts, sameSignals, sameConstants] at member
      rcases enumsEach entry member with before | ⟨decl, inBody, same⟩
      · rw [noEnums] at before
        cases before
      · exact ⟨lowered, decl, is, sameEnums ▸ inBody, same⟩

end RtlBridge.Vhdl

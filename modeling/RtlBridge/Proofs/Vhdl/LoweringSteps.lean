import Mathlib.Data.List.Nodup
import RtlBridge.Proofs.Vhdl.Shape
import RtlBridge.Vhdl.Lowering

/-! What each step of lowering does when it ends well. Lists are lowered element by element, and a
declaration adds one symbol to the scope, whose name is new to it. -/

namespace RtlBridge

open List

namespace Vhdl

/-! ### Names -/

namespace Scope

theorem mem_of_lookup_eq_some {α : Type} {entries : List (String × α)} {value : α}
    (found : entries.lookup key = some value) : (key, value) ∈ entries := by
  obtain ⟨before, after, split, _⟩ := lookup_eq_some_iff.mp found
  simp [split]

theorem mem_of_lookup {scope : Scope} (found : scope.lookup name = some symbol) :
    (Text.lower name, symbol) ∈ scope.locals.entries ∨ (Text.lower name, symbol) ∈ scope.globals.entries := by
  rw [lookup, Option.or_eq_some_iff] at found
  rcases found with inner | ⟨_, outer⟩
  · exact .inl (mem_of_lookup_eq_some inner)
  · exact .inr (mem_of_lookup_eq_some outer)

theorem lookup_declared {scope : Scope} (found : scope.lookup name = some symbol)
    : scope.lookup symbol.name = some symbol := by
  have sameKey : Text.lower symbol.name = Text.lower name := by
    rcases mem_of_lookup found with inner | outer
    · exact (scope.locals.keyed _ inner).symm
    · exact (scope.globals.keyed _ outer).symm
  rw [lookup, sameKey]
  exact found

end Scope

theorem spell_eq_ok {scope : Scope} (ok : scope.spell spelling line = .ok symbol) : scope.lookup spelling = some symbol := by
  rw [Scope.spell] at ok
  split at ok
  · rename_i found
    cases ok
    exact found
  · cases ok

theorem arity?_of_checkCall (ok : checkCall function arguments line = .ok ⟨⟩) :
    Builtin.arity? (Text.lower function) = some arguments.length := by
  unfold checkCall at ok
  dsimp only at ok
  split at ok
  · cases ok
  · rename_i arity isArity
    split at ok
    · cases ok
    · rename_i same
      rw [isArity, Decidable.not_not.mp same]

/-! ### Expressions -/

section

variable {scope : Scope} {owner : Option String}

namespace Expr

theorem lowerAll_eq_mapM : ∀ list, lower.lowerAll scope owner list = list.mapM (lower scope owner) :=
  eq_mapM rfl fun _ _ => rfl

theorem lowerAll_eq_ok (ok : lower.lowerAll scope owner list = .ok result) :
    Forall₂ (fun expr lowered => expr.lower scope owner = .ok lowered) list result :=
  mapM_eq_ok_iff.mp (lowerAll_eq_mapM list ▸ ok)

inductive LowersTo (scope : Scope) (owner : Option String) : Expr → Expr → Prop where
  | name (found : scope.lookup spelling = some symbol) :
      LowersTo scope owner (.name spelling line) (.name symbol.name line)
  | literal : LowersTo scope owner (.literal value line) (.literal value line)
  | binary (leftOk : lhs.lower scope owner = .ok left) (rightOk : rhs.lower scope owner = .ok right) :
      LowersTo scope owner (.binary op lhs rhs line) (.binary op left right line)
  | unary {inner : Expr} (innerOk : operand.lower scope owner = .ok inner) :
      LowersTo scope owner (.unary op operand line) (.unary op inner line)
  | element {inner : Expr} (found : scope.lookup function = some symbol)
      (innerOk : subscript.lower scope owner = .ok inner) :
      LowersTo scope owner (.call function [subscript] line) (.index (.name symbol.name line) inner line)
  | call (checked : checkCall function arguments line = .ok (⟨⟩ : PUnit.{1}))
      (resultOk : Forall₂ (fun expr lowered => expr.lower scope owner = .ok lowered) arguments result) :
      LowersTo scope owner (.call function arguments line) (.call (Text.lower function) result line)
  | aggregate {inner : Expr} {after : Site} (same : after.position = site.position)
      (innerOk : fill.lower scope owner = .ok inner) :
      LowersTo scope owner (.aggregate fill site line) (.aggregate inner after line)
  | concat (resultOk : Forall₂ (fun expr lowered => expr.lower scope owner = .ok lowered) parts result) :
      LowersTo scope owner (.concat parts line) (.concat result line)
  | index {inner : Expr} (baseOk : base.lower scope owner = .ok inner)
      (placeOk : subscript.lower scope owner = .ok place) :
      LowersTo scope owner (.index base subscript line) (.index inner place line)
  | slice {inner : Expr} (baseOk : base.lower scope owner = .ok inner) (leftOk : left.lower scope owner = .ok high)
      (rightOk : right.lower scope owner = .ok low) :
      LowersTo scope owner (.slice base left right line) (.slice inner high low line)
  | event (baseOk : base.lower scope owner = .ok (.name spelling place)) :
      LowersTo scope owner (.tick base "event" line) (.tick (.name spelling place) "event" line)
  | number (n : Int) :
      LowersTo scope owner (.tick base property line) (.literal (.decimal (toString n)) line)

theorem lower_eq_ok (ok : expr.lower scope owner = .ok lowered) : LowersTo scope owner expr lowered := by
  cases expr with
  | name spelling line =>
    rw [lower] at ok
    obtain ⟨symbol, spelled, ok⟩ := bind_eq_ok.mp ok
    cases ok
    exact .name (spell_eq_ok spelled)
  | literal value line =>
    cases ok
    exact .literal
  | binary op lhs rhs line =>
    rw [lower] at ok
    obtain ⟨left, leftOk, ok⟩ := bind_eq_ok.mp ok
    obtain ⟨right, rightOk, ok⟩ := bind_eq_ok.mp ok
    cases ok
    exact .binary leftOk rightOk
  | unary op operand line =>
    rw [lower] at ok
    obtain ⟨inner, innerOk, ok⟩ := bind_eq_ok.mp ok
    cases ok
    exact .unary innerOk
  | call function arguments line =>
    unfold lower at ok
    split at ok
    · rename_i symbol found
      split at ok
      · obtain ⟨inner, innerOk, ok⟩ := bind_eq_ok.mp ok
        cases ok
        exact .element (Option.filter_eq_some_iff.mp found).1 innerOk
      · cases ok
    · obtain ⟨⟨⟩, checked, ok⟩ := bind_eq_ok.mp ok
      obtain ⟨result, resultOk, ok⟩ := bind_eq_ok.mp ok
      cases ok
      exact .call checked (lowerAll_eq_ok resultOk)
  | aggregate fill site line =>
    rw [lower] at ok
    obtain ⟨inner, innerOk, ok⟩ := bind_eq_ok.mp ok
    cases ok
    -- Only the owner of a site changes.
    exact .aggregate (by split <;> rfl) innerOk
  | concat parts line =>
    rw [lower] at ok
    obtain ⟨result, resultOk, ok⟩ := bind_eq_ok.mp ok
    cases ok
    exact .concat (lowerAll_eq_ok resultOk)
  | index base subscript line =>
    rw [lower] at ok
    obtain ⟨inner, innerOk, ok⟩ := bind_eq_ok.mp ok
    obtain ⟨place, placeOk, ok⟩ := bind_eq_ok.mp ok
    cases ok
    exact .index innerOk placeOk
  | slice base left right line =>
    rw [lower] at ok
    obtain ⟨inner, innerOk, ok⟩ := bind_eq_ok.mp ok
    obtain ⟨high, highOk, ok⟩ := bind_eq_ok.mp ok
    obtain ⟨low, lowOk, ok⟩ := bind_eq_ok.mp ok
    cases ok
    exact .slice innerOk highOk lowOk
  | tick base property line =>
    rw [lower] at ok
    obtain ⟨inner, innerOk, ok⟩ := bind_eq_ok.mp ok
    unfold lowerTick at ok
    split at ok
    · split at ok
      · rename_i isEvent
        subst isEvent
        cases ok
        exact .event innerOk
      · split at ok
        · split at ok
          · cases ok
            exact .number _
          · cases ok
        · cases ok
    · cases ok

theorem isName_of_lower {expr : Expr} (name : expr.isName = true) (ok : expr.lower scope owner = .ok lowered)
    : lowered.isName = true := by
  cases lower_eq_ok ok with
  | name found => rfl
  | _ => cases name

theorem source_of_child (lowers : LowersTo scope owner expr lowered) (member : child ∈ lowered.children) :
    (∃ source ∈ expr.children, source.lower scope owner = .ok child) ∨
      ∃ name symbol line, scope.lookup name = some symbol ∧ child = .name symbol.name line := by
  have inList {list result : List Expr} (member : child ∈ result)
      (ok : Forall₂ (fun expr lowered => expr.lower scope owner = .ok lowered) list result) :
      ∃ source ∈ list, source.lower scope owner = .ok child := source_of_mem ok member
  cases lowers with
  | element found innerOk =>
    rcases mem_cons.mp member with rfl | isInner
    · exact .inr ⟨_, _, _, found, rfl⟩
    · exact .inl (inList isInner (.cons innerOk .nil))
  | binary leftOk rightOk => exact .inl (inList member (.cons leftOk (.cons rightOk .nil)))
  | unary innerOk | aggregate same innerOk => exact .inl (inList member (.cons innerOk .nil))
  | call checked resultOk | concat resultOk => exact .inl (inList member resultOk)
  | index baseOk placeOk => exact .inl (inList member (.cons baseOk (.cons placeOk .nil)))
  | slice baseOk leftOk rightOk => exact .inl (inList member (.cons baseOk (.cons leftOk (.cons rightOk .nil))))
  | event baseOk => exact .inl (inList member (.cons baseOk .nil))
  | name | literal | number => cases member

theorem all_of_lower {before after : Expr → Prop}
    (named : ∀ name symbol line, scope.lookup name = some symbol → after (.name symbol.name line))
    (each : ∀ expr lowered, before expr → LowersTo scope owner expr lowered → after lowered)
    (expr : Expr) (all : expr.All before) {lowered : Expr} (ok : expr.lower scope owner = .ok lowered) :
    lowered.All after := by
  induction expr using childInduction generalizing lowered with
  | step expr ih =>
    rw [all_iff] at all ⊢
    refine ⟨each _ _ all.1 (lower_eq_ok ok), fun child member => ?_⟩
    obtain ⟨source, isChild, sourceOk⟩ | ⟨name, symbol, line, found, rfl⟩ := source_of_child (lower_eq_ok ok) member
    · exact ih source isChild (all.2 source isChild) sourceOk
    · exact named name symbol line found

end Expr

end

/-! ### Statements -/

section

variable {scope : Scope} {before after : Expr → Prop}

theorem lowerBody_eq_mapM : ∀ body, lowerBody scope body = body.mapM (Stmt.lower scope) := eq_mapM rfl fun _ _ => rfl

theorem lowerBranches_eq_mapM : ∀ branches, lowerBranches scope branches = branches.mapM fun branch => do
    return (← branch.1.lower scope none, ← lowerBody scope branch.2) :=
  eq_mapM rfl fun _ _ => by simp only [lowerBranches, bind_assoc, pure_bind]

theorem lowerArms_eq_mapM : ∀ arms, lowerArms scope arms = arms.mapM fun arm => do
    return (← Expr.lower.lowerAll scope none arm.1, ← lowerBody scope arm.2) :=
  eq_mapM rfl fun _ _ => by simp only [lowerArms, bind_assoc, pure_bind]

theorem Lowering.choices_eq_mapM : ∀ pairs, choices scope pairs = pairs.mapM fun pair => do
    return (← pair.1.lower scope none, ← pair.2.lower scope none) :=
  eq_mapM rfl fun _ _ => by simp only [choices, bind_assoc, pure_bind]

theorem lowerBody_eq_ok (ok : lowerBody scope body = .ok lowered) :
    Forall₂ (fun stmt result => stmt.lower scope = .ok result) body lowered :=
  mapM_eq_ok_iff.mp (lowerBody_eq_mapM body ▸ ok)

theorem lowerBranches_eq_ok (ok : lowerBranches scope branches = .ok lowered) :
    Forall₂ (fun branch result => branch.1.lower scope none = .ok result.1 ∧
      lowerBody scope branch.2 = .ok result.2) branches lowered := by
  rw [lowerBranches_eq_mapM, mapM_eq_ok_iff] at ok
  exact ok.imp fun _ _ => pair_eq_ok

theorem lowerArms_eq_ok (ok : lowerArms scope arms = .ok lowered) :
    Forall₂ (fun arm result => Expr.lower.lowerAll scope none arm.1 = .ok result.1 ∧
      lowerBody scope arm.2 = .ok result.2) arms lowered := by
  rw [lowerArms_eq_mapM, mapM_eq_ok_iff] at ok
  exact ok.imp fun _ _ => pair_eq_ok

theorem Lowering.choices_eq_ok (ok : choices scope pairs = .ok lowered) :
    Forall₂ (fun pair result => pair.1.lower scope none = .ok result.1 ∧
      pair.2.lower scope none = .ok result.2) pairs lowered := by
  rw [choices_eq_mapM, mapM_eq_ok_iff] at ok
  exact ok.imp fun _ _ => pair_eq_ok

theorem lowerDefault_eq_ok {default : Option (List Stmt)} (ok : lowerDefault scope default = .ok lowered) :
    ∀ result ∈ lowered, ∃ body ∈ default, lowerBody scope body = .ok result := by
  cases default with
  | none =>
    cases ok
    nofun
  | some body =>
    rw [lowerDefault] at ok
    obtain ⟨inner, innerOk, ok⟩ := bind_eq_ok.mp ok
    cases ok
    rintro _ ⟨⟩
    exact ⟨body, rfl, innerOk⟩

inductive Stmt.LowersTo (scope : Scope) : Stmt → Stmt → Prop where
  | assign {inner : Expr} {line : Nat} (placeOk : target.lower scope = .ok (place, symbol))
      (innerOk : value.lower scope none = .ok inner)
      (checked : symbol.checkAssignment immediate line = .ok (⟨⟩ : PUnit.{1})) :
      LowersTo scope (.assign target value immediate line) (.assign place inner immediate line)
  | conditional {line : Nat} (listOk : lowerBranches scope branches = .ok list)
      (restOk : lowerBody scope otherwise = .ok rest) :
      LowersTo scope (.conditional branches otherwise line) (.conditional list rest line)
  | selection {default : Option (List Stmt)} {line : Nat} (valueOk : selector.lower scope none = .ok value)
      (listOk : lowerArms scope arms = .ok list) (lastOk : lowerDefault scope default = .ok last) :
      LowersTo scope (.selection selector arms default line) (.selection value list last line)
  | captured : LowersTo scope (.captured statement) (.captured statement)

theorem Stmt.lower_eq_ok (ok : stmt.lower scope = .ok lowered) : LowersTo scope stmt lowered := by
  cases stmt with
  | assign target value immediate line =>
    rw [Stmt.lower] at ok
    obtain ⟨⟨place, symbol⟩, placeOk, ok⟩ := bind_eq_ok.mp ok
    obtain ⟨inner, innerOk, ok⟩ := bind_eq_ok.mp ok
    obtain ⟨⟨⟩, checked, ok⟩ := bind_eq_ok.mp ok
    cases ok
    exact .assign placeOk innerOk checked
  | conditional branches otherwise line =>
    rw [Stmt.lower] at ok
    obtain ⟨list, listOk, ok⟩ := bind_eq_ok.mp ok
    obtain ⟨rest, restOk, ok⟩ := bind_eq_ok.mp ok
    cases ok
    exact .conditional listOk restOk
  | selection selector arms default line =>
    rw [Stmt.lower] at ok
    obtain ⟨value, valueOk, ok⟩ := bind_eq_ok.mp ok
    obtain ⟨list, listOk, ok⟩ := bind_eq_ok.mp ok
    obtain ⟨last, lastOk, ok⟩ := bind_eq_ok.mp ok
    cases ok
    exact .selection valueOk listOk lastOk
  | captured statement =>
    cases ok
    exact .captured

theorem Stmt.source_of_child (lowers : LowersTo scope stmt lowered) (member : child ∈ lowered.children) :
    ∃ source ∈ stmt.children, source.lower scope = .ok child := by
  cases lowers with
  | assign | captured => cases member
  | conditional listOk restOk =>
    rcases mem_append.mp member with inList | inRest
    · obtain ⟨result, isResult, inResult⟩ := mem_flatMap.mp inList
      obtain ⟨branch, isBranch, _, bodyOk⟩ := source_of_mem (lowerBranches_eq_ok listOk) isResult
      obtain ⟨source, isSource, sourceOk⟩ := source_of_mem (lowerBody_eq_ok bodyOk) inResult
      exact ⟨source, mem_append_left _ (mem_flatMap.mpr ⟨branch, isBranch, isSource⟩), sourceOk⟩
    · obtain ⟨source, isSource, sourceOk⟩ := source_of_mem (lowerBody_eq_ok restOk) inRest
      exact ⟨source, mem_append_right _ isSource, sourceOk⟩
  | @selection arms list last selector value default line valueOk listOk lastOk =>
    rcases mem_append.mp member with inList | inLast
    · obtain ⟨result, isResult, inResult⟩ := mem_flatMap.mp inList
      obtain ⟨arm, isArm, _, bodyOk⟩ := source_of_mem (lowerArms_eq_ok listOk) isResult
      obtain ⟨source, isSource, sourceOk⟩ := source_of_mem (lowerBody_eq_ok bodyOk) inResult
      exact ⟨source, mem_append_left _ (mem_flatMap.mpr ⟨arm, isArm, isSource⟩), sourceOk⟩
    · cases last with
      | none => cases inLast
      | some result =>
        obtain ⟨body, rfl, bodyOk⟩ := lowerDefault_eq_ok lastOk result rfl
        obtain ⟨source, isSource, sourceOk⟩ := source_of_mem (lowerBody_eq_ok bodyOk) inLast
        exact ⟨source, mem_append_right _ isSource, sourceOk⟩

theorem Stmt.all_of_lower {before after : Stmt → Prop}
    (each : ∀ stmt lowered, before stmt → LowersTo scope stmt lowered → after lowered)
    (stmt : Stmt) (all : stmt.All before) {lowered : Stmt} (ok : stmt.lower scope = .ok lowered) :
    lowered.All after := by
  induction stmt using childInduction generalizing lowered with
  | step stmt ih =>
    rw [all_iff] at all ⊢
    refine ⟨each _ _ all.1 (lower_eq_ok ok), fun child member => ?_⟩
    obtain ⟨source, isChild, sourceOk⟩ := source_of_child (lower_eq_ok ok) member
    exact ih source isChild (all.2 source isChild) sourceOk

theorem Target.lower_eq_ok {target : Target} (ok : target.lower scope = .ok (lowered, symbol)) :
    scope.lookup lowered.name = some symbol ∧ lowered.name = symbol.name ∧ ∀ {before after : Expr → Prop},
      (∀ expr, before expr → ∀ {lowered}, expr.lower scope none = .ok lowered → after lowered) →
        target.part.All before → lowered.part.All after := by
  obtain ⟨name, part, line⟩ := target
  rw [Target.lower] at ok
  obtain ⟨found, spelled, ok⟩ := bind_eq_ok.mp ok
  have declared := Scope.lookup_declared (spell_eq_ok spelled)
  cases part with
  | whole =>
    cases ok
    exact ⟨declared, rfl, fun _ _ => trivial⟩
  | element subscript =>
    obtain ⟨inner, innerOk, ok⟩ := bind_eq_ok.mp ok
    cases ok
    exact ⟨declared, rfl, fun each all => each _ all innerOk⟩
  | range left right =>
    obtain ⟨first, firstOk, ok⟩ := bind_eq_ok.mp ok
    obtain ⟨second, secondOk, ok⟩ := bind_eq_ok.mp ok
    cases ok
    exact ⟨declared, rfl, fun each all => ⟨each _ all.1 firstOk, each _ all.2 secondOk⟩⟩

/-! What lowering makes of single expressions it makes of those in statements and in choices. -/

variable (each : ∀ expr, before expr → ∀ {lowered}, expr.lower scope none = .ok lowered → after lowered)

include each

theorem Stmt.usesNode_of_lower (uses : stmt.UsesNode before) (lowers : LowersTo scope stmt lowered) :
    lowered.UsesNode after := by
  cases lowers with
  | assign placeOk innerOk _ => exact ⟨(Target.lower_eq_ok placeOk).2.2 each uses.1, each _ uses.2 innerOk⟩
  | conditional listOk _ =>
    intro result member
    obtain ⟨branch, isBranch, conditionOk, _⟩ := source_of_mem (lowerBranches_eq_ok listOk) member
    exact each _ (uses branch isBranch) conditionOk
  | selection valueOk listOk _ =>
    refine ⟨each _ uses.1 valueOk, fun result member choice inArm => ?_⟩
    obtain ⟨arm, isArm, choicesOk, _⟩ := source_of_mem (lowerArms_eq_ok listOk) member
    obtain ⟨source, isChoice, sourceOk⟩ := source_of_mem (Expr.lowerAll_eq_ok choicesOk) inArm
    exact each _ (uses.2 arm isArm source isChoice) sourceOk
  | captured => trivial

theorem lowerBody_uses (uses : ∀ stmt ∈ body, stmt.Uses before) (ok : lowerBody scope body = .ok lowered)
    : ∀ stmt ∈ lowered, stmt.Uses after := by
  intro stmt member
  obtain ⟨source, isSource, sourceOk⟩ := source_of_mem (lowerBody_eq_ok ok) member
  exact Stmt.all_of_lower (fun _ _ => Stmt.usesNode_of_lower each) source (uses source isSource) sourceOk

theorem Lowering.choices_use (use : ∀ pair ∈ pairs, before pair.1 ∧ before pair.2)
    (ok : choices scope pairs = .ok lowered) : ∀ pair ∈ lowered, after pair.1 ∧ after pair.2 := by
  intro pair member
  obtain ⟨source, isSource, first, second⟩ := source_of_mem (choices_eq_ok ok) member
  exact ⟨each _ (use source isSource).1 first, each _ (use source isSource).2 second⟩

end

/-! ### Declarations -/

namespace Lowering

variable {scope after : Scope}

theorem bind_resolve_eq_ok {α : Type} {next : DataType → Lowering α} {result : α × Scope}
    (ok : ((resolve mark >>= next) scope).result = .ok result) :
    ∃ type, (scope.resolve mark).result = .ok type ∧ (next type scope).result = .ok result := by
  rw [result_bind_apply, resolve, Traced.result_bind, bind_assoc] at ok
  exact bind_eq_ok.mp ok

theorem declare_eq_ok (ok : (declare line symbol scope).result = .ok (value, after)) :
    scope.globals.find? (Text.lower symbol.name) = none ∧ scope.locals.find? (Text.lower symbol.name) = none ∧
      after = { scope with globals := scope.globals.insert symbol } := by
  rw [declare, Traced.result_bind] at ok
  obtain ⟨found, foundOk, ok⟩ := bind_eq_ok.mp ok
  cases ok
  have declared : scope.declare line symbol = .ok after := foundOk
  rw [Scope.declare] at declared
  split at declared
  · cases declared
  · rename_i new
    cases declared
    obtain ⟨outer, inner⟩ := Option.or_eq_none_iff.mp new
    exact ⟨outer, inner, rfl⟩

theorem initial_eq_ok (ok : (initial owner init scope).result = .ok (lowered, after)) :
    (∀ value ∈ lowered, ∃ source ∈ init, source.lower scope owner = .ok value) ∧ scope = after := by
  cases init with
  | none =>
    cases ok
    exact ⟨nofun, rfl⟩
  | some source =>
    replace ok := bind_get_eq_ok.mp ok
    obtain ⟨value, valueOk, ok⟩ := bind_liftM_eq_ok.mp ok
    cases ok
    refine ⟨?_, rfl⟩
    rintro _ ⟨⟩
    exact ⟨source, rfl, valueOk⟩

theorem port_eq_ok {port : Port TypeMark} (ok : (Lowering.port port scope).result = .ok (lowered, after)) :
    ∃ type, (scope.resolve port.type).result = .ok type ∧
      lowered = ⟨port.name, port.direction, type, port.line⟩ ∧
      (declare port.line ⟨port.name, .port, some type, none⟩ scope).result = .ok (⟨⟩, after) := by
  obtain ⟨type, typeOk, ok⟩ := bind_resolve_eq_ok ok
  obtain ⟨_, _, declared, ok⟩ := bind_apply_eq_ok.mp ok
  cases ok
  exact ⟨type, typeOk, rfl, declared⟩

theorem constant_eq_ok (ok : (constant decl scope).result = .ok (lowered, after)) :
    ∃ type value, (scope.resolve decl.type).result = .ok type ∧ decl.value.lower scope decl.name = .ok value ∧
      lowered = ⟨decl.name, type, value, decl.line⟩ ∧
      (declare decl.line ⟨decl.name, .constant, some type, scope.static? value⟩ scope).result = .ok (⟨⟩, after) := by
  obtain ⟨type, typeOk, ok⟩ := bind_resolve_eq_ok ok
  replace ok := bind_get_eq_ok.mp ok
  obtain ⟨value, valueOk, ok⟩ := bind_liftM_eq_ok.mp ok
  obtain ⟨_, _, declared, ok⟩ := bind_apply_eq_ok.mp ok
  cases ok
  exact ⟨type, value, typeOk, valueOk, rfl, declared⟩

theorem signal_eq_ok (ok : (signal decl scope).result = .ok (lowered, after)) :
    ∃ type init, (scope.resolve decl.type).result = .ok type ∧
      (∀ value ∈ init, ∃ source ∈ decl.init, source.lower scope decl.name = .ok value) ∧
      lowered = ⟨decl.name, type, init, decl.line⟩ ∧
      (declare decl.line ⟨decl.name, .signal, some type, none⟩ scope).result = .ok (⟨⟩, after) := by
  obtain ⟨type, typeOk, ok⟩ := bind_resolve_eq_ok ok
  obtain ⟨init, _, initialized, ok⟩ := bind_apply_eq_ok.mp ok
  obtain ⟨initOk, rfl⟩ := initial_eq_ok initialized
  obtain ⟨_, _, declared, ok⟩ := bind_apply_eq_ok.mp ok
  cases ok
  exact ⟨type, init, typeOk, initOk, rfl, declared⟩

theorem variableDecl_eq_ok (ok : (variableDecl decl scope).result = .ok (lowered, after)) :
    ∃ type init, (scope.resolve decl.type).result = .ok type ∧
      Text.lower decl.name ∉ scope.variableKeys ∧ scope.globals.find? (Text.lower decl.name) = none ∧
      scope.locals.find? (Text.lower decl.name) = none ∧
      (∀ value ∈ init, ∃ source ∈ decl.init, source.lower
        { scope with variableKeys := Text.lower decl.name :: scope.variableKeys } decl.name = .ok value) ∧
      lowered = ⟨decl.name, type, init, decl.line⟩ ∧
      after = Scope.declareVariable
        { scope with variableKeys := Text.lower decl.name :: scope.variableKeys } decl.name type := by
  obtain ⟨type, typeOk, ok⟩ := bind_resolve_eq_ok ok
  replace ok := bind_get_eq_ok.mp ok
  dsimp only at ok
  split at ok
  · cases ok
  rename_i newVariable
  split at ok
  · cases ok
  rename_i newName
  obtain ⟨_, _, isSet, ok⟩ := bind_apply_eq_ok.mp ok
  cases isSet
  obtain ⟨init, _, initialized, ok⟩ := bind_apply_eq_ok.mp ok
  obtain ⟨initOk, rfl⟩ := initial_eq_ok initialized
  obtain ⟨_, _, changed, ok⟩ := bind_apply_eq_ok.mp ok
  cases changed
  cases ok
  have absent := Bool.or_eq_false_iff.mp (Bool.eq_false_iff.mpr newName)
  refine ⟨type, init, typeOk, by simpa using newVariable, ?_, ?_, initOk, rfl, rfl⟩
  · simpa using absent.1
  · simpa using absent.2

theorem enum_eq_ok (ok : (enum decl scope).result = .ok (value, after)) :
    (decl.type.literals.forM (fun literal => declare decl.line ⟨literal, .enumLiteral, some (.enum decl.type), none⟩)
      { scope with enums := (Text.lower decl.type.name, decl.type) :: scope.enums }).result = .ok (⟨⟩, after) := by
  replace ok := bind_get_eq_ok.mp ok
  split at ok
  · cases ok
  · obtain ⟨_, _, changed, ok⟩ := bind_apply_eq_ok.mp ok
    cases changed
    exact ok

/-! ### Concurrent statements -/

theorem sensitivity_eq_ok (declared : String → Prop)
    (declares : ∀ name symbol, scope.lookup name = some symbol → symbol.role = .port ∨ symbol.role = .signal →
      declared symbol.name) (distinct : seen.Nodup) (known : ∀ name ∈ seen, declared name)
    (ok : (sensitivity line seen names scope).result = .ok (listed, after)) :
    (listed.Nodup ∧ ∀ name ∈ listed, declared name) ∧ scope = after := by
  induction names generalizing seen with
  | nil =>
    cases ok
    exact ⟨⟨nodup_reverse.mpr distinct, by simpa using known⟩, rfl⟩
  | cons name rest ih =>
    replace ok := bind_get_eq_ok.mp ok
    cases found : scope.lookup name with
    | none =>
      simp only [found] at ok
      cases ok
    | some symbol =>
      simp only [found] at ok
      split at ok
      · rename_i role
        have here := declares name symbol found (by simpa using role)
        by_cases again : seen.contains symbol.name = true
        · rw [if_pos again] at ok
          exact ih distinct known ok
        · rw [if_neg again] at ok
          refine ih (nodup_cons.mpr ⟨by simpa using again, distinct⟩) ?_ ok
          exact forall_mem_cons.mpr ⟨here, known⟩
      · cases ok

theorem processBlock_eq_ok (ok : (processBlock block scope).result = .ok (lowered, after)) :
    ∃ inside, (block.vars.mapM variableDecl { scope with locals := .empty }).result = .ok (lowered.vars, inside) ∧
      lowered.label = block.label ∧
      (∀ listed, lowered.sensitivity = .listed listed → ∃ names,
        (sensitivity block.line [] names inside).result = .ok (listed, inside)) ∧
      lowerBody inside block.body = .ok lowered.body ∧ after = { inside with locals := .empty } := by
  obtain ⟨_, _, changed, ok⟩ := bind_apply_eq_ok.mp ok
  cases changed
  obtain ⟨vars, inside, varsOk, ok⟩ := bind_apply_eq_ok.mp ok
  have ends {list : Sensitivity} (ok : ((do
      let body ← lowerBody (← get) block.body
      modify fun scope => { scope with locals := .empty }
      return ⟨block.label, list, vars, body, block.line⟩ : Lowering (ProcessBlock DataType)) inside).result =
        .ok (lowered, after)) : ∃ body, lowerBody inside block.body = .ok body ∧
      lowered = ⟨block.label, list, vars, body, block.line⟩ ∧ after = { inside with locals := .empty } := by
    replace ok := bind_get_eq_ok.mp ok
    obtain ⟨body, bodyOk, ok⟩ := bind_liftM_eq_ok.mp ok
    obtain ⟨_, _, changed, ok⟩ := bind_apply_eq_ok.mp ok
    cases changed
    cases ok
    exact ⟨body, bodyOk, rfl, rfl⟩
  cases is : block.sensitivity with
  | all =>
    simp only [is] at ok
    obtain ⟨body, bodyOk, rfl, rfl⟩ := ends ok
    exact ⟨inside, varsOk, rfl, nofun, bodyOk, rfl⟩
  | listed names =>
    simp only [is] at ok
    obtain ⟨listed, middle, listedOk, ok⟩ := bind_apply_eq_ok.mp ok
    have same := (sensitivity_eq_ok (fun _ => True) (fun _ _ _ _ => trivial) .nil nofun listedOk).2
    subst same
    obtain ⟨body, bodyOk, rfl, rfl⟩ := ends ok
    refine ⟨_, varsOk, rfl, ?_, bodyOk, rfl⟩
    rintro _ ⟨⟩
    exact ⟨names, listedOk⟩

/-- What a concurrent statement is lowered to; only a process changes the scope. -/
inductive LowersTo (scope : Scope) : Concurrent TypeMark → Concurrent DataType → Scope → Prop where
  | process {after : Scope} (blockOk : (processBlock block scope).result = .ok (lowered, after)) :
      LowersTo scope (.process block) (.process lowered) after
  | assign {assignment : ContinuousAssign} (targetOk : assignment.target.lower scope = .ok (target, symbol))
      (valueOk : assignment.value.lower scope none = .ok value)
      (checked : symbol.checkAssignable assignment.line = .ok ()) :
      LowersTo scope (.assign assignment) (.assign ⟨target, value, assignment.line⟩) scope
  | conditional {assignment : ConditionalAssign} {default : Expr}
      (targetOk : assignment.target.lower scope = .ok (target, symbol))
      (pairsOk : choices scope assignment.choices = .ok pairs)
      (defaultOk : assignment.default.lower scope none = .ok default)
      (checked : symbol.checkAssignable assignment.line = .ok ()) :
      LowersTo scope (.conditional assignment) (.conditional ⟨target, pairs, default, assignment.line⟩) scope
  | captured : LowersTo scope (.captured statement) (.captured statement) scope

theorem concurrent_eq_ok (ok : (concurrent stmt scope).result = .ok (lowered, after)) : LowersTo scope stmt lowered after := by
  cases stmt with
  | process block =>
    obtain ⟨inner, _, blockOk, ok⟩ := bind_apply_eq_ok.mp ok
    cases ok
    exact .process blockOk
  | assign assignment =>
    replace ok := bind_get_eq_ok.mp ok
    obtain ⟨⟨target, symbol⟩, targetOk, ok⟩ := bind_liftM_eq_ok.mp ok
    obtain ⟨value, valueOk, ok⟩ := bind_liftM_eq_ok.mp ok
    obtain ⟨_, checked, ok⟩ := bind_liftM_eq_ok.mp ok
    cases ok
    exact .assign targetOk valueOk checked
  | conditional assignment =>
    replace ok := bind_get_eq_ok.mp ok
    obtain ⟨⟨target, symbol⟩, targetOk, ok⟩ := bind_liftM_eq_ok.mp ok
    obtain ⟨pairs, pairsOk, ok⟩ := bind_liftM_eq_ok.mp ok
    obtain ⟨default, defaultOk, ok⟩ := bind_liftM_eq_ok.mp ok
    obtain ⟨_, checked, ok⟩ := bind_liftM_eq_ok.mp ok
    cases ok
    exact .conditional targetOk pairsOk defaultOk checked
  | captured statement =>
    cases ok
    exact .captured

/-! ### Designs -/

theorem architecture_eq_ok (ok : (architecture body scope).result = .ok (lowered, after)) :
    ∃ first second third, (body.enums.forM enum scope).result = .ok (⟨⟩, first) ∧
      (body.constants.mapM constant first).result = .ok (lowered.constants, second) ∧
      (body.signals.mapM signal second).result = .ok (lowered.signals, third) ∧
      (body.statements.mapM concurrent third).result = .ok (lowered.statements, after) ∧
      lowered.enums = body.enums := by
  obtain ⟨_, first, enumsOk, ok⟩ := bind_apply_eq_ok.mp ok
  obtain ⟨constants, second, constantsOk, ok⟩ := bind_apply_eq_ok.mp ok
  obtain ⟨signals, third, signalsOk, ok⟩ := bind_apply_eq_ok.mp ok
  obtain ⟨stmts, _, stmtsOk, ok⟩ := bind_apply_eq_ok.mp ok
  cases ok
  exact ⟨first, second, third, enumsOk, constantsOk, signalsOk, stmtsOk, rfl⟩

theorem unit_eq_ok (ok : (unit parsed scope).result = .ok (design, after)) :
    ∃ middle, (parsed.entity.ports.mapM port scope).result = .ok (design.entity.ports, middle) ∧
      design.entity.name = parsed.entity.name ∧
      ((parsed.architecture = none ∧ design.architecture = none ∧ after = middle) ∨
        ∃ body lowered, parsed.architecture = some body ∧ design.architecture = some lowered ∧
          (architecture body middle).result = .ok (lowered, after)) := by
  obtain ⟨ports, middle, portsOk, ok⟩ := bind_apply_eq_ok.mp ok
  cases is : parsed.architecture with
  | none =>
    simp only [is] at ok
    obtain ⟨_, _, noted, ok⟩ := bind_apply_eq_ok.mp ok
    cases noted
    cases ok
    exact ⟨_, portsOk, rfl, .inl ⟨rfl, rfl, rfl⟩⟩
  | some body =>
    simp only [is] at ok
    obtain ⟨lowered, _, bodyOk, ok⟩ := bind_apply_eq_ok.mp ok
    cases ok
    exact ⟨middle, portsOk, rfl, .inr ⟨body, lowered, rfl, rfl, bodyOk⟩⟩

end Lowering

end Vhdl

end RtlBridge

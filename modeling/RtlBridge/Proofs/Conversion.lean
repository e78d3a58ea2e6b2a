import RtlBridge.Conversion
import RtlBridge.Proofs.Emission.Complete
import RtlBridge.Proofs.Vhdl.WrittenNames

/-! How conversions end. They fail for faults of the source, and for texts that are too long. -/

namespace RtlBridge

open Emission (Fits)

theorem Dialect.ofText?_text (dialect : Dialect) : Dialect.ofText? dialect.text = some dialect := by
  have ascii : ∀ c ∈ dialect.text.toList, c.toNat < 0x80 := List.all_iff_forall_prop.mp (by cases dialect <;> decide)
  rw [ofText?, Text.lower, Text.lowerFrom_of_ascii false ascii]
  cases dialect <;> decide

theorem load_eq_ok (ok : (load source strict).result = .ok resolved) :
    ∃ unit design, (Vhdl.parse source).result = .ok unit ∧ (Vhdl.lower unit).result = .ok design ∧
      (Vhdl.resolve design strict).result = .ok resolved := by
  simp only [load, Traced.result_bind] at ok
  obtain ⟨unit, parsed, ok⟩ := bind_eq_ok.mp ok
  obtain ⟨_, _, ok⟩ := bind_eq_ok.mp ok
  obtain ⟨design, lowered, ok⟩ := bind_eq_ok.mp ok
  exact ⟨unit, design, parsed, lowered, ok⟩

theorem resolvedFrom_of_load (ok : (load source strict).result = .ok resolved) :
    ∃ parsed, (Vhdl.parse source).result = .ok parsed ∧ Vhdl.ResolvedFrom parsed resolved := by
  obtain ⟨parsed, design, isParsed, isLowered, isResolved⟩ := load_eq_ok ok
  obtain rfl := (Vhdl.resolve_resolves isResolved).sameDesign
  exact ⟨parsed, isParsed, Vhdl.isParsed_of_parse isParsed, isLowered, strict, isResolved⟩

theorem render_eq_ok (ok : (render resolved dialect indent).result = .ok text) :
    ∃ unit module, Text.run ' ' indent = .ok unit ∧
      (Emission.moduleOf dialect.profile resolved).result = .ok module ∧ text = module.text unit := by
  simp only [render, Traced.result_bind] at ok
  obtain ⟨unit, unitOk, ok⟩ := bind_eq_ok.mp ok
  obtain ⟨module, moduleOk, ok⟩ := bind_eq_ok.mp ok
  cases ok
  exact ⟨unit, module, mapError_eq_ok.mp unitOk, mapError_eq_ok.mp moduleOk, rfl⟩

/-- What a conversion fails for, if it is not a fault of the source, is a text that is too long. -/
def Failure.IsExpected (wide : Int → Prop) : Failure → Prop
  | .source _ => True
  | .run _ => ∃ width, wide width ∧ ¬ Fits width
  | _ => False

theorem Failure.IsExpected.mono (implies : ∀ width, wide width → wider width) {failure : Failure}
    (expected : failure.IsExpected wide) : failure.IsExpected wider := by
  cases failure with
  | run fault =>
    obtain ⟨width, isWide, tooLong⟩ := expected
    exact ⟨width, implies width isWide, tooLong⟩
  | _ => exact expected

theorem render_failsOnly (sound : design.IsSound) (resolves : Vhdl.Resolves design resolved) (dialect : Dialect)
    (indent : Int) :
    FailsOnly (Failure.IsExpected fun width => width = indent ∨ design.HasWidth width)
      (render resolved dialect indent).result := by
  unfold render
  refine .bindResult ?_ fun unit => .bindResult ?_ fun module => .ok
  · refine FailsOnly.mapError (fun fault failed => Emission.not_fits_of_run failed) fun fault tooLong => ?_
    exact ⟨indent, .inl rfl, tooLong⟩
  · refine (Emission.moduleOf_failsOnly dialect.profile sound resolves).mapError fun refusal expected => ?_
    cases refusal with
    | unsupported construct line => trivial
    | lacking lack => exact expected
    | run fault =>
      obtain ⟨width, hasWidth, tooLong⟩ := expected
      exact ⟨width, .inr hasWidth, tooLong⟩

theorem convert_failsOnly (source : List Char) (dialect : Dialect) (strict : Bool) (indent : Int) :
    FailsOnly (Failure.IsExpected fun width => width = indent ∨
        ∃ resolved, (load source strict).result = .ok resolved ∧ resolved.design.HasWidth width)
      (convert source dialect.text strict indent).result := by
  unfold convert
  rw [Traced.result_bind, Traced.result_mapError]
  cases loaded : (load source strict).result with
  | error fault => exact .error trivial
  | ok resolved =>
    obtain ⟨unit, design, parsed, lowered, ok⟩ := load_eq_ok loaded
    have sound := Vhdl.isSound_of_lower (Vhdl.isParsed_of_parse parsed) lowered
    have resolves := Vhdl.resolve_resolves ok
    obtain rfl := resolves.sameDesign
    have isDialect : dialectOf dialect.text = .ok dialect := by rw [dialectOf, dialect.ofText?_text]
    refine .bindResult (isDialect ▸ .ok) fun found => .bindResult ?_ fun text => .ok
    refine (render_failsOnly sound resolves found indent).mono fun failure => .mono fun width => ?_
    exact Or.imp_right fun hasWidth => ⟨resolved, rfl, hasWidth⟩

/-- A conversion ends well, or with a fault of the source; the indent and the widths of the design apart that
are too long to write. On the way, literals in the source have values, also in the bounds of types; what is
left by lowering has its arguments, and its measure is the width that writing uses; every process has its kind; names
that are assigned to or have attributes are declared; and no vector is empty. -/
theorem convert_fails_for_source_only (source : List Char) (dialect : Dialect) (strict : Bool) (indent : Int) :
    ((∃ converted, (convert source dialect.text strict indent).result = .ok converted) ∨
      (∃ fault, (convert source dialect.text strict indent).result = .error (.source fault)) ∨
      ∃ limit, (convert source dialect.text strict indent).result = .error (.run limit) ∧
        (¬ Fits indent ∨ ∃ resolved width, (load source strict).result = .ok resolved ∧
          resolved.design.HasWidth width ∧ ¬ Fits width)) ∧
    (∀ unit, (Vhdl.parse source).result = .ok unit →
      (∀ node ∈ unit.nodes Vhdl.TypeMark.nodes, node.ReadableNode) ∧
      ∀ design, (Vhdl.lower unit).result = .ok design →
        (∀ node ∈ design.nodes (fun _ => []), node.LacksNothing (Vhdl.names design)) ∧
        ∀ resolved, (Vhdl.resolve design strict).result = .ok resolved →
          ∀ block, .process block ∈ design.statements → ∃ kind, (block, kind) ∈ resolved.processes) ∧
    (∀ (scope : Vhdl.Scope) target lowered symbol, Vhdl.Target.lower scope target = .ok (lowered, symbol) →
      scope.lookup lowered.name = some symbol) ∧
    (∀ (scope : Vhdl.Scope) owner expr spelling line,
      Vhdl.Expr.lower scope owner expr = .ok (.name spelling line) → (scope.lookup spelling).isSome = true) ∧
    ∀ left right isSigned, Vhdl.VectorType.ofRange? (max left right) (min left right) isSigned =
      some (.between left right isSigned) := by
  refine ⟨?_, ?_, ?_, ?_, ?_⟩
  · have failsOnly := convert_failsOnly source dialect strict indent
    cases ended : (convert source dialect.text strict indent).result with
    | ok converted => exact .inl ⟨converted, rfl⟩
    | error failure =>
      have expected := failsOnly failure ended
      cases failure with
      | source fault => exact .inr (.inl ⟨fault, rfl⟩)
      | run limit =>
        refine .inr (.inr ⟨limit, rfl, ?_⟩)
        obtain ⟨width, rfl | ⟨resolved, loaded, hasWidth⟩, tooLong⟩ := expected
        · exact .inl tooLong
        · exact .inr ⟨resolved, width, loaded, hasWidth, tooLong⟩
      | _ => exact expected.elim
  · intro unit parsed
    have isParsed := Vhdl.isParsed_of_parse parsed
    refine ⟨isParsed.readable, fun design lowered => ?_⟩
    refine ⟨(Vhdl.isSound_of_lower isParsed lowered).lacksNothing, fun resolved ok block isProcess => ?_⟩
    obtain ⟨kind, hasKind, _⟩ := (Vhdl.resolve_resolves ok).exists_kind isProcess
    exact ⟨kind, hasKind⟩
  · intro scope target lowered symbol ok
    exact (Vhdl.Target.lower_eq_ok ok).1
  · intro scope owner expr spelling line ok
    exact Vhdl.Expr.lookup_of_lower ok
  · intro left right isSigned
    have ordered : min left right ≤ max left right := Int.le_trans (Int.min_le_left ..) (Int.le_max_left ..)
    rw [Vhdl.VectorType.ofRange?, dif_pos ordered]
    rfl

def sampleSource : List Char :=
  ("entity e is port (c : in bit; q : out bit); end; architecture a of e is begin " ++
    "process (c) begin q <= c; end process; end;").toList

theorem convert_sampleSource : ∃ unit design resolved block kind,
    (Vhdl.parse sampleSource).result = .ok unit ∧ (Vhdl.lower unit).result = .ok design ∧
      (Vhdl.resolve design true).result = .ok resolved ∧ .process block ∈ design.statements ∧
      (block, kind) ∈ resolved.processes := by
  obtain ⟨resolved, loaded, stmt, member, isSome⟩ : ∃ resolved, (load sampleSource true).result = .ok resolved ∧
      ∃ stmt ∈ resolved.design.statements, stmt.process?.isSome := by decide +kernel
  obtain ⟨unit, design, parsed, lowered, ok⟩ := load_eq_ok loaded
  obtain rfl := (Vhdl.resolve_resolves ok).sameDesign
  cases stmt with
  | process block =>
    obtain ⟨_, stages, _⟩ := convert_fails_for_source_only sampleSource .legacy true 2
    obtain ⟨kind, hasKind⟩ := ((stages unit parsed).2 _ lowered).2 resolved ok block member
    exact ⟨unit, _, resolved, block, kind, parsed, lowered, ok, member, hasKind⟩
  | _ => cases isSome

end RtlBridge

import RtlBridge.Proofs.Token.Relayout
import RtlBridge.Proofs.Vhdl.ParsedShape

/-! Layout does not matter: texts that hold the same tokens are parsed alike. -/

namespace RtlBridge.Vhdl

theorem parse_same (ok : tokenize text = .ok stream) (ok' : tokenize other = .ok stream')
    (same : stream'.tokens.map Token.lexeme = stream.tokens.map Token.lexeme) (parsed : (parse text).result = .ok unit) :
    ∃ unit', (parse other).result = .ok unit' ∧ (unit.IsStructural → unit'.erase = unit.erase) := by
  simp only [parse, Traced.result_bind] at parsed ⊢
  obtain ⟨stream, isStream, parsed⟩ := bind_eq_ok.mp parsed
  cases ok.symm.trans isStream
  obtain ⟨unit', parsed', _, _, erases⟩ := parseTokens_same (alike_of_tokenize ok ok' same) parsed
  exact ⟨unit', bind_eq_ok.mpr ⟨stream', ok', parsed'⟩, fun structural => (erases structural).symm⟩

/-- Tokens joined by any separators are read back as they were. Two ways to join them are parsed alike: both fail, or
both yield a design unit, the same but for lines and positions unless a statement was kept as its text. -/
theorem layout_is_free {text : List Char} {stream : TokenStream} (ok : tokenize text = .ok stream)
    (ticks : ticksFollowNames false stream.tokens = true) {separators others : Nat → List Char}
    (areSeparators : ∀ n, IsSeparator (separators n)) (otherSeparators : ∀ n, IsSeparator (others n)) :
    (∃ found, tokenize (relaid separators text stream) = .ok found ∧
        found.tokens.map Token.lexeme = stream.tokens.map Token.lexeme) ∧
      ComesTo
        (fun unit => ∃ unit', (parse (relaid others text stream)).result = .ok unit' ∧
          (unit.IsStructural → unit'.erase = unit.erase))
        (fun _ => ∃ fault, (parse (relaid others text stream)).result = .error fault)
        (parse (relaid separators text stream)).result := by
  obtain ⟨found, isFound, same⟩ := tokenize_joined ok ticks areSeparators
  obtain ⟨found', isFound', same'⟩ := tokenize_joined ok ticks otherSeparators
  refine ⟨⟨found, isFound, same⟩, ?_⟩
  cases parsed : (parse (relaid separators text stream)).result with
  | ok unit => exact parse_same isFound isFound' (same'.trans same.symm) parsed
  | error fault =>
    cases parsed' : (parse (relaid others text stream)).result with
    | error fault' => exact ⟨fault', rfl⟩
    | ok unit' =>
      obtain ⟨unit, isUnit, _⟩ := parse_same isFound' isFound (same.trans same'.symm) parsed'
      rw [parsed] at isUnit
      cases isUnit

/-- A tick behind a name, on lines of its own between comments that hold ticks. -/
theorem layout_is_free_behind_names :
    let text := "entity e is port(c:in bit_vector(x'high downto 0));end;".toList
    let spaces : Nat → List Char := fun _ => [' ']
    let comments : Nat → List Char := fun _ => "\n--it's\n".toList
    ∃ stream, tokenize text = .ok stream ∧ ticksFollowNames false stream.tokens = true ∧
      (∀ n, IsSeparator (spaces n)) ∧ (∀ n, IsSeparator (comments n)) ∧
      ∃ unit unit', (parse (relaid spaces text stream)).result = .ok unit ∧
        (parse (relaid comments text stream)).result = .ok unit' ∧ unit'.erase = unit.erase := by
  intro text spaces comments
  have areSpaces (n : Nat) : IsSeparator (spaces n) := ⟨.blank (by decide) .nil, by decide, .cons (by decide) _⟩
  have isComment : IsLayout "--it's\n".toList := IsLayout.comment (by decide : '\n' ∉ "it's".toList) .nil
  have areComments (n : Nat) : IsSeparator (comments n) := ⟨.lineFeed isComment, by decide, .cons (by decide) _⟩
  obtain ⟨stream, ok, ticks, unit, parsed, bare⟩ : ∃ stream, tokenize text = .ok stream ∧
      ticksFollowNames false stream.tokens = true ∧
      ∃ unit, (parse (relaid spaces text stream)).result = .ok unit ∧ unit.architecture.isNone := by decide +kernel
  have alike := (layout_is_free ok ticks areSpaces areComments).2
  obtain ⟨unit', parsed', same⟩ := alike.of_ok parsed
  exact ⟨stream, ok, ticks, areSpaces, areComments, unit, unit', parsed, parsed',
    same (by simp [DesignUnit.IsStructural, Option.isNone_iff_eq_none.mp bare])⟩

end RtlBridge.Vhdl

import RtlBridge.Proofs.Token.Spelling

/-! Tokens tile the text they are cut from: between them is layout and nothing else, and each says what its stretch of
text spells. -/

namespace RtlBridge

def stretch (text : List Char) (start stop : Nat) : List Char := (text.drop start).take (stop - start)

theorem stretch_add (text : List Char) (inOrder : start ≤ middle) (length : Nat) :
    stretch text start (middle + length) = stretch text start middle ++ stretch text middle (middle + length) := by
  have parts : middle + length - start = (middle - start) + length := by omega
  have behind : start + (middle - start) = middle := by omega
  rw [stretch, stretch, stretch, parts, List.take_add, List.drop_drop, behind, Nat.add_sub_cancel_left]

def Token.endsName (token : Token) : Bool := token.isIdentifier || token.isSymbol ")"

/-- Tokens that tile a text from a position on: one behind the other and none of them empty, with layout between them,
and each of them what its stretch of text spells. No character literal stands right behind a name. Where the last token
stops has still to be told. -/
inductive Tiles (text : List Char) (last : Bool → Nat → Prop) : Bool → Nat → List Token → Prop
  | nil {afterName : Bool} {position : Nat} (stops : last afterName position) : Tiles text last afterName position []
  | cons {afterName : Bool} {position : Nat} {token : Token} {rest : List Token} (inOrder : position ≤ token.start)
      (gap : IsLayout (stretch text position token.start)) (nonempty : token.start < token.stop)
      (inBounds : token.stop ≤ text.length)
      (spells : ∀ lexeme, Spells (stretch text token.start token.stop) lexeme ↔ lexeme = token.lexeme)
      (fits : ∀ value, token.lexeme = .character value → afterName = false)
      (later : Tiles text last token.endsName token.stop rest) : Tiles text last afterName position (token :: rest)

theorem Tiles.append (tiles : Tiles text middle afterName position first)
    (goesOn : ∀ afterName position, middle afterName position → Tiles text last afterName position second) :
    Tiles text last afterName position (first ++ second) := by
  induction tiles with
  | nil stops => exact goesOn _ _ stops
  | cons inOrder gap nonempty inBounds spells fits _ ih => exact .cons inOrder gap nonempty inBounds spells fits ih

theorem Tiles.mono (tiles : Tiles text last afterName position tokens)
    (implies : ∀ afterName position, last afterName position → weaker afterName position) :
    Tiles text weaker afterName position tokens := by
  rw [← List.append_nil tokens]
  exact tiles.append fun afterName position stops => .nil (implies afterName position stops)

theorem Spells.ne_nil (spells : Spells slice lexeme) : slice ≠ [] := by
  obtain ⟨_, _, rfl, _⟩ | ⟨_, rfl, _⟩ | ⟨_, isSymbol, rfl⟩ := spells.front
  · exact List.cons_ne_nil _ _
  · exact List.cons_ne_nil _ _
  · exact (Piece.symbol_chars _ isSymbol).1

theorem Spells.unique (spells : Spells slice lexeme) (spellsOther : Spells slice other) : other = lexeme := by
  have alone {lexeme : Lexeme} (spells : Spells slice lexeme) : ∃ c rest, slice = c :: rest ∧
      Piece.next (decide (slice.length = 1)) c (rest ++ []) = .ok (⟨slice, some lexeme⟩, []) := by
    refine Piece.next_of_spells spells .nil ?_ ?_
    · rintro value rfl
      cases spells
      rfl
    · rintro rfl
      cases spells
      rfl
  obtain ⟨c, rest, rfl, found⟩ := alone spells
  obtain ⟨_, _, ⟨⟩, foundOther⟩ := alone spellsOther
  rw [found] at foundOther
  cases foundOther
  rfl

theorem Piece.IsCut.ne_nil (isCut : IsCut after piece) : piece.text ≠ [] := by
  cases isCut with
  | token spells => exact spells.ne_nil
  | blanks present _ => exact present
  | lineFeed | comment _ _ => exact List.cons_ne_nil _ _

namespace Scanner

theorem length_of_next {afterName : Bool} (found : Piece.next afterName c rest = .ok (piece, after))
    : after.length ≤ rest.length := by
  obtain ⟨whole, isCut⟩ := (Piece.next_cutsOff afterName c rest).of_ok found
  have lengths := congrArg List.length whole
  have present : 0 < piece.text.length := List.length_pos_iff.mpr isCut.ne_nil
  simp only [List.length_cons, List.length_append] at lengths
  omega

theorem run_comesTo {motive : Scanner → List Char → Prop}
    (keeps : ∀ scanner c rest piece after, motive scanner (c :: rest) →
      Piece.next scanner.afterName c rest = .ok (piece, after) → motive (scanner.pass piece) after)
    (enough : text.length ≤ bound) (start : motive scanner text) :
    ComesTo (fun stream => ∃ last, motive last [] ∧ stream = last.finish)
      (fun fault => ∃ last c rest cause, motive last (c :: rest) ∧
        Piece.next last.afterName c rest = .error cause ∧ fault = .malformed last.line cause)
      (run bound scanner text) := by
  induction bound generalizing scanner text with
  | zero =>
    cases List.length_eq_zero_iff.mp (Nat.le_zero.mp enough)
    exact ⟨scanner, start, rfl⟩
  | succ bound ih =>
    cases text with
    | nil => exact ⟨scanner, start, rfl⟩
    | cons c rest =>
      rw [run]
      split
      · rename_i piece after found
        exact ih ((length_of_next found).trans (Nat.le_of_succ_le_succ enough)) (keeps _ _ _ _ _ start found)
      · rename_i cause failed
        exact ⟨scanner, c, rest, cause, start, failed, rfl⟩

end Scanner

/-- Layout behind the last token and in front of what is ahead. A comment goes up to the end of its line. -/
def IsGap (ahead gap : List Char) : Prop := IsLayout gap ∨ IsOpenLayout gap ∧ ∀ c ∈ ahead.head?, c = '\n'

namespace IsGap

variable {afterName : Bool} {c : Char} {rest slice after gap : List Char}

theorem cases_next (isGap : IsGap (c :: rest) gap) (afterName : Bool) :
    IsLayout gap ∨ IsOpenLayout gap ∧ Piece.next afterName c rest = .ok (⟨['\n'], none⟩, rest) := by
  refine isGap.imp id fun ⟨isOpen, ends⟩ => ⟨isOpen, ?_⟩
  cases ends c rfl
  rfl

theorem extend (isGap : IsGap (c :: rest) gap) (found : Piece.next afterName c rest = .ok (⟨slice, none⟩, after)) :
    IsGap after (gap ++ slice) := by
  rcases isGap.cases_next afterName with isLayout | ⟨isOpen, isLineFeed⟩
  · obtain ⟨_, isCut⟩ := (Piece.next_cutsOff afterName c rest).of_ok found
    cases isCut with
    | blanks _ areBlank => exact .inl (isLayout.append (.of_blanks areBlank))
    | lineFeed => exact .inl (isLayout.append (.lineFeed .nil))
    | comment inLine ends => exact .inr ⟨⟨gap, _, rfl, isLayout, inLine⟩, ends⟩
  · cases isLineFeed.symm.trans found
    exact .inl isOpen.lineFeed

end IsGap

namespace Scanner

/-- The tokens so far tile the text up to where the scanner stands. -/
structure Reaches (text : List Char) (scanner : Scanner) (rest : List Char) : Prop where
  ahead : text.drop scanner.position = rest
  inBounds : scanner.position ≤ text.length
  tiles : Tiles text (fun afterName position => afterName = scanner.afterName ∧ position ≤ scanner.position ∧
    IsGap rest (stretch text position scanner.position)) false 0 scanner.done.reverse

theorem Reaches.pass (reaches : Reaches text scanner (c :: rest))
    (found : Piece.next scanner.afterName c rest = .ok (piece, after)) : Reaches text (scanner.pass piece) after := by
  obtain ⟨whole, isCut⟩ := (Piece.next_cutsOff scanner.afterName c rest).of_ok found
  obtain ⟨slice, lexeme⟩ := piece
  have isSlice : stretch text scanner.position (scanner.position + slice.length) = slice := by
    rw [stretch, reaches.ahead, whole, Nat.add_sub_cancel_left, List.take_left]
  have ahead : text.drop (scanner.position + slice.length) = after := by
    rw [← List.drop_drop, reaches.ahead, whole, List.drop_left]
  have inBounds : scanner.position + slice.length ≤ text.length := by
    have lengths := congrArg List.length (reaches.ahead.trans whole)
    have reached := reaches.inBounds
    simp only [List.length_drop, List.length_append] at lengths
    omega
  refine ⟨ahead, inBounds, ?_⟩
  cases lexeme with
  | none =>
    simp only [Scanner.pass]
    refine reaches.tiles.mono fun afterName position stops => ⟨stops.1, Nat.le_add_right_of_le stops.2.1, ?_⟩
    rw [stretch_add text stops.2.1, isSlice]
    exact stops.2.2.extend found
  | some lexeme =>
    cases isCut with
    | token spells =>
      simp only [Scanner.pass, List.reverse_cons]
      refine reaches.tiles.append fun afterName position stops => ?_
      obtain ⟨rfl, behind, isGap⟩ := stops
      have isLayout := (isGap.cases_next scanner.afterName).resolve_right fun lineFeed => by
        cases lineFeed.2.symm.trans found
      have nonempty : scanner.position < scanner.position + slice.length :=
        Nat.lt_add_of_pos_right (List.length_pos_iff.mpr spells.ne_nil)
      refine .cons behind isLayout nonempty inBounds (fun other => ?_) ?_ ?_
      · rw [isSlice]
        exact ⟨spells.unique, fun same => same ▸ spells⟩
      · rintro value rfl
        cases spells
        cases whole
        cases is : scanner.afterName with
        | false => rfl
        | true =>
          rw [is] at found
          cases found
      · exact .nil ⟨rfl, Nat.le_refl _, .inl (by simpa [stretch] using .nil)⟩

theorem Reaches.start (text : List Char) : Reaches text ⟨[], 1, 0⟩ text :=
  ⟨rfl, Nat.zero_le _, .nil ⟨rfl, Nat.le_refl _, .inl .nil⟩⟩

theorem Reaches.refused (reaches : Reaches text last (c :: rest)) (failed : Piece.next last.afterName c rest = .error cause) :
    last.position < text.length ∧
      Tiles text (fun _ position => position ≤ last.position ∧ IsLayout (stretch text position last.position)) false 0
        last.done.reverse ∧ Refuses (text.drop last.position) cause := by
  have inside : last.position < text.length := by
    rw [← not_le, ← List.drop_eq_nil_iff, reaches.ahead]
    exact List.cons_ne_nil c rest
  refine ⟨inside, reaches.tiles.mono fun afterName position stops => ?_, ?_⟩
  · refine ⟨stops.2.1, (stops.2.2.cases_next last.afterName).resolve_right fun lineFeed => ?_⟩
    cases lineFeed.2.symm.trans failed
  · have refuses := Piece.next_cutsOff last.afterName c rest
    rw [failed] at refuses
    rw [reaches.ahead]
    exact refuses

end Scanner

theorem tokenize_reaches (text : List Char) :
    ComesTo (fun stream => ∃ last, Scanner.Reaches text last [] ∧ stream = last.finish)
      (fun fault => ∃ last c rest cause, Scanner.Reaches text last (c :: rest) ∧
        Piece.next last.afterName c rest = .error cause ∧ fault = .malformed last.line cause)
      (tokenize text) := by
  exact Scanner.run_comesTo (fun _ _ _ _ _ reaches found => reaches.pass found) (Nat.le_refl _) (.start text)

/-- Tokens tile the text: where a text is read to its end, up to there, and where it is not, up to a position where no
token starts or a based literal without a value does. -/
theorem tokens_tile_text (text : List Char) : ComesTo (fun stream =>
        Tiles text (fun _ position => position ≤ text.length ∧ (IsLayout (stretch text position text.length) ∨
          IsOpenLayout (stretch text position text.length))) false 0 stream.tokens ∧
        ∃ line, stream.stop = ⟨.endOfFile, line, text.length, text.length⟩)
      (fun fault => ∃ line cause tokens reached, fault = .malformed line cause ∧ reached < text.length ∧
        Tiles text (fun _ position => position ≤ reached ∧ IsLayout (stretch text position reached)) false 0 tokens ∧
        Refuses (text.drop reached) cause)
      (tokenize text) := by
  refine (tokenize_reaches text).imp ?_ ?_
  · rintro stream ⟨last, reaches, rfl⟩
    have isWhole : last.position = text.length :=
      Nat.le_antisymm reaches.inBounds (List.drop_eq_nil_iff.mp reaches.ahead)
    refine ⟨reaches.tiles.mono fun afterName position stops => ?_, last.line, by rw [Scanner.finish, isWhole]⟩
    rw [← isWhole]
    exact ⟨stops.2.1, stops.2.2.imp id And.left⟩
  · rintro fault ⟨last, c, rest, cause, reaches, failed, rfl⟩
    exact ⟨last.line, cause, _, last.position, rfl, reaches.refused failed⟩

end RtlBridge

import Mathlib.Data.List.Find
import RtlBridge.Proofs.Sequencing
import RtlBridge.Token.Scan

/-! How tokens are spelled. `Spells` says what a stretch of text is as a token, without regard to where it stands;
the pieces that are cut off a text are spelled tokens and layout, and where none can be cut off, no token begins or a
based literal has no value. -/

namespace RtlBridge

open Text (isDigit)

namespace Piece

/-! ### Cutting a text where a test first fails -/

theorem split_append (passes : ∀ c ∈ front, test c = true) (stops : ∀ c ∈ behind.head?, test c = false)
    : split test (front ++ behind) = (front, behind) := by
  rw [split, List.takeWhile_append_of_pos passes, List.dropWhile_append_of_pos passes]
  cases behind with
  | nil => simp
  | cons c rest =>
    have fails : test c = false := stops c rfl
    simp [fails]

theorem split_eq {text : List Char} (cut : split test text = (front, behind)) :
    text = front ++ behind ∧ (∀ c ∈ front, test c = true) ∧ ∀ c ∈ behind.head?, test c = false := by
  cases cut
  refine ⟨List.takeWhile_append_dropWhile.symm, List.all_eq_true.mp List.all_takeWhile, fun c first => ?_⟩
  have stops := List.head?_dropWhile_not test text
  rw [show (text.dropWhile test).head? = some c from first] at stops
  exact stops

end Piece

/-! ### Tokens -/

def basedValue? (base digits : List Char) : Option Nat :=
  (Text.Numeral.read? 10 base).bind fun base => Text.Numeral.readBased? base (Piece.withoutUnderscores digits)

/-- The parts of a based literal: decimal digits for the base, and digits and underscores between the marks. -/
structure IsBased (base digits : List Char) : Prop where
  hasBase : base ≠ []
  baseDigits : ∀ c ∈ base, isDigit c = true
  hasDigits : digits ≠ []
  hexDigits : ∀ c ∈ digits, Piece.isHexChar c = true

def basedText (base digits : List Char) : List Char := base ++ '#' :: digits ++ ['#']

/-- What a stretch of text says as a token. Reserved words are lowered, identifiers and symbols say themselves,
literals say what is between their quotes, and numbers and bit strings lose their underscores. A based literal says its
value in decimal digits. -/
inductive Spells : List Char → Lexeme → Prop
  | keyword {c : Char} {rest : List Char} (letter : c.isAlpha = true) (wordChars : ∀ d ∈ rest, Piece.isWordChar d = true)
      (reserved : Text.lower (String.ofList (c :: rest)) ∈ reservedWords) :
      Spells (c :: rest) (.keyword (Text.lower (String.ofList (c :: rest))))
  | identifier {c : Char} {rest : List Char} (letter : c.isAlpha = true)
      (wordChars : ∀ d ∈ rest, Piece.isWordChar d = true)
      (free : Text.lower (String.ofList (c :: rest)) ∉ reservedWords) :
      Spells (c :: rest) (.identifier (String.ofList (c :: rest)))
  | number {c : Char} {rest : List Char} (digit : isDigit c = true)
      (digits : ∀ d ∈ rest, isDigit d = true ∨ d = '_') :
      Spells (c :: rest) (.number (String.ofList ((c :: rest).filter (· ≠ '_'))))
  | based {base digits : List Char} {n : Nat} (isBased : IsBased base digits) (value : basedValue? base digits = some n) :
      Spells (basedText base digits) (.number (toString n))
  | character (value : Char) : Spells ['\x27', value, '\x27'] (.character value)
  | string {inside : List Char} (inLine : ∀ c ∈ inside, c ≠ '\x22' ∧ c ≠ '\n') :
      Spells ('\x22' :: inside ++ ['\x22']) (.string (String.ofList inside))
  | bitString {letter : Char} {base : BitBase} {digits : List Char} (isBase : letter = base.letter ∨ letter = base.letter.toUpper)
      (hexDigits : ∀ c ∈ digits, Piece.isHexChar c = true) :
      Spells (letter :: '\x22' :: digits ++ ['\x22']) (.bitString base (String.ofList (digits.filter (· ≠ '_'))))
  | symbol {text : String} (isSymbol : text ∈ "\x27" :: symbols) : Spells text.toList (.symbol text)

theorem Spells.front (spells : Spells slice lexeme) :
    (∃ c rest, slice = c :: rest ∧ (c.isAlpha = true ∨ isDigit c = true ∨ c = '\x27')) ∨
      (∃ inside, slice = '\x22' :: inside ++ ['\x22'] ∧ ∀ c ∈ inside, c ≠ '\x22' ∧ c ≠ '\n') ∨
      ∃ text ∈ symbols, slice = text.toList := by
  cases spells with
  | keyword letter _ _ | identifier letter _ _ => exact .inl ⟨_, _, rfl, .inl letter⟩
  | number digit _ => exact .inl ⟨_, _, rfl, .inr (.inl digit)⟩
  | based isBased _ =>
    obtain ⟨first, others, rfl⟩ := List.exists_cons_of_ne_nil isBased.hasBase
    exact .inl ⟨first, _, rfl, .inr (.inl (isBased.baseDigits first (List.mem_cons_self ..)))⟩
  | character value => exact .inl ⟨_, _, rfl, .inr (.inr rfl)⟩
  | string inLine => exact .inr (.inl ⟨_, rfl, inLine⟩)
  | @bitString letter base digits isBase _ =>
    have isLetter : letter.isAlpha = true := by rcases isBase with rfl | rfl <;> cases base <;> decide
    exact .inl ⟨_, _, rfl, .inl isLetter⟩
  | symbol isSymbol =>
    rcases List.mem_cons.mp isSymbol with rfl | isSymbol
    · exact .inl ⟨_, _, rfl, .inr (.inr rfl)⟩
    · exact .inr (.inr ⟨_, isSymbol, rfl⟩)

/-! ### Layout -/

/-- Text between tokens: blanks, line feeds, and comments with the line feeds that end them. -/
inductive IsLayout : List Char → Prop
  | nil : IsLayout []
  | blank {c : Char} {rest : List Char} (isBlank : Piece.isBlank c = true) (later : IsLayout rest) : IsLayout (c :: rest)
  | lineFeed {rest : List Char} (later : IsLayout rest) : IsLayout ('\n' :: rest)
  | comment {words rest : List Char} (inLine : '\n' ∉ words) (later : IsLayout rest) :
      IsLayout ('-' :: '-' :: words ++ '\n' :: rest)

def IsOpenLayout (text : List Char) : Prop :=
  ∃ before words, text = before ++ '-' :: '-' :: words ∧ IsLayout before ∧ '\n' ∉ words

namespace IsLayout

theorem append (isFirst : IsLayout first) (isSecond : IsLayout second) : IsLayout (first ++ second) := by
  induction isFirst with
  | nil => exact isSecond
  | blank isBlank _ ih => exact .blank isBlank ih
  | lineFeed _ ih => exact .lineFeed ih
  | comment inLine _ ih =>
    rw [List.append_assoc]
    exact .comment inLine ih

theorem of_blanks (blanks : ∀ c ∈ text, Piece.isBlank c = true) : IsLayout text := by
  induction text with
  | nil => exact .nil
  | cons c rest ih =>
    obtain ⟨first, others⟩ := List.forall_mem_cons.mp blanks
    exact .blank first (ih others)

end IsLayout

theorem IsOpenLayout.lineFeed (isOpen : IsOpenLayout text) : IsLayout (text ++ ['\n']) := by
  obtain ⟨before, words, rfl, isLayout, inLine⟩ := isOpen
  rw [List.append_assoc]
  exact isLayout.append (.comment inLine .nil)

/-- The characters that layout between tokens starts with, comments aside. -/
def layoutChars : List Char := [' ', '\t', '\r', '\x0b', '\x0c', '\n']

def IsSeparated (after : List Char) : Prop := ∀ c ∈ after.head?, c ∈ layoutChars

theorem IsSeparated.nil : IsSeparated [] := by rintro c ⟨⟩

theorem IsSeparated.cons (isLayout : c ∈ layoutChars) (rest : List Char) : IsSeparated (c :: rest) := by
  rintro d ⟨⟩
  exact isLayout

theorem fails_of_table (table : layoutChars.any test = false) (isLayout : c ∈ layoutChars) : test c = false :=
  Bool.eq_false_iff.mpr (List.any_eq_false.mp table c isLayout)

theorem IsSeparated.fails (separated : IsSeparated after) (table : layoutChars.any test = false)
    : ∀ c ∈ after.head?, test c = false := fun c first => fails_of_table table (separated c first)

/-! ### Pieces that are cut off -/

/-- Why no token can be cut off: none starts the text, or a based literal does that has no value. -/
inductive Refuses : List Char → SyntaxFault → Prop
  | noToken {c : Char} {rest : List Char} (visible : Piece.isBlank c = false ∧ c ≠ '\n')
      (none : ∀ slice after lexeme, c :: rest = slice ++ after → ¬Spells slice lexeme) :
      Refuses (c :: rest) (.unexpectedCharacter c)
  | noValue {base digits after : List Char} (isBased : IsBased base digits) (value : basedValue? base digits = none) :
      Refuses (basedText base digits ++ after) (.invalidBasedLiteral (String.ofList (basedText base digits)))

namespace Piece

/-- What is cut off in front of `after`: a token, blanks, a line feed, or a comment up to the end of its line. -/
inductive IsCut (after : List Char) : Piece → Prop
  | token {slice : List Char} {lexeme : Lexeme} (spells : Spells slice lexeme) : IsCut after ⟨slice, some lexeme⟩
  | blanks {text : List Char} (present : text ≠ []) (areBlank : ∀ c ∈ text, isBlank c = true) : IsCut after ⟨text, none⟩
  | lineFeed : IsCut after ⟨['\n'], none⟩
  | comment {words : List Char} (inLine : '\n' ∉ words) (ends : ∀ c ∈ after.head?, c = '\n') :
      IsCut after ⟨'-' :: '-' :: words, none⟩

def CutsOff (text : List Char) : Except SyntaxFault (Piece × List Char) → Prop :=
  ComesTo (fun found => text = found.1.text ++ found.2 ∧ IsCut found.2 found.1) (Refuses text)

theorem word_isCut (letter : c.isAlpha = true) (wordChars : ∀ d ∈ rest, isWordChar d = true)
    : IsCut after (word (c :: rest)) := by
  rw [word]
  simp only [List.contains_iff_mem]
  split
  · exact .token (.keyword letter wordChars ‹_›)
  · exact .token (.identifier letter wordChars ‹_›)

def basedPiece (base digits : List Char) : Except SyntaxFault Piece :=
  match basedValue? base digits with
  | some n => .ok ⟨basedText base digits, some (.number (toString n))⟩
  | none => .error (.invalidBasedLiteral (String.ofList (basedText base digits)))

theorem based?_basedText (isBased : IsBased base digits) :
    based? base ('#' :: digits ++ '#' :: after) = some (basedPiece base digits, after) := by
  obtain ⟨first, others, rfl⟩ := List.exists_cons_of_ne_nil isBased.hasDigits
  have cut : split isHexChar (first :: others ++ '#' :: after) = (first :: others, '#' :: after) :=
    split_append isBased.hexDigits (by rintro c ⟨⟩; decide)
  rw [List.cons_append, based?]
  simp only [cut]
  rw [basedPiece]
  cases value : basedValue? base (first :: others) <;> (rw [basedValue?] at value; simp only [value]; rfl)

theorem based?_eq_some {text : List Char} (present : base ≠ []) (baseDigits : ∀ c ∈ base, isDigit c = true)
    (isBased : based? base text = some (found, after)) :
    ∃ digits, IsBased base digits ∧ text = '#' :: digits ++ '#' :: after ∧ found = basedPiece base digits := by
  have parts : ∃ digits, IsBased base digits ∧ ∃ rest, text = '#' :: digits ++ '#' :: rest := by
    unfold based? at isBased
    split at isBased
    · rename_i rest
      cases cut : split isHexChar rest with
      | mk digits behind =>
        obtain ⟨whole, hexDigits, _⟩ := split_eq cut
        simp only [cut] at isBased
        split at isBased
        · rename_i first others rest
          exact ⟨_, ⟨present, baseDigits, List.cons_ne_nil _ _, hexDigits⟩, _, by rw [whole]; rfl⟩
        · cases isBased
    · cases isBased
  obtain ⟨digits, isParts, rest, rfl⟩ := parts
  rw [based?_basedText isParts] at isBased
  cases isBased
  exact ⟨digits, isParts, rfl, rfl⟩

theorem basedPiece_cutsOff (isBased : IsBased base digits) (after : List Char) :
    CutsOff (basedText base digits ++ after) ((basedPiece base digits).map (·, after)) := by
  rw [basedPiece]
  split
  · rename_i n value
    exact ⟨rfl, .token (.based isBased value)⟩
  · rename_i value
    exact .noValue isBased value

theorem bitBase?_eq_some : bitBase? c = some base ↔ c = base.letter ∨ c = base.letter.toUpper := by
  cases base <;> simp only [bitBase?, BitBase.letter] <;> grind

theorem bitString?_eq_some {text : List Char} (found : bitString? c text = some (piece, after))
    : c :: text = piece.text ++ after ∧ IsCut after piece := by
  unfold bitString? at found
  split at found
  · split at found
    · rename_i base digits rest isBase cut
      cases found
      obtain ⟨rfl, hexDigits, _⟩ := split_eq cut
      exact ⟨by simp, .token (.bitString (bitBase?_eq_some.mp isBase) hexDigits)⟩
    · cases found
  · cases found

theorem bitString?_bitString (after : List Char) (isBase : letter = base.letter ∨ letter = base.letter.toUpper)
    (hexDigits : ∀ c ∈ digits, isHexChar c = true) :
    bitString? letter ('\x22' :: digits ++ '\x22' :: after) =
      some (⟨letter :: '\x22' :: digits ++ ['\x22'], some (.bitString base (String.ofList (withoutUnderscores digits)))⟩,
        after) := by
  have cut : split isHexChar (digits ++ '\x22' :: after) = (digits, '\x22' :: after) :=
    split_append hexDigits (by rintro c ⟨⟩; decide)
  rw [List.cons_append, bitString?]
  simp only [bitBase?_eq_some.mpr isBase, cut]

theorem symbol?_eq_some {text : List Char} (found : symbol? text = some (piece, after)) :
    text = piece.text ++ after ∧ IsCut after piece := by
  obtain ⟨s, isFirst, same⟩ := Option.map_eq_some_iff.mp found
  have starts := List.find?_some isFirst
  obtain ⟨rest, rfl⟩ := List.isPrefixOf_iff_prefix.mp starts
  cases same
  have spells : Spells s.toList (.symbol (String.ofList s.toList)) := by
    rw [String.ofList_toList]
    exact .symbol (List.mem_cons_of_mem _ (List.mem_of_find?_eq_some isFirst))
  exact ⟨by simp [symbol, ← String.length_toList], .token spells⟩

theorem symbol_chars : ∀ s ∈ symbols, s.toList ≠ [] ∧ ∀ d ∈ s.toList, d ≠ '\x27' ∧ d ≠ '\x22' ∧ d ≠ '\n' ∧
    isBlank d = false ∧ isDigit d = false ∧ d.isAlpha = false := by
  have table : (symbols.all fun s => !s.toList.isEmpty && s.toList.all fun d => d != '\x27' && d != '\x22' && d != '\n' &&
      !isBlank d && !isDigit d && !d.isAlpha) = true := by decide +kernel
  simpa [and_assoc] using table

theorem symbol?_ne_none (isSymbol : s ∈ symbols) (after : List Char) : symbol? (s.toList ++ after) ≠ none := by
  intro none
  have missing := List.find?_eq_none.mp (Option.map_eq_none_iff.mp none) s isSymbol
  exact missing (List.isPrefixOf_iff_prefix.mpr (List.prefix_append ..))

/-! ### What one character tells -/

theorem mem_layoutChars (isLayout : isBlank c = true ∨ c = '\n') : c ∈ layoutChars := by
  simpa [isBlank, layoutChars, or_assoc] using isLayout

theorem ne_of_test {test : Char → Bool} (passes : test c = true) (fails : test d = false) : c ≠ d := by
  rintro rfl
  rw [fails] at passes
  cases passes

theorem isBlank_of_test (passes : test c = true) (table : layoutChars.any test = false) : isBlank c = false := by
  rw [Bool.eq_false_iff]
  intro blank
  rw [fails_of_table table (mem_layoutChars (.inl blank))] at passes
  cases passes

theorem isDigit_of_isAlpha (letter : c.isAlpha = true) : isDigit c = false := by
  have bounds : (65 ≤ c.toNat ∧ c.toNat ≤ 90) ∨ (97 ≤ c.toNat ∧ c.toNat ≤ 122) := by
    unfold Char.isAlpha Char.isUpper Char.isLower at letter
    simpa [UInt32.le_iff_toNat_le] using letter
  have small : c.toNat < 0x80 := by omega
  have noDigit : (decide (0x30 ≤ c.toNat) && decide (c.toNat ≤ 0x39)) = false := by
    simp only [Bool.and_eq_false_iff, decide_eq_false_iff_not]
    omega
  simp [isDigit, Text.digitValue?, small, noDigit]

theorem next_of_letter (letter : c.isAlpha = true) (afterName : Bool) (rest : List Char) :
    next afterName c rest =
      .ok ((bitString? c rest).getD (word (c :: (split isWordChar rest).1), (split isWordChar rest).2)) := by
  have noTick : c ≠ '\x27' := ne_of_test letter rfl
  have noLineFeed : c ≠ '\n' := ne_of_test letter rfl
  have noDash : c ≠ '-' := ne_of_test letter rfl
  simp only [next, noTick, isBlank_of_test letter rfl, noLineFeed, noDash, isDigit_of_isAlpha letter, letter,
    if_false, if_true, decide_false, Bool.false_and, Bool.false_eq_true]
  cases bitString? c rest <;> rfl

theorem next_of_digit (digit : isDigit c = true) (afterName : Bool)
    (cut : split isDigit rest = (digits, behind)) :
    (∀ found after, based? (c :: digits) behind = some (found, after) → next afterName c rest = found.map (·, after)) ∧
      (based? (c :: digits) behind = none → next afterName c rest =
        .ok (number (c :: (split (fun c => isDigit c || c = '_') rest).1),
          (split (fun c => isDigit c || c = '_') rest).2)) := by
  have noTick : c ≠ '\x27' := ne_of_test digit rfl
  have noLineFeed : c ≠ '\n' := ne_of_test digit rfl
  have noDash : c ≠ '-' := ne_of_test digit rfl
  simp only [next, noTick, isBlank_of_test digit rfl, noLineFeed, noDash, digit, cut, if_false, if_true,
    decide_false, Bool.false_and, Bool.false_eq_true]
  refine ⟨fun found after is => ?_, fun is => ?_⟩
  · cases found <;> simp only [is] <;> rfl
  · simp only [is]

/-! ### The first piece of a text -/

theorem digits_cutsOff (digit : isDigit c = true) (afterName : Bool) (rest : List Char) :
    CutsOff (c :: rest) (next afterName c rest) := by
  cases cut : split isDigit rest with
  | mk digits behind =>
    obtain ⟨rfl, areDigits, _⟩ := split_eq cut
    cases isBased : based? (c :: digits) behind with
    | some result =>
      obtain ⟨found, after⟩ := result
      obtain ⟨inner, isParts, rfl, rfl⟩ :=
        based?_eq_some (List.cons_ne_nil c digits) (List.forall_mem_cons.mpr ⟨digit, areDigits⟩) isBased
      rw [(next_of_digit digit afterName cut).1 _ _ isBased]
      simpa [basedText] using basedPiece_cutsOff isParts after
    | none =>
      rw [(next_of_digit digit afterName cut).2 isBased]
      cases cut' : split (fun c => isDigit c || c = '_') (digits ++ behind) with
      | mk all behind' =>
        obtain ⟨whole, areAll, _⟩ := split_eq cut'
        exact ⟨by rw [whole]; rfl, .token (.number digit fun d member => by simpa using areAll d member)⟩

theorem letters_cutsOff (letter : c.isAlpha = true) (afterName : Bool) (rest : List Char) :
    CutsOff (c :: rest) (next afterName c rest) := by
  rw [next_of_letter letter]
  cases bits : bitString? c rest with
  | some found => exact bitString?_eq_some bits
  | none =>
    cases cut : split isWordChar rest with
    | mk letters behind =>
      obtain ⟨rfl, wordChars, _⟩ := split_eq cut
      exact ⟨rfl, word_isCut letter wordChars⟩

theorem next_cutsOff (afterName : Bool) (c : Char) (rest : List Char) : CutsOff (c :: rest) (next afterName c rest) := by
  by_cases digit : isDigit c = true
  · exact digits_cutsOff digit afterName rest
  by_cases letter : c.isAlpha = true
  · exact letters_cutsOff letter afterName rest
  simp only [next, digit, letter, if_false, Bool.false_eq_true]
  split
  · rename_i isTick
    subst isTick
    split
    · exact ⟨rfl, .token (.character _)⟩
    · exact ⟨rfl, .token (.symbol (List.mem_cons_self ..) : Spells _ (.symbol "\x27"))⟩
  rename_i noTick
  split
  · rename_i blank
    cases cut : split isBlank rest with
    | mk blanks behind =>
      obtain ⟨rfl, areBlank, _⟩ := split_eq cut
      exact ⟨rfl, .blanks (List.cons_ne_nil _ _) (List.forall_mem_cons.mpr ⟨blank, areBlank⟩)⟩
  rename_i noBlank
  split
  · rename_i isLineFeed
    subst isLineFeed
    exact ⟨rfl, .lineFeed⟩
  rename_i noLineFeed
  split
  · rename_i dashes
    simp only [Bool.and_eq_true, decide_eq_true_eq] at dashes
    obtain ⟨rfl, second⟩ := dashes
    obtain ⟨rest, rfl⟩ := List.head?_eq_some_iff.mp second
    cases cut : split (· ≠ '\n') rest with
    | mk words behind =>
      obtain ⟨rfl, inLine, ends⟩ := split_eq cut
      have whole : split (· ≠ '\n') ('-' :: (words ++ behind)) = ('-' :: words, behind) :=
        split_append (List.forall_mem_cons.mpr ⟨rfl, inLine⟩) ends
      simp only [whole]
      refine ⟨rfl, .comment (fun inside => ?_) fun d first => ?_⟩
      · simpa using inLine _ inside
      · simpa using ends d first
  have visible : isBlank c = false ∧ c ≠ '\n' := ⟨by simpa using noBlank, noLineFeed⟩
  -- No word, number or tick starts here, so that only a string or a symbol could.
  have noFront {slice after : List Char} (whole : c :: rest = slice ++ after) (lexeme : Lexeme)
      (noString : ∀ inside, rest = inside ++ '\x22' :: after → c = '\x22' → ∃ d ∈ inside, d = '\x22' ∨ d = '\n')
      (noSymbol : ∀ s ∈ symbols, c :: rest ≠ s.toList ++ after) : ¬Spells slice lexeme := by
    intro spells
    obtain ⟨_, _, rfl, front⟩ | ⟨inside, rfl, inLine⟩ | ⟨s, isSymbol, rfl⟩ := spells.front
    · cases whole
      rcases front with isLetter | isDigit | isTick
      · exact letter isLetter
      · exact digit isDigit
      · exact noTick isTick
    · simp only [List.cons_append, List.append_assoc, List.nil_append, List.cons.injEq] at whole
      obtain ⟨d, member, either⟩ := noString inside whole.2 whole.1
      exact either.elim (inLine d member).1 (inLine d member).2
    · exact noSymbol s isSymbol whole
  split
  · rename_i isQuote
    split
    · rename_i value after cut
      obtain ⟨rfl, inLine, _⟩ := split_eq cut
      subst isQuote
      exact ⟨by simp, .token (.string fun d member => by simpa using inLine d member)⟩
    · rename_i unended
      subst isQuote
      refine .noToken visible fun slice after lexeme whole => noFront whole lexeme (fun inside is _ => ?_) ?_
      · by_contra none
        push Not at none
        refine unended inside after ?_
        rw [is]
        exact split_append (by simpa using none) (by rintro d ⟨⟩; decide)
      · intro s isSymbol whole
        obtain ⟨present, chars⟩ := symbol_chars s isSymbol
        obtain ⟨d, others, is⟩ := List.exists_cons_of_ne_nil present
        rw [is] at whole chars
        cases whole
        exact (chars _ (List.mem_cons_self ..)).2.1 rfl
  · rename_i noQuote
    split
    · rename_i isSymbol
      exact symbol?_eq_some isSymbol
    · rename_i none
      refine .noToken visible fun slice after lexeme whole => noFront whole lexeme (fun _ _ is => absurd is noQuote) ?_
      intro s isSymbol whole
      rw [whole] at none
      exact symbol?_ne_none isSymbol after none

theorem bitString?_eq_none {text : List Char} (noQuote : ∀ d ∈ text.head?, d ≠ '\x22') : bitString? c text = none := by
  unfold bitString?
  split
  · exact absurd rfl (noQuote _ rfl)
  · rfl

theorem next_of_word (letter : c.isAlpha = true) (wordChars : ∀ d ∈ rest, isWordChar d = true)
    (separated : IsSeparated after) (afterName : Bool) :
    next afterName c (rest ++ after) = .ok (word (c :: rest), after) := by
  have noQuote : ∀ d ∈ (rest ++ after).head?, d ≠ '\x22' := by
    intro d first
    cases rest with
    | nil =>
      rintro rfl
      exact absurd (separated _ first) (by decide)
    | cons e others =>
      cases first
      exact ne_of_test (wordChars _ (List.mem_cons_self ..)) rfl
  rw [next_of_letter letter, bitString?_eq_none noQuote, split_append wordChars (separated.fails rfl)]
  rfl

theorem based?_eq_none {text : List Char} (noMark : ∀ d ∈ text.head?, d ≠ '#') : based? base text = none := by
  unfold based?
  split
  · exact absurd rfl (noMark _ rfl)
  · rfl

theorem next_of_symbol (isSymbol : s ∈ symbols) (separated : IsSeparated after) (afterName : Bool)
    : ∃ c rest, s.toList = c :: rest ∧
      next afterName c (rest ++ after) = .ok (⟨s.toList, some (.symbol s)⟩, after) := by
  obtain ⟨present, chars⟩ := symbol_chars s isSymbol
  obtain ⟨c, rest, is⟩ := List.exists_cons_of_ne_nil present
  refine ⟨c, rest, is, ?_⟩
  obtain ⟨noTick, noQuote, noLineFeed, noBlank, noDigit, noLetter⟩ := chars c (is ▸ List.mem_cons_self ..)
  have itself : ∀ s ∈ symbols, symbols.find? (·.toList.isPrefixOf s.toList) = some s := by decide
  have sole : ∀ s ∈ symbols, s.toList.head? = some '-' → s.toList = ['-'] := by decide
  have noComment : (decide (c = '-') && decide ((rest ++ after).head? = some '-')) = false := by
    rw [Bool.and_eq_false_iff, decide_eq_false_iff_not, decide_eq_false_iff_not, ← not_and_or]
    rintro ⟨rfl, second⟩
    have alone := sole s isSymbol (is ▸ rfl)
    rw [is] at alone
    cases alone
    exact absurd (separated _ second) (by decide)
  have same : symbols.find? (·.toList.isPrefixOf (s.toList ++ after)) = some s := by
    rw [← itself s isSymbol]
    refine List.find?_congr fun other isOther => ?_
    rw [Bool.eq_iff_iff, List.isPrefixOf_iff_prefix, List.isPrefixOf_iff_prefix]
    refine ⟨fun starts => ?_, fun starts => starts.trans (List.prefix_append ..)⟩
    rcases List.prefix_or_prefix_of_prefix starts (List.prefix_append s.toList after) with inside | ⟨beyond, longer⟩
    · exact inside
    · cases beyond with
      | nil => exact ⟨[], by simpa using longer.symm⟩
      | cons d others =>
        -- A longer symbol would go on with layout.
        rw [← longer, List.prefix_append_right_inj] at starts
        obtain ⟨_, rfl⟩ := starts
        obtain ⟨_, _, noLineFeed, noBlank, _⟩ := (symbol_chars other isOther).2 d (by simp [← longer])
        have isLayout := separated d rfl
        simp [layoutChars] at isLayout
        simp [isBlank] at noBlank
        grind
  have found : symbol? (c :: (rest ++ after)) = some (symbol s.toList, after) := by
    rw [← List.cons_append, ← is, symbol?, same]
    simp [← String.length_toList]
  simp only [next, noTick, noBlank, noLineFeed, noComment, noDigit, noLetter, noQuote, found, if_false, Bool.false_eq_true,
    symbol, String.ofList_toList]

theorem next_of_based (isBased : IsBased base digits) (after : List Char) (afterName : Bool) :
    ∃ c rest, basedText base digits = c :: rest ∧
      next afterName c (rest ++ after) = (basedPiece base digits).map (·, after) := by
  obtain ⟨c, others, rfl⟩ := List.exists_cons_of_ne_nil isBased.hasBase
  refine ⟨c, others ++ '#' :: digits ++ ['#'], rfl, ?_⟩
  obtain ⟨digit, areDigits⟩ := List.forall_mem_cons.mp isBased.baseDigits
  have cut : split isDigit (others ++ '#' :: digits ++ ['#'] ++ after) = (others, '#' :: digits ++ '#' :: after) := by
    rw [← split_append areDigits (by rintro d ⟨⟩; decide)]
    simp
  exact (next_of_digit digit afterName cut).1 _ _ (based?_basedText isBased)

theorem next_of_string (inLine : ∀ c ∈ inside, c ≠ '\x22' ∧ c ≠ '\n') (after : List Char) (afterName : Bool) :
    ∃ c rest, '\x22' :: inside ++ ['\x22'] = c :: rest ∧ next afterName c (rest ++ after) =
      .ok (⟨'\x22' :: inside ++ ['\x22'], some (.string (String.ofList inside))⟩, after) := by
  refine ⟨'\x22', inside ++ ['\x22'], rfl, ?_⟩
  have cut : split (fun c => !decide (c = '\x22') && !decide (c = '\n')) (inside ++ '\x22' :: after) = (inside, '\x22' :: after) :=
    split_append (by simpa using inLine) (by rintro d ⟨⟩; decide)
  have noLetter : isDigit '\x22' = false ∧ Char.isAlpha '\x22' = false := by decide
  simp [next, isBlank, noLetter, cut]

theorem next_of_bitString (isBase : letter = base.letter ∨ letter = base.letter.toUpper)
    (hexDigits : ∀ c ∈ digits, isHexChar c = true) (after : List Char) (afterName : Bool) :
    ∃ c rest, letter :: '\x22' :: digits ++ ['\x22'] = c :: rest ∧ next afterName c (rest ++ after) =
      .ok (⟨letter :: '\x22' :: digits ++ ['\x22'],
        some (.bitString base (String.ofList (withoutUnderscores digits)))⟩, after) := by
  refine ⟨letter, '\x22' :: digits ++ ['\x22'], rfl, ?_⟩
  have isLetter : letter.isAlpha = true := by rcases isBase with rfl | rfl <;> cases base <;> decide
  have found := bitString?_bitString after isBase hexDigits
  rw [next_of_letter isLetter]
  simp only [List.cons_append, List.append_assoc, List.nil_append] at found ⊢
  rw [found]
  rfl

theorem next_of_spells {lexeme : Lexeme} (spells : Spells slice lexeme) (separated : IsSeparated after)
    (noCharacter : ∀ value, lexeme = .character value → afterName = false)
    (noTick : lexeme = .symbol "\x27" → afterName = true) :
    ∃ c rest, slice = c :: rest ∧ next afterName c (rest ++ after) = .ok (⟨slice, some lexeme⟩, after) := by
  cases spells with
  | @keyword c rest letter wordChars reserved =>
    refine ⟨c, rest, rfl, ?_⟩
    rw [next_of_word letter wordChars separated, word]
    simp only [List.contains_iff_mem, reserved, if_true]
  | @identifier c rest letter wordChars free =>
    refine ⟨c, rest, rfl, ?_⟩
    rw [next_of_word letter wordChars separated, word]
    simp only [List.contains_iff_mem, free, if_false]
  | @number c rest digit digits =>
    refine ⟨c, rest, rfl, ?_⟩
    have isNumber : split (fun c => isDigit c || c = '_') (rest ++ after) = (rest, after) :=
      split_append (fun d member => by simpa using digits d member) (separated.fails rfl)
    cases cut : split isDigit (rest ++ after) with
    | mk front behind =>
      obtain ⟨whole, areDigits, _⟩ := split_eq cut
      have noMark : ∀ d ∈ behind.head?, d ≠ '#' := by
        rintro d first rfl
        obtain ⟨later, rfl⟩ := List.head?_eq_some_iff.mp first
        rw [whole, split_append (fun d member => by simp [areDigits d member]) (by rintro d ⟨⟩; decide)] at isNumber
        cases isNumber
        exact absurd (separated '#' rfl) (by decide)
      rw [(next_of_digit digit afterName cut).2 (based?_eq_none noMark), isNumber]
      rfl
  | @based base digits n isBased value =>
    obtain ⟨c, rest, is, found⟩ := next_of_based isBased after afterName
    exact ⟨c, rest, is, by rw [found, basedPiece, value]; rfl⟩
  | character value =>
    cases noCharacter value rfl
    exact ⟨_, _, rfl, rfl⟩
  | string inLine => exact next_of_string inLine after afterName
  | bitString isBase hexDigits => exact next_of_bitString isBase hexDigits after afterName
  | symbol isSymbol =>
    rcases List.mem_cons.mp isSymbol with rfl | isSymbol
    · cases noTick rfl
      exact ⟨_, _, rfl, rfl⟩
    · exact next_of_symbol isSymbol separated afterName

end Piece

end RtlBridge

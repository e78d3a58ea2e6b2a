import Mathlib.Data.Bool.AllAny
import RtlBridge.Proofs.Text.Numeral
import RtlBridge.Proofs.Token.Relayout

/-! What based literals denote. -/

namespace RtlBridge

open List

namespace Text.Numeral

/-- What digits denote in a base from 2 to 36. Binary digits may carry a mark. In base 0 the digits tell their base:
with the mark they are binary, otherwise decimal, and then only zeros start with a zero. -/
inductive Denotes : Nat → List Char → Nat → Prop
  | placed {base : Nat} {digits : List Char} (inRange : 2 ≤ base ∧ base ≤ 36) (present : digits ≠ [])
      (areDigits : ∀ d ∈ digits, IsDigitIn base d) : Denotes base digits (weighted base digits)
  | marked {base : Nat} {mark : Char} {digits : List Char} (isBase : base = 0 ∨ base = 2) (isMark : mark = 'b' ∨ mark = 'B')
      (present : digits ≠ []) (areDigits : ∀ d ∈ digits, IsDigitIn 2 d) : Denotes base ('0' :: mark :: digits) (weighted 2 digits)
  | zeros {digits : List Char} (present : digits ≠ []) (areZeros : ∀ d ∈ digits, d = '0') : Denotes 0 digits 0
  | decimal {digits : List Char} (present : digits ≠ []) (areDigits : ∀ d ∈ digits, IsDigitIn 10 d)
      (front : digits.head? ≠ some '0') : Denotes 0 digits (weighted 10 digits)

theorem Denotes.ne_nil (denotes : Denotes base digits n) : digits ≠ [] := by
  cases denotes with
  | marked _ _ _ _ => exact cons_ne_nil _ _
  | placed _ present _ | zeros present _ | decimal present _ _ => exact present

theorem afterBinaryMark?_eq_some : afterBinaryMark? digits = some rest ↔ ∃ mark, (mark = 'b' ∨ mark = 'B') ∧ digits = '0' :: mark :: rest := by
  constructor
  · intro marked
    unfold afterBinaryMark? at marked
    split at marked
    · cases marked
      exact ⟨'b', .inl rfl, rfl⟩
    · cases marked
      exact ⟨'B', .inr rfl, rfl⟩
    · cases marked
  · rintro ⟨mark, rfl | rfl, rfl⟩ <;> rfl

theorem afterBinaryMark?_of_digits (areDigits : ∀ d ∈ digits, isDigit d = true) : afterBinaryMark? digits = none := by
  cases marked : afterBinaryMark? digits with
  | none => rfl
  | some rest =>
    obtain ⟨mark, isMark, rfl⟩ := afterBinaryMark?_eq_some.mp marked
    have isDigit := areDigits mark (by simp)
    rcases isMark with rfl | rfl <;> exact absurd isDigit (by decide)

theorem denotes_of_readBased? (read : readBased? base digits = some n) : Denotes base digits n := by
  unfold readBased? at read
  split at read
  · rename_i isZero
    subst isZero
    split at read
    · rename_i rest marked
      obtain ⟨mark, isMark, rfl⟩ := afterBinaryMark?_eq_some.mp marked
      obtain ⟨present, areDigits, rfl⟩ := read?_eq_some_iff.mp read
      exact .marked (.inl rfl) isMark present areDigits
    · split at read
      · rename_i zero
        split at read
        · rename_i all
          cases read
          exact .zeros (by rintro rfl; cases zero) (by simpa using all)
        · cases read
      · rename_i front
        obtain ⟨present, areDigits, rfl⟩ := read?_eq_some_iff.mp read
        exact .decimal present areDigits front
  · split at read
    · rename_i isTwo
      subst isTwo
      obtain ⟨present, areDigits, rfl⟩ := read?_eq_some_iff.mp read
      cases marked : afterBinaryMark? digits with
      | none =>
        rw [marked] at present areDigits
        exact .placed (by decide) present areDigits
      | some rest =>
        rw [marked] at present areDigits
        obtain ⟨mark, isMark, rfl⟩ := afterBinaryMark?_eq_some.mp marked
        exact .marked (.inr rfl) isMark present areDigits
    · split at read
      · rename_i inRange
        simp only [Bool.and_eq_true, decide_eq_true_eq] at inRange
        obtain ⟨present, areDigits, rfl⟩ := read?_eq_some_iff.mp read
        exact .placed ⟨by omega, inRange.2⟩ present areDigits
      · cases read

theorem readBased?_of_denotes (denotes : Denotes base digits n) : readBased? base digits = some n := by
  cases denotes with
  | placed inRange present areDigits =>
    have read := read?_eq_some_iff.mpr ⟨present, areDigits, rfl⟩
    by_cases isTwo : base = 2
    · subst isTwo
      have unmarked := afterBinaryMark?_of_digits fun d member => isDigit_of_isDigitIn (by decide) (areDigits d member)
      simp [readBased?, unmarked, read]
    · have notZero : base ≠ 0 := by omega
      have inside : 2 < base ∧ base ≤ 36 := by omega
      simp [readBased?, notZero, isTwo, inside, read]
  | @marked base mark digits isBase isMark present areDigits =>
    have read := read?_eq_some_iff.mpr ⟨present, areDigits, rfl⟩
    have marked : afterBinaryMark? ('0' :: mark :: digits) = some digits :=
      afterBinaryMark?_eq_some.mpr ⟨mark, isMark, rfl⟩
    rcases isBase with rfl | rfl <;> simp [readBased?, marked, read]
  | zeros present areZeros =>
    have unmarked := afterBinaryMark?_of_digits fun d member => areZeros d member ▸ (by decide : isDigit '0' = true)
    obtain ⟨first, rest, rfl⟩ := exists_cons_of_ne_nil present
    obtain ⟨rfl, later⟩ := forall_mem_cons.mp areZeros
    simpa [readBased?, unmarked] using later
  | decimal present areDigits front =>
    have read := read?_eq_some_iff.mpr ⟨present, areDigits, rfl⟩
    have unmarked := afterBinaryMark?_of_digits fun d member => isDigit_of_isDigitIn (by decide) (areDigits d member)
    simp [readBased?, unmarked, front, read]

theorem readBased?_eq_some_iff : readBased? base digits = some n ↔ Denotes base digits n :=
  ⟨denotes_of_readBased?, readBased?_of_denotes⟩

end Text.Numeral

/-! ### Literals -/

open Text.Numeral

theorem basedValue?_eq_some_iff (hasBase : base ≠ []) (baseDigits : ∀ c ∈ base, Text.isDigit c = true) :
    basedValue? base digits = some n ↔ Denotes (weighted 10 base) (Piece.withoutUnderscores digits) n := by
  have isBase : read? 10 base = some (weighted 10 base) :=
    read?_eq_some_iff.mpr ⟨hasBase, fun c member => isDigitIn_ten (baseDigits c member), rfl⟩
  rw [basedValue?, isBase, Option.bind_some, readBased?_eq_some_iff]

theorem Scanner.scan_error {scanner : Scanner} (failed : Piece.next scanner.afterName c rest = .error cause) :
    scanner.scan (c :: rest) = .error (.malformed scanner.line cause) := by rw [scan, length_cons, run, failed]

/-- Without digits the base is a number of its own, and no token starts at the mark behind it. -/
theorem Scanner.scan_noDigits (hasBase : base ≠ []) (baseDigits : ∀ c ∈ base, Text.isDigit c = true) (scanner : Scanner) :
    scanner.scan (basedText base []) = .error (.malformed scanner.line (.unexpectedCharacter '#')) := by
  obtain ⟨c, others, rfl⟩ := exists_cons_of_ne_nil hasBase
  obtain ⟨digit, areDigits⟩ := forall_mem_cons.mp baseDigits
  have cut : Piece.split Text.isDigit (others ++ ['#', '#']) = (others, ['#', '#']) :=
    Piece.split_append areDigits (by rintro d ⟨⟩; decide)
  have isNumber : Piece.split (fun c => Text.isDigit c || c = '_') (others ++ ['#', '#']) = (others, ['#', '#']) :=
    Piece.split_append (fun d member => by simp [areDigits d member]) (by rintro d ⟨⟩; decide)
  have found := (Piece.next_of_digit digit scanner.afterName cut).2 rfl
  rw [isNumber] at found
  have noLineFeed : c ≠ '\n' := Piece.ne_of_test digit rfl
  rw [show basedText (c :: others) [] = c :: (others ++ ['#', '#']) by simp [basedText], scan_next found, scan_error rfl]
  simp [pass, Piece.number, noLineFeed]

theorem Scanner.scan_noValue (isBased : IsBased base digits) (value : basedValue? base digits = none) (scanner : Scanner) :
    scanner.scan (basedText base digits) =
      .error (.malformed scanner.line (.invalidBasedLiteral (String.ofList (basedText base digits)))) := by
  obtain ⟨c, rest, is, failed⟩ := Piece.next_of_based isBased [] scanner.afterName
  rw [append_nil, Piece.basedPiece, value] at failed
  rw [congrArg scanner.scan is, scan_error failed]

theorem Scanner.scan_value (isBased : IsBased base digits) (value : basedValue? base digits = some n) (scanner : Scanner) :
    scanner.scan (basedText base digits) =
      .ok (Scanner.finish ⟨⟨.number (toString n), scanner.line, scanner.position,
        scanner.position + (basedText base digits).length⟩ :: scanner.done, scanner.line,
        scanner.position + (basedText base digits).length⟩) := by
  obtain ⟨c, rest, is, found⟩ := Piece.next_of_based isBased [] scanner.afterName
  rw [append_nil, Piece.basedPiece, value] at found
  have noLineFeed : basedText base digits ≠ ['\n'] := by
    intro same
    have mark : '#' ∈ basedText base digits := by simp [basedText]
    simp [same] at mark
  rw [congrArg scanner.scan is, scan_next found, pass, if_neg noLineFeed]
  rfl

/-- A based literal is one number token with the value that its digits denote in its base. Where they denote none, it is
refused in its line. Numbers may have any number of digits here. -/
theorem based_literals_denote (isLayout : IsLayout gap) (hasBase : base ≠ [])
    (baseDigits : ∀ c ∈ base, Text.isDigit c = true) (hexDigits : ∀ c ∈ digits, Piece.isHexChar c = true) :
    let text := gap ++ basedText base digits
    let line := 1 + gap.count '\n'
    let denotes := Denotes (weighted 10 base) (Piece.withoutUnderscores digits)
    (∀ n, denotes n → tokenize text = .ok ⟨[⟨.number (toString n), line, gap.length, text.length⟩],
      ⟨.endOfFile, line, text.length, text.length⟩⟩) ∧
    ((∀ n, ¬denotes n) → tokenize text = .error (.malformed line
      (if digits = [] then .unexpectedCharacter '#' else .invalidBasedLiteral (String.ofList (basedText base digits))))) := by
  intro text line denotes
  have start : tokenize text = Scanner.scan ⟨[], line, gap.length⟩ (basedText base digits) := by
    have skipped := Scanner.scan_layout isLayout ⟨[], 1, 0⟩ (basedText base digits)
    rwa [Scanner.skip, Nat.zero_add] at skipped
  rw [start]
  by_cases hasDigits : digits = []
  · subst hasDigits
    rw [if_pos rfl]
    exact ⟨fun n isValue => absurd rfl isValue.ne_nil, fun _ => Scanner.scan_noDigits hasBase baseDigits _⟩
  · rw [if_neg hasDigits]
    have isBased : IsBased base digits := ⟨hasBase, baseDigits, hasDigits, hexDigits⟩
    refine ⟨fun n isValue => ?_, fun noValue => Scanner.scan_noValue isBased ?_ _⟩
    · have value := (basedValue?_eq_some_iff hasBase baseDigits).mpr isValue
      rw [Scanner.scan_value isBased value]
      simp [Scanner.finish, text]
    · exact Option.eq_none_iff_forall_ne_some.mpr fun n value =>
        noValue n ((basedValue?_eq_some_iff hasBase baseDigits).mp value)

/-- The base 16 in digits of another script. -/
theorem arabicBase_denotes :
    Denotes (weighted 10 ['١', '٦']) ['f', 'F'] 255 ∧
      tokenize "-- a\n ١٦#f_F#".toList = .ok ⟨[⟨.number "255", 2, 6, 13⟩], ⟨.endOfFile, 2, 13, 13⟩⟩ := by
  have denotes : Denotes 16 ['f', 'F'] 255 := readBased?_eq_some_iff.mp rfl
  have base : weighted 10 ['١', '٦'] = 16 := by decide
  have isLayout : IsLayout ('-' :: '-' :: [' ', 'a'] ++ '\n' :: [' ']) := .comment (by decide) (.blank (by decide) .nil)
  have baseDigits : ∀ c ∈ ['١', '٦'], Text.isDigit c = true := List.all_iff_forall_prop.mp (by decide)
  have hexDigits : ∀ c ∈ ['f', '_', 'F'], Piece.isHexChar c = true := List.all_iff_forall_prop.mp (by decide)
  exact ⟨base ▸ denotes, (based_literals_denote isLayout (by decide) baseDigits hexDigits).1 255 (base ▸ denotes)⟩

/-- Base 0 is no base, and yet its digits are read. -/
theorem base_zero_accepted : tokenize "0#12#".toList = .ok ⟨[⟨.number "12", 1, 0, 5⟩], ⟨.endOfFile, 1, 5, 5⟩⟩ := rfl

end RtlBridge

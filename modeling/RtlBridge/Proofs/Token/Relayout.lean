import RtlBridge.Proofs.Token.Tiling

/-! Other layouts of a text. Its tokens with other separators between them are read as before. -/

namespace RtlBridge

/-- What may separate two tokens: layout that does not start with a comment. -/
structure IsSeparator (text : List Char) : Prop where
  layout : IsLayout text
  present : text ≠ []
  front : IsSeparated text

def joined (separators : Nat → List Char) : List (List Char) → List Char
  | [] => []
  | [slice] => slice
  | slice :: rest => slice ++ separators 0 ++ joined (fun n => separators (n + 1)) rest

def ticksFollowNames : Bool → List Token → Bool
  | _, [] => true
  | afterName, token :: rest => (!token.isSymbol "\x27" || afterName) && ticksFollowNames token.endsName rest

def Token.slice (text : List Char) (token : Token) : List Char := stretch text token.start token.stop

def relaid (separators : Nat → List Char) (text : List Char) (stream : TokenStream) : List Char :=
  joined separators (stream.tokens.map (Token.slice text))

namespace Scanner

theorem run_enough (isFirst : text.length ≤ first) (isSecond : text.length ≤ second)
    : run first scanner text = run second scanner text := by
  induction first generalizing second scanner text with
  | zero =>
    cases List.length_eq_zero_iff.mp (Nat.le_zero.mp isFirst)
    cases second <;> rfl
  | succ first ih =>
    cases text with
    | nil => cases second <;> rfl
    | cons c rest =>
      obtain ⟨second, rfl⟩ := Nat.exists_eq_add_one_of_ne_zero (Nat.ne_zero_of_lt isSecond)
      simp only [List.length_cons, Nat.add_le_add_iff_right] at isFirst isSecond
      rw [run, run]
      cases found : Piece.next scanner.afterName c rest with
      | error cause => rfl
      | ok result =>
        obtain ⟨piece, after⟩ := result
        have shorter := length_of_next found
        exact ih (shorter.trans isFirst) (shorter.trans isSecond)

def scan (scanner : Scanner) (text : List Char) : Except Fault TokenStream := run text.length scanner text

theorem scan_next {scanner : Scanner} (found : Piece.next scanner.afterName c rest = .ok (piece, after)) :
    scanner.scan (c :: rest) = (scanner.pass piece).scan after := by
  rw [scan, List.length_cons, run, found]
  exact run_enough (length_of_next found) (Nat.le_refl _)

theorem scan_blank (blank : Piece.isBlank c = true) (scanner : Scanner) (rest : List Char) :
    scanner.scan (c :: rest) = (scanner.pass ⟨[c], none⟩).scan rest := by
  have next_of_blank {afterName : Bool} {c : Char} {rest : List Char} (blank : Piece.isBlank c = true) :
      Piece.next afterName c rest = .ok (⟨c :: rest.takeWhile Piece.isBlank, none⟩, rest.dropWhile Piece.isBlank) := by
    simp only [Piece.isBlank, Bool.or_eq_true, decide_eq_true_eq, or_assoc] at blank
    rcases blank with rfl | rfl | rfl | rfl | rfl <;> rfl
  have noLineFeed {c : Char} (blank : Piece.isBlank c = true) : c ≠ '\n' := Piece.ne_of_test blank rfl
  rw [scan_next (next_of_blank blank)]
  cases rest with
  | nil => rfl
  | cons d others =>
    cases isBlank : Piece.isBlank d with
    | false => simp [isBlank]
    | true =>
      rw [scan_next (next_of_blank isBlank)]
      simp [pass, isBlank, noLineFeed blank, noLineFeed isBlank, Nat.add_comm, Nat.add_left_comm]

def skip (scanner : Scanner) (gap : List Char) : Scanner :=
  ⟨scanner.done, scanner.line + gap.count '\n', scanner.position + gap.length⟩

theorem scan_layout (isLayout : IsLayout gap) (scanner : Scanner) (rest : List Char) :
    scanner.scan (gap ++ rest) = (scanner.skip gap).scan rest := by
  induction isLayout generalizing scanner with
  | nil => rfl
  | @blank c others isBlank _ ih =>
    rw [List.cons_append, scan_blank isBlank scanner, ih]
    have noLineFeed : c ≠ '\n' := Piece.ne_of_test isBlank rfl
    simp [pass, skip, noLineFeed, Nat.add_assoc, Nat.add_comm 1]
  | lineFeed _ ih =>
    rw [List.cons_append, scan_next rfl, ih]
    simp [pass, skip, Nat.add_assoc, Nat.add_comm 1]
  | @comment words others inLine _ ih =>
    have inside : ∀ c ∈ words, c ≠ '\n' := fun c member is => inLine (is ▸ member)
    have cut : Piece.split (· ≠ '\n') (('-' :: words) ++ '\n' :: (others ++ rest)) =
        ('-' :: words, '\n' :: (others ++ rest)) := Piece.split_append (by simpa using inside) (by rintro d ⟨⟩; decide)
    have isComment : Piece.next scanner.afterName '-' (('-' :: words) ++ '\n' :: (others ++ rest)) =
        .ok (⟨'-' :: '-' :: words, none⟩, '\n' :: (others ++ rest)) :=
      congrArg (fun parts : List Char × List Char => Except.ok (Piece.mk ('-' :: parts.1) none, parts.2)) cut
    have isRest := (scan_next isComment).trans ((scan_next rfl).trans (ih _))
    simpa [pass, skip, List.count_eq_zero.mpr inLine, Nat.add_assoc, Nat.add_comm, Nat.add_left_comm] using isRest

theorem scan_token (spells : Spells slice lexeme) (separated : IsSeparated after) {scanner : Scanner}
    (noCharacter : ∀ value, lexeme = .character value → scanner.afterName = false)
    (noTick : lexeme = .symbol "\x27" → scanner.afterName = true) :
    scanner.scan (slice ++ after) = (scanner.pass ⟨slice, some lexeme⟩).scan after := by
  obtain ⟨c, rest, rfl, found⟩ := Piece.next_of_spells spells separated noCharacter noTick
  exact scan_next found

theorem scan_joined {afterName : Bool} {position : Nat} (tiles : Tiles text last afterName position tokens)
    (ticks : ticksFollowNames afterName tokens = true) (areSeparators : ∀ n, IsSeparator (separators n))
    {scanner : Scanner} (isAfter : scanner.afterName = afterName) :
    ∃ last : Scanner, scanner.scan (joined separators (tokens.map (Token.slice text))) = .ok last.finish ∧
      last.done.map Token.lexeme = (tokens.map Token.lexeme).reverse ++ scanner.done.map Token.lexeme := by
  induction tiles generalizing separators scanner with
  | nil stops => exact ⟨scanner, rfl, rfl⟩
  | @cons afterName position token rest inOrder gap nonempty inBounds spells fits later ih =>
    simp only [ticksFollowNames, Bool.and_eq_true, Bool.or_eq_true, Bool.not_eq_true'] at ticks
    have isToken (after : List Char) (separated : IsSeparated after) : scanner.scan (token.slice text ++ after) =
        (scanner.pass ⟨token.slice text, some token.lexeme⟩).scan after := by
      refine scan_token ((spells _).mpr rfl) separated (fun value is => isAfter.trans (fits value is)) fun isTick => ?_
      rw [isAfter]
      simpa [Token.isSymbol, isTick] using ticks.1
    cases rest with
    | nil =>
      have alone := isToken [] .nil
      rw [List.append_nil] at alone
      exact ⟨_, alone, rfl⟩
    | cons next others =>
      have front : IsSeparated (separators 0 ++ joined (fun n => separators (n + 1))
          ((next :: others).map (Token.slice text))) := by
        obtain ⟨c, more, is⟩ := List.exists_cons_of_ne_nil (areSeparators 0).present
        have first := (areSeparators 0).front
        rw [is] at first ⊢
        exact first
      let passed := (scanner.pass ⟨token.slice text, some token.lexeme⟩).skip (separators 0)
      have isAfter' : passed.afterName = token.endsName := rfl
      obtain ⟨last, ok, isDone⟩ := ih ticks.2 (fun n => areSeparators (n + 1)) isAfter'
      refine ⟨last, ?_, ?_⟩
      · rw [← ok, ← scan_layout (areSeparators 0).layout, ← isToken _ front]
        simp [joined]
      · simp [isDone, passed, skip, pass]

end Scanner

theorem tokenize_joined (ok : tokenize text = .ok stream) (ticks : ticksFollowNames false stream.tokens = true)
    (areSeparators : ∀ n, IsSeparator (separators n)) :
    ∃ other, tokenize (relaid separators text stream) = .ok other ∧
      other.tokens.map Token.lexeme = stream.tokens.map Token.lexeme := by
  obtain ⟨last, reaches, rfl⟩ := (tokenize_reaches text).of_ok ok
  have start : Scanner.afterName ⟨[], 1, 0⟩ = false := rfl
  obtain ⟨last, isOk, isDone⟩ := Scanner.scan_joined reaches.tiles ticks areSeparators start
  exact ⟨last.finish, isOk, by simpa [Scanner.finish] using congrArg List.reverse isDone⟩

end RtlBridge

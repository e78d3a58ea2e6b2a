import RtlBridge.Proofs.Token.Tiling

/-! Lines of tokens. A new line starts at a line feed between tokens. Only one kind of token can hold a line feed, the
character literal of a line feed, and that one is not counted. -/

namespace RtlBridge

/-- How many of the tokens are line feeds between ticks. -/
def quotedFeeds (tokens : List Token) : Nat := tokens.countP (·.lexeme == .character '\n')

theorem Spells.eq_of_feed (spells : Spells slice lexeme) (feed : '\n' ∈ slice) : lexeme = .character '\n' := by
  have noFeed {test : Char → Bool} {text : List Char} (passes : ∀ c ∈ text, test c = true)
      (fails : test '\n' = false) : '\n' ∉ text := fun member => Piece.ne_of_test (passes _ member) fails rfl
  have word {c : Char} {rest : List Char} (letter : c.isAlpha = true)
      (wordChars : ∀ d ∈ rest, Piece.isWordChar d = true) : '\n' ∉ c :: rest :=
    List.not_mem_cons_of_ne_of_not_mem (Piece.ne_of_test letter rfl).symm (noFeed wordChars rfl)
  cases spells with
  | keyword letter wordChars _ | identifier letter wordChars _ => exact absurd feed (word letter wordChars)
  | number digit digits =>
    rcases List.mem_cons.mp feed with rfl | inside
    · exact absurd digit (by decide)
    · exact absurd (digits _ inside) (by decide)
  | based isBased _ =>
    simp [basedText, noFeed isBased.baseDigits rfl, noFeed isBased.hexDigits rfl] at feed
  | character value => simpa [eq_comm] using feed
  | string inLine =>
    have noFeed : '\n' ∉ _ := fun inside => (inLine _ inside).2 rfl
    simp [noFeed] at feed
  | @bitString letter base digits isBase hexDigits =>
    have noLetter : '\n' ≠ letter := by rcases isBase with rfl | rfl <;> cases base <;> decide
    simp [noLetter, noFeed hexDigits rfl] at feed
  | symbol isSymbol =>
    rcases List.mem_cons.mp isSymbol with rfl | isSymbol
    · exact absurd feed (by decide)
    · exact absurd rfl ((Piece.symbol_chars _ isSymbol).2 _ feed).2.2.1

theorem Spells.eq_of_character (spells : Spells slice (.character value)) : slice = ['\x27', value, '\x27'] := by
  cases spells
  rfl

/-- A line feed of a piece starts a line, or it is a token. -/
theorem Piece.IsCut.count_feeds {lexeme : Option Lexeme} (isCut : IsCut after ⟨slice, lexeme⟩) :
    slice.count '\n' = (if slice = ['\n'] then 1 else 0) + if lexeme = some (.character '\n') then 1 else 0 := by
  have inLine (noFeed : '\n' ∉ slice) : slice.count '\n' = 0 ∧ slice ≠ ['\n'] :=
    ⟨List.count_eq_zero.mpr noFeed, by rintro rfl; exact noFeed (List.mem_cons_self ..)⟩
  cases isCut with
  | @token _ lexeme spells =>
    by_cases feed : '\n' ∈ slice
    · cases spells.eq_of_feed feed
      cases spells.eq_of_character
      decide
    · have other : lexeme ≠ .character '\n' := by
        rintro rfl
        simp [spells.eq_of_character] at feed
      simp [inLine feed, other]
  | blanks _ areBlank => simp [inLine fun feed => ne_of_test (areBlank _ feed) (by decide : isBlank '\n' = false) rfl]
  | lineFeed => decide
  | comment noFeed _ => simp [List.count_eq_zero.mpr noFeed]

namespace Scanner

/-- A line is one more than the line feeds before a position, those of tokens before it aside. -/
def IsLineAt (text : List Char) (before : List Token) (line position : Nat) : Prop :=
  line + quotedFeeds before = 1 + (text.take position).count '\n'

structure CountsLines (text : List Char) (scanner : Scanner) : Prop where
  here : IsLineAt text scanner.done scanner.line scanner.position
  tokens : ∀ token before, token :: before <:+ scanner.done → IsLineAt text before token.line token.start

theorem CountsLines.pass (counts : CountsLines text scanner) (reaches : Reaches text scanner (c :: rest))
    (found : Piece.next scanner.afterName c rest = .ok (piece, after)) : CountsLines text (scanner.pass piece) := by
  obtain ⟨whole, isCut⟩ := (Piece.next_cutsOff scanner.afterName c rest).of_ok found
  obtain ⟨slice, lexeme⟩ := piece
  have passed : (text.take (scanner.position + slice.length)).count '\n' =
      (text.take scanner.position).count '\n' + slice.count '\n' := by
    rw [List.take_add, reaches.ahead, whole, List.take_left, List.count_append]
  have line : (scanner.pass ⟨slice, lexeme⟩).line = scanner.line + if slice = ['\n'] then 1 else 0 := by
    simp only [Scanner.pass]
    split <;> rfl
  have done : quotedFeeds (scanner.pass ⟨slice, lexeme⟩).done =
      quotedFeeds scanner.done + if lexeme = some (.character '\n') then 1 else 0 := by
    cases lexeme <;> simp [Scanner.pass, quotedFeeds, List.countP_cons]
  have here := counts.here
  have feeds := isCut.count_feeds
  refine ⟨?_, fun token before isSuffix => ?_⟩
  · rw [IsLineAt] at here ⊢
    rw [line, done, show (scanner.pass ⟨slice, lexeme⟩).position = scanner.position + slice.length from rfl]
    omega
  · cases lexeme with
    | none => exact counts.tokens token before isSuffix
    | some lexeme =>
      rcases List.suffix_cons_iff.mp isSuffix with same | isSuffix
      · cases same
        exact here
      · exact counts.tokens token before isSuffix

theorem CountsLines.finish (counts : CountsLines text scanner)
    (isPrefix : before ++ [token] <+: scanner.finish.tokens ++ [scanner.finish.stop]) :
    IsLineAt text before token.line token.start := by
  have isSuffix : token :: before.reverse <:+ scanner.finish.stop :: scanner.done := by
    rw [← List.reverse_prefix]
    simpa [Scanner.finish] using isPrefix
  have line : IsLineAt text before.reverse token.line token.start := by
    rcases List.suffix_cons_iff.mp isSuffix with same | isSuffix
    · obtain ⟨rfl, is⟩ := List.cons.inj same
      exact is ▸ counts.here
    · exact counts.tokens token _ isSuffix
  rwa [IsLineAt, quotedFeeds, List.countP_reverse] at line

end Scanner

/-- Lines are counted from 1, and a line feed starts the next one unless it is a token, between ticks. So a token, and
the place where a text is refused, is in the line that the line feeds before it tell if none of them is a token. -/
theorem lines_count_feeds (text : List Char) :
    ComesTo (fun stream => ∀ before token, before ++ [token] <+: stream.tokens ++ [stream.stop] →
        token.line + quotedFeeds before = 1 + (text.take token.start).count '\n')
      (fun fault => ∃ line cause tokens reached, fault = .malformed line cause ∧ reached < text.length ∧
        Tiles text (fun _ position => position ≤ reached ∧ IsLayout (stretch text position reached)) false 0 tokens ∧
        Refuses (text.drop reached) cause ∧ line + quotedFeeds tokens = 1 + (text.take reached).count '\n')
      (tokenize text) := by
  let motive (scanner : Scanner) (rest : List Char) := scanner.Reaches text rest ∧ scanner.CountsLines text
  have start : motive ⟨[], 1, 0⟩ text := by
    refine ⟨.start text, rfl, fun token before isSuffix => ?_⟩
    cases List.suffix_nil.mp isSuffix
  have keeps (scanner : Scanner) (c : Char) (rest : List Char) (piece : Piece) (after : List Char)
      (holds : motive scanner (c :: rest)) (found : Piece.next scanner.afterName c rest = .ok (piece, after)) :
      motive (scanner.pass piece) after := ⟨holds.1.pass found, holds.2.pass holds.1 found⟩
  refine (Scanner.run_comesTo keeps (Nat.le_refl _) start).imp ?_ ?_
  · rintro stream ⟨last, ⟨_, counts⟩, rfl⟩ before token isPrefix
    exact counts.finish isPrefix
  · rintro fault ⟨last, c, rest, cause, ⟨reaches, counts⟩, failed, rfl⟩
    obtain ⟨inside, tiles, refuses⟩ := reaches.refused failed
    refine ⟨last.line, cause, _, last.position, rfl, inside, tiles, refuses, ?_⟩
    rw [quotedFeeds, List.countP_reverse]
    exact counts.here

/-- A character literal goes over the end of its line, and what is behind it is still in the line it starts in. -/
theorem quoted_feed_uncounted :
    tokenize "\x27\n\x27 a".toList = .ok ⟨[⟨.character '\n', 1, 0, 3⟩, ⟨.identifier "a", 1, 4, 5⟩],
      ⟨.endOfFile, 1, 5, 5⟩⟩ := rfl

end RtlBridge

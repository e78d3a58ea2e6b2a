import RtlBridge.Proofs.Token.Scanned
import RtlBridge.Proofs.Vhdl.Printing

/-! What parsers make of tokens. Tokens that say the same are read alike wherever they stand: what is built has the
parsed shape, is the same but for lines and positions, and has its aggregates at places of the tokens that were
passed. -/

namespace RtlBridge.Vhdl

open List (Forall₂ forall_mem_cons map_cons)

/-- Cursors in front of the same scanned tokens, which may stand at other places. No two of them share one. -/
structure Cursor.Alike (first second : Cursor) : Prop where
  scanned : ∀ token ∈ first.ahead, token.lexeme.IsScanned
  distinct : (first.ahead.map Token.start).Nodup
  same : Forall₂ (fun token other => other.lexeme = token.lexeme) first.ahead second.ahead
  stop : first.stop.lexeme = .endOfFile
  otherStop : second.stop.lexeme = .endOfFile

namespace Cursor.Alike

variable {first second : Cursor} (alike : first.Alike second)

include alike

theorem head : first.head.lexeme.IsScanned ∧ second.head.lexeme = first.head.lexeme := by
  obtain ⟨ahead, stop, source⟩ := first
  obtain ⟨ahead', stop', source'⟩ := second
  cases alike.same with
  | nil =>
    refine ⟨?_, alike.otherStop.trans alike.stop.symm⟩
    rw [Cursor.head, alike.stop]
    trivial
  | cons same _ => exact ⟨alike.scanned _ (List.mem_cons_self ..), same⟩

theorem second_eq : second.second.lexeme = first.second.lexeme := by
  obtain ⟨ahead, stop, source⟩ := first
  obtain ⟨ahead', stop', source'⟩ := second
  cases alike.same with
  | nil => exact alike.otherStop.trans alike.stop.symm
  | cons _ rest =>
    cases rest with
    | nil => exact alike.otherStop.trans alike.stop.symm
    | cons same _ => exact same

theorem later (isSuffix : tokens <:+ first.ahead)
    (same : Forall₂ (fun token other => other.lexeme = token.lexeme) tokens others) :
    Alike { first with ahead := tokens } { second with ahead := others } :=
  ⟨fun token member => alike.scanned token (isSuffix.mem member),
    alike.distinct.sublist (isSuffix.sublist.map Token.start), same, alike.stop, alike.otherStop⟩

theorem tail : first.tail.Alike second.tail := by
  refine alike.later (List.tail_suffix _) ?_
  obtain ⟨ahead, stop, source⟩ := first
  obtain ⟨ahead', stop', source'⟩ := second
  cases alike.same with
  | nil => exact .nil
  | cons _ rest => exact rest

end Cursor.Alike

theorem all_of_forall₂ {α β : Type} {related : α → β → Prop} {holds : α → Prop} {first : List α} {second : List β}
    (all : Forall₂ related first second) (implies : ∀ x y, related x y → holds x) : ∀ x ∈ first, holds x := by
  induction all with
  | nil => simp
  | cons here _ ih => exact forall_mem_cons.mpr ⟨implies _ _ here, ih⟩

theorem map_eq_of_forall₂ {α β γ : Type} {related : α → β → Prop} {view : α → γ} {other : β → γ} {first : List α}
    {second : List β} (all : Forall₂ related first second)
    (implies : ∀ x ∈ first, ∀ y, related x y → view x = other y) : first.map view = second.map other := by
  induction all with
  | nil => rfl
  | cons here _ ih =>
    obtain ⟨isFirst, later⟩ := forall_mem_cons.mp implies
    rw [map_cons, map_cons, isFirst _ here, ih later]

/-- A value with a property, and another that looks the same. -/
structure SameBy {α β : Type} (property : α → Prop) (view : α → β) (value other : α) : Prop where
  holds : property value
  same : view value = view other

theorem SameBy.all {α β : Type} {property : α → Prop} {view : α → β} {first second : List α}
    (related : Forall₂ (SameBy property view) first second) :
    (∀ x ∈ first, property x) ∧ first.map view = second.map view :=
  ⟨all_of_forall₂ related fun _ _ => SameBy.holds, map_eq_of_forall₂ related fun _ _ _ => SameBy.same⟩

namespace Parser

variable {α β : Type} {places : Nat → Prop}

/-- Where the first parser ends well, the second does, at a cursor of its own; what they build is related. The first
passes tokens ahead, and if those stand at the places, what it builds is placed. -/
def AgreeAt (places : Nat → Prop) (first second : Cursor) (parser other : Parser α) (post : α → α → Prop)
    (placed : α → Prop) : Prop :=
  ∀ value after, (parser first).result = .ok (value, after) → ∃ value' after',
    (other second).result = .ok (value', after') ∧ after.Alike after' ∧ post value value' ∧
      ∃ passed, first.ahead = passed ++ after.ahead ∧ ((∀ token ∈ passed, places token.start) → placed value)

def Agree (places : Nat → Prop) (parser other : Parser α) (post : α → α → Prop) (placed : α → Prop) : Prop :=
  ∀ first second : Cursor, first.Alike second → AgreeAt places first second parser other post placed

/-- A parser that reads the same tokens alike wherever they stand. -/
abbrev Steady (places : Nat → Prop) (parser : Parser α) (post : α → α → Prop) (placed : α → Prop) : Prop :=
  Agree places parser parser post placed

def Fails (parser : Parser α) : Prop := ∀ cursor value after, (parser cursor).result ≠ .ok (value, after)

namespace Agree

variable {post : α → α → Prop} {placed : α → Prop} {parser other : Parser α}

theorem pure (related : post value value') (isPlaced : placed value) :
    Agree places (Pure.pure value) (Pure.pure value') post placed := by
  rintro first second alike _ _ ⟨⟩
  exact ⟨value', second, rfl, alike, related, [], rfl, fun _ => isPlaced⟩

theorem imp (reads : Agree places parser other post placed)
    (weaker : ∀ value value', post value value' → post' value value') (implies : ∀ value, placed value → placed' value)
    : Agree places parser other post' placed' := by
  intro first second alike value after ok
  obtain ⟨value', after', ok', alike', related, passed, isAhead, isPlaced⟩ := reads first second alike value after ok
  exact ⟨value', after', ok', alike', weaker _ _ related, passed, isAhead, fun all => implies value (isPlaced all)⟩

theorem mono (reads : Agree places parser other post placed) (implies : ∀ value, placed value → placed' value)
    : Agree places parser other post placed' := reads.imp (fun _ _ related => related) implies

theorem weaken (reads : Agree places parser other post placed) :
    Agree places parser other (fun _ _ => True) fun _ => True := reads.imp (fun _ _ _ => trivial) fun _ _ => trivial

section Bind

variable {middle : β → β → Prop} {inside : β → Prop} {first second : Parser β} {next next' : β → Parser α}

/-- Whether the first value is placed is known only if its tokens stand at the places, so it is a premise of what
follows. -/
theorem bind (start : Agree places first second middle inside)
    (goesOn : ∀ value value', middle value value' →
      Agree places (next value) (next' value') post fun result => inside value → placed result) :
    Agree places (first >>= next) (second >>= next') post placed := by
  intro cursor cursor' alike result after ok
  obtain ⟨value, between, firstOk, nextOk⟩ := bind_apply_eq_ok.mp ok
  obtain ⟨value', between', firstOk', alike', related, passed, isAhead, isInside⟩ :=
    start cursor cursor' alike value between firstOk
  obtain ⟨result', after', nextOk', alike'', isPost, further, isBetween, isPlaced⟩ :=
    goesOn value value' related between between' alike' result after nextOk
  refine ⟨result', after', bind_apply_eq_ok.mpr ⟨value', between', firstOk', nextOk'⟩, alike'', isPost,
    passed ++ further, by rw [isAhead, isBetween, List.append_assoc], fun all => ?_⟩
  obtain ⟨here, later⟩ := List.forall_mem_append.mp all
  exact isPlaced later (isInside here)

theorem andThen (start : Agree places first second middle inside)
    (goesOn : ∀ value value', middle value value' → Agree places (next value) (next' value') post placed) :
    Agree places (first >>= next) (second >>= next') post placed :=
  start.bind fun value value' related => (goesOn value value' related).mono fun _ isPlaced _ => isPlaced

theorem same (start : Agree places first second Eq inside)
    (goesOn : ∀ value, Agree places (next value) (next' value) post placed) :
    Agree places (first >>= next) (second >>= next') post placed := by
  refine start.andThen fun value value' isSame => ?_
  cases isSame
  exact goesOn value

end Bind

theorem ite {condition : Prop} [Decidable condition] {yes no yes' no' : Parser α}
    (ifTrue : condition → Agree places yes yes' post placed) (ifFalse : ¬condition → Agree places no no' post placed) :
    Agree places (if condition then yes else no) (if condition then yes' else no') post placed := by
  split
  · exact ifTrue ‹_›
  · exact ifFalse ‹_›

theorem look (goesOn : ∀ token other : Token, token.lexeme.IsScanned →
    Agree places (next token) (next' { other with lexeme := token.lexeme }) post placed) :
    Agree places (peek >>= next) (peek >>= next') post placed := by
  intro first second alike
  obtain ⟨scanned, same⟩ := alike.head
  have reads := goesOn first.head second.head scanned first second alike
  rw [← same] at reads
  exact reads

theorem lookAt (goesOn : ∀ first second : Cursor, first.Alike second →
    AgreeAt places first second (next first.head) (next' second.head) post placed) :
    Agree places (peek >>= next) (peek >>= next') post placed := goesOn

theorem get (goesOn : ∀ first second : Cursor, first.Alike second →
    AgreeAt places first second (next first) (next' second) post placed) :
    Agree places (MonadState.get >>= next) (MonadState.get >>= next') post placed := goesOn

end Agree

section Primitives

variable {post : α → α → Prop} {placed : α → Prop}

theorem Fails.reads (fails : Fails parser) : Agree places parser other post placed :=
  fun first _ _ value after ok => absurd ok (fails first value after)

theorem Fails.exits (fails : Fails first) {next : β → Parser α} : Agree places (first >>= next) other post placed := by
  intro cursor _ _ result after ok
  obtain ⟨value, between, firstOk, _⟩ := bind_apply_eq_ok.mp ok
  exact absurd firstOk (fails cursor value between)

theorem Agree.unless {condition : Prop} [Decidable condition] (fails : Fails first) {next next' : β → Parser α}
    (goesOn : Agree places parser other post placed) :
    Agree places (if condition then first >>= next else parser) (if condition then second >>= next' else other) post
      placed := .ite (fun _ => fails.exits) fun _ => goesOn

theorem failAt_fails (line : Nat) (fault : SyntaxFault) : Fails (failAt line fault : Parser α) := by
  rintro cursor value after ⟨⟩

theorem refuse_fails (line : Nat) (construct : Construct) : Fails (refuse line construct : Parser α) := by
  rintro cursor value after ⟨⟩

theorem fail_fails (fault : SyntaxFault) : Fails (fail fault : Parser α) := by rintro cursor value after ⟨⟩

theorem peekSecond_reads : Steady places peekSecond (fun token other => other.lexeme = token.lexeme) fun _ => True := by
  rintro first second alike _ _ ⟨⟩
  exact ⟨_, second, rfl, alike, alike.second_eq, [], rfl, fun _ => trivial⟩

theorem note_reads (n n' : Note) : Agree places (note n) (note n') Eq fun _ => True := by
  rintro first second alike _ _ ⟨⟩
  exact ⟨_, second, rfl, alike, rfl, [], rfl, fun _ => trivial⟩

theorem advance_reads : Steady places advance
    (fun token other => token.lexeme.IsScanned ∧ other.lexeme = token.lexeme) fun _ => True := by
  rintro first second alike _ _ ⟨⟩
  obtain ⟨passed, isAhead⟩ := List.tail_suffix first.ahead
  exact ⟨_, _, rfl, alike.tail, alike.head, passed, isAhead.symm, fun _ => trivial⟩

theorem advance_readsAt (alike : first.Alike second) (notEnd : first.head.lexeme ≠ .endOfFile)
    (goesOn : Agree places next next' post fun result => places first.head.start → placed result) :
    AgreeAt places first second (advance >>= fun _ => next) (advance >>= fun _ => next') post placed := by
  intro result after ok
  obtain ⟨_, _, ⟨⟩, nextOk⟩ := bind_apply_eq_ok.mp ok
  obtain ⟨result', after', nextOk', alike', related, passed, isAhead, isPlaced⟩ :=
    goesOn first.tail second.tail alike.tail result after nextOk
  refine ⟨result', after', bind_apply_eq_ok.mpr ⟨_, _, rfl, nextOk'⟩, alike', related, first.head :: passed, ?_, ?_⟩
  · rw [List.cons_append, ← isAhead]
    obtain ⟨ahead, stop, source⟩ := first
    cases ahead with
    | nil => exact absurd alike.stop notEnd
    | cons token rest => rfl
  · intro all
    obtain ⟨here, later⟩ := forall_mem_cons.mp all
    exact isPlaced later here

theorem accept_reads (test : Lexeme → Bool) :
    Steady places (do if test (← peek).lexeme then let _ ← advance; return true else return false) Eq fun _ => True :=
  .look fun _ _ _ => .ite (fun _ => advance_reads.andThen fun _ _ _ => .pure rfl trivial) fun _ => .pure rfl trivial

theorem acceptSymbol_reads (text : String) : Steady places (acceptSymbol text) Eq fun _ => True :=
  accept_reads (· == .symbol text)

theorem acceptKeyword_reads (word : String) : Steady places (acceptKeyword word) Eq fun _ => True :=
  accept_reads (· == .keyword word)

theorem Agree.ifSymbol {yes no yes' no' : Parser α} (ifTrue : Agree places yes yes' post placed)
    (ifFalse : Agree places no no' post placed) :
    Agree places (acceptSymbol text >>= fun found => if found = true then yes else no)
      (acceptSymbol text >>= fun found => if found = true then yes' else no') post placed :=
  (acceptSymbol_reads text).same fun _ => .ite (fun _ => ifTrue) fun _ => ifFalse

theorem Agree.ifKeyword {yes no yes' no' : Parser α} (ifTrue : Agree places yes yes' post placed)
    (ifFalse : Agree places no no' post placed) :
    Agree places (acceptKeyword word >>= fun found => if found = true then yes else no)
      (acceptKeyword word >>= fun found => if found = true then yes' else no') post placed :=
  (acceptKeyword_reads word).same fun _ => .ite (fun _ => ifTrue) fun _ => ifFalse

/-- A test of the token at the cursor that has to be met. -/
theorem expect_reads (test : Lexeme → Bool) (fault : Lexeme → SyntaxFault) :
    Steady places (do let token ← peek; if test token.lexeme then advance else fail (fault token.lexeme)) (fun _ _ => True)
      fun _ => True := .look fun _ _ _ => .ite (fun _ => advance_reads.weaken) fun _ => (fail_fails _).reads

theorem expectSymbol_reads (text : String) : Steady places (expectSymbol text) (fun _ _ => True) fun _ => True :=
  expect_reads (· == .symbol text) (.expected text)

theorem expectKeyword_reads (word : String) : Steady places (expectKeyword word) (fun _ _ => True) fun _ => True :=
  expect_reads (· == .keyword word) (.expected word)

theorem Agree.expectSymbol {next next' : Parser α} (goesOn : Agree places next next' post placed) :
    Agree places (Parser.expectSymbol text >>= fun _ => next) (Parser.expectSymbol text >>= fun _ => next') post placed :=
  (expectSymbol_reads text).andThen fun _ _ _ => goesOn

theorem Agree.expectKeyword {next next' : Parser α} (goesOn : Agree places next next' post placed) :
    Agree places (Parser.expectKeyword word >>= fun _ => next) (Parser.expectKeyword word >>= fun _ => next') post placed :=
  (expectKeyword_reads word).andThen fun _ _ _ => goesOn

abbrev SameName : String × Nat → String × Nat → Prop := SameBy (fun name => isLegalName name.1 = true) Prod.fst

theorem expectIdentifier_reads : Steady places expectIdentifier SameName fun _ => True := by
  refine .look fun token other scanned => ?_
  obtain ⟨lexeme, line, start, stop⟩ := token
  cases lexeme with
  | identifier spelling => exact advance_reads.andThen fun _ _ _ => .pure ⟨scanned, rfl⟩ trivial
  | _ => exact (fail_fails _).reads

theorem skipIdentifier_reads : Steady places skipIdentifier Eq fun _ => True :=
  .look fun _ _ _ => .ite (fun _ => advance_reads.andThen fun _ _ _ => .pure rfl trivial) fun _ => .pure rfl trivial

theorem dropToSemicolon_reads : Steady places dropToSemicolon Eq fun _ => True := by
  have dropped {tokens others : List Token}
      (same : Forall₂ (fun token other => other.lexeme = token.lexeme) tokens others) :
      Forall₂ (fun token other => other.lexeme = token.lexeme) (tokens.dropWhile fun token => !token.isSymbol ";")
        (others.dropWhile fun token => !token.isSymbol ";") := by
    induction same with
    | nil => exact .nil
    | cons same rest ih =>
      rw [List.dropWhile_cons, List.dropWhile_cons, Token.isSymbol, Token.isSymbol, same]
      split
      · exact ih
      · exact .cons same rest
  rintro first second alike _ _ ⟨⟩
  obtain ⟨passed, isAhead⟩ := List.dropWhile_suffix (l := first.ahead) fun token => !token.isSymbol ";"
  exact ⟨_, _, rfl, alike.later ⟨passed, isAhead⟩ (dropped alike.same), rfl, passed, isAhead.symm, fun _ => trivial⟩

theorem skipClause_reads : Steady places skipClause Eq fun _ => True :=
  dropToSemicolon_reads.same fun _ => .look fun _ _ _ =>
    .unless (fail_fails _) <| advance_reads.andThen fun _ _ _ => .pure rfl trivial

theorem skipDelay_reads : Steady places skipDelay Eq fun _ => True :=
  .look fun _ _ _ => .ite (fun _ => (note_reads _ _).same fun _ => dropToSemicolon_reads) fun _ => .pure rfl trivial

theorem listAfter_reads (each : Steady places item post placed) (bound : Nat) :
    Steady places (listAfter symbol item bound) (Forall₂ post) fun found => ∀ x ∈ found, placed x := by
  induction bound with
  | zero => exact .pure .nil (by simp)
  | succ bound ih =>
    refine .ifSymbol ?_ <| .pure .nil (by simp)
    exact each.bind fun _ _ isFirst => ih.bind fun _ _ areOthers => .pure (.cons isFirst areOthers)
      fun others first => forall_mem_cons.mpr ⟨first, others⟩

theorem separated_reads (each : Steady places item post placed) (bound : Nat) :
    Steady places (separated symbol item bound)
      (fun found found' => found ≠ [] ∧ Forall₂ post found found') fun found => ∀ x ∈ found, placed x :=
  each.bind fun _ _ isFirst => (listAfter_reads each bound).bind fun _ _ areOthers =>
    .pure ⟨List.cons_ne_nil _ _, .cons isFirst areOthers⟩ fun others first => forall_mem_cons.mpr ⟨first, others⟩

theorem identifiers_reads (bound : Nat) : Steady places (identifiers bound)
    (fun found found' => found ≠ [] ∧ Forall₂ SameName found found') fun _ => True :=
  (separated_reads expectIdentifier_reads bound).mono fun _ _ => trivial

end Primitives

/-! ### Literals -/

theorem stringBits_parsed (ok : stringBits text = .ok literal) : literal.IsParsed := by
  rw [stringBits] at ok
  split at ok
  · cases ok
  · rename_i bits
    cases ok
    simp only [Bool.or_eq_true, String.isEmpty_iff, List.any_eq_true, decide_eq_true_eq, not_or, not_exists,
      not_and, Decidable.not_not] at bits
    refine ⟨fun empty => bits.1 (String.toList_eq_nil_iff.mp empty), fun d member => ?_⟩
    have one := bits.2 d member
    simpa using one

theorem bitString_parsed (scanned : (Lexeme.bitString base digits).IsScanned) (ok : bitString base digits = .ok literal) :
    literal.IsParsed := by
  unfold bitString at ok
  simp only at ok
  split at ok
  · cases ok
  · rename_i present
    have nonempty : digits.toList ≠ [] := by simpa using present
    cases base with
    | hex =>
      cases ok
      exact ⟨nonempty, scanned⟩
    | octal =>
      simp only at ok
      split at ok
      · cases ok
        simp only [Literal.IsParsed, String.toList_ofList, List.mem_flatMap]
        refine ⟨?_, fun d member => ?_⟩
        · obtain ⟨first, rest, spelled⟩ := List.exists_cons_of_ne_nil nonempty
          simp [spelled, bitString.octalBits]
        · obtain ⟨digit, _, bit⟩ := member
          obtain ⟨value, _, rfl⟩ := List.mem_map.mp bit
          split <;> decide
      · cases ok
    | binary =>
      simp only at ok
      split at ok
      · rename_i bits
        cases ok
        refine ⟨nonempty, fun d member => ?_⟩
        have one := List.all_eq_true.mp bits d member
        simp only [Bool.or_eq_true, decide_eq_true_eq] at one
        rcases one with rfl | rfl <;> decide
      · cases ok

theorem toNat_lt_of_isWordChar (inWord : Piece.isWordChar c = true) : c.toNat < 0x80 := by
  unfold Piece.isWordChar Char.isAlphanum Char.isAlpha Char.isUpper Char.isLower Char.isDigit at inWord
  simp only [UInt32.le_iff_toNat_le, Bool.or_eq_true, Bool.and_eq_true, decide_eq_true_eq, ge_iff_le, Char.toNat_val]
    at inWord
  rcases inWord with ((upper | lower) | digit) | rfl
  · have last : c.toNat ≤ 90 := upper.2
    omega
  · have last : c.toNat ≤ 122 := lower.2
    omega
  · have last : c.toNat ≤ 57 := digit.2
    omega
  · decide

theorem toLower_word (small : c.toNat < 0x80) : (c.isAlpha = true → c.toLower.isAlpha = true) ∧
    (Piece.isWordChar c = true → Piece.isWordChar c.toLower = true) := by
  have table : ∀ n < 0x80, let c := Char.ofNat n
      (c.isAlpha = true → c.toLower.isAlpha = true) ∧
        (Piece.isWordChar c = true → Piece.isWordChar c.toLower = true) := by decide +kernel
  have here := table c.toNat small
  simpa only [Char.ofNat_toNat] using here

theorem lower_identifier (identifier : isIdentifier spelling = true) : isIdentifier (Text.lower spelling) = true := by
  rw [isIdentifier] at identifier
  split at identifier
  · rename_i c rest spelled
    simp only [Bool.and_eq_true, List.all_eq_true] at identifier
    have wordChars : ∀ d ∈ c :: rest, Piece.isWordChar d = true := by
      refine forall_mem_cons.mpr ⟨?_, identifier.2⟩
      simp [Piece.isWordChar, Char.isAlphanum, identifier.1]
    have ascii : ∀ d ∈ c :: rest, d.toNat < 0x80 := fun d member => toNat_lt_of_isWordChar (wordChars d member)
    rw [isIdentifier, Text.lower, String.toList_ofList, spelled, Text.lowerFrom_of_ascii false ascii]
    simp only [map_cons, Bool.and_eq_true, List.all_map, List.all_eq_true, Function.comp]
    exact ⟨(toLower_word (ascii c (List.mem_cons_self ..))).1 identifier.1, fun d member =>
      (toLower_word (ascii d (List.mem_cons_of_mem c member))).2 (identifier.2 d member)⟩
  · cases identifier

theorem isIdentifier_of_reserved (reserved : word ∈ reservedWords) : isIdentifier word = true := by
  have table : ∀ word ∈ reservedWords, isIdentifier word = true := by decide +kernel
  exact table word reserved

/-! ### Expressions -/

/-- Parsed expressions that are the same but for lines and places. -/
abbrev SameExpr : Expr → Expr → Prop := SameBy Expr.IsParsed Expr.erase

/-- A parser of expressions, whose aggregates stand where their parentheses do. -/
abbrev ReadsExpr (places : Nat → Prop) (parser : Parser Expr) : Prop :=
  Steady places parser SameExpr (Expr.IsPlaced places)

section Expressions

variable {operand expression : Parser Expr}

theorem chain_reads (each : ReadsExpr places operand) (bound : Nat) (same : SameExpr lhs lhs') :
    Agree places (chain op? operand bound lhs) (chain op? operand bound lhs') SameExpr
      fun found => lhs.IsPlaced places → found.IsPlaced places := by
  induction bound generalizing lhs lhs' with
  | zero => exact .pure same id
  | succ bound ih =>
    refine .look fun token other _ => ?_
    dsimp only
    cases op? token.lexeme with
    | some op =>
      refine advance_reads.andThen fun _ _ _ => each.bind fun rhs rhs' isRhs => ?_
      have isBinary : SameExpr (.binary op lhs rhs token.line) (.binary op lhs' rhs' other.line) :=
        ⟨⟨trivial, same.1, isRhs.1⟩, by rw [Expr.erase, Expr.erase, same.2, isRhs.2]⟩
      exact (ih isBinary).mono fun _ whole right left => whole ⟨trivial, left, right⟩
    | none => exact .pure same id

theorem level_reads (op? : Lexeme → Option BinaryOp) (bound : Nat) (each : ReadsExpr places operand) :
    ReadsExpr places (level op? bound operand) := each.bind fun _ _ same => chain_reads each bound same

theorem expressionOver_reads (bound : Nat) (each : ReadsExpr places operand) :
    ReadsExpr places (expressionOver bound operand) := by
  have parts : ReadsExpr places (logical bound operand) :=
    level_reads _ bound <| level_reads _ bound <| level_reads _ bound <| level_reads _ bound <| level_reads _ bound each
  refine .look fun _ _ _ => (separated_reads parts bound).bind fun found found' related => ?_
  obtain ⟨areParsed, same⟩ := SameBy.all related.2
  cases related.2 with
  | nil => exact absurd rfl related.1
  | cons first others =>
    cases others with
    | nil => exact .pure first fun placed => placed _ (List.mem_singleton_self _)
    | cons second others =>
      refine .pure ⟨⟨by simp [Expr.ParsedNode], (Expr.areAll_iff _).mpr areParsed⟩, ?_⟩
        fun placed => ⟨trivial, (Expr.areAll_iff _).mpr placed⟩
      rw [Expr.erase, Expr.erase, Expr.eraseAll_eq_map, Expr.eraseAll_eq_map, same]

theorem literalAt_reads (line line' : Nat) (parsed : ∀ literal, value = .ok literal → literal.IsParsed) :
    Agree places (literalAt line value) (literalAt line' value) SameExpr (Expr.IsPlaced places) := by
  cases value with
  | ok literal => exact .pure ⟨parsed literal rfl, rfl⟩ trivial
  | error fault => exact (failAt_fails _ _).reads

theorem ticks_reads (line line' bound : Nat) (same : SameExpr base base') (takes : base.takesAttribute = true) :
    Agree places (ticks line bound base) (ticks line' bound base') SameExpr
      fun found => base.IsPlaced places → found.IsPlaced places := by
  induction bound generalizing base base' with
  | zero => exact .pure same id
  | succ bound ih =>
    have goesOn {name : String} (identifier : isIdentifier name = true) :
        Agree places (ticks line bound (.tick base (Text.lower name) line))
          (ticks line' bound (.tick base' (Text.lower name) line')) SameExpr
          fun found => base.IsPlaced places → found.IsPlaced places := by
      have isTick : SameExpr (.tick base (Text.lower name) line) (.tick base' (Text.lower name) line') :=
        ⟨⟨⟨takes, lower_identifier identifier, Text.lower_lower _⟩, same.1⟩, by rw [Expr.erase, Expr.erase, same.2]⟩
      exact (ih isTick rfl).mono fun _ whole placed => whole ⟨trivial, placed⟩
    refine .ifSymbol ?_ <| .pure same id
    refine .look fun _ _ _ => .unless (refuse_fails _ _) ?_
    refine advance_reads.andThen fun token other related => ?_
    obtain ⟨lexeme, _, _, _⟩ := token
    obtain ⟨lexeme', _, _, _⟩ := other
    obtain ⟨scanned, isSame⟩ := related
    cases (isSame : lexeme' = lexeme)
    cases lexeme with
    | identifier spelling => exact goesOn (isIdentifier_of_legal scanned)
    | keyword word => exact goesOn (isIdentifier_of_reserved scanned)
    | _ => exact (failAt_fails _ _).reads

theorem acceptDirection_reads : Steady places acceptDirection Eq fun _ => True :=
  .ifKeyword (.pure rfl trivial) <| .ifKeyword (.pure rfl trivial) <| .pure rfl trivial

theorem subscripts_reads (bound : Nat) (each : ReadsExpr places expression)
    (legal : isLegalName name = true ∧ isTruthName name = false) (line line' : Nat) :
    Agree places (subscripts bound expression name line) (subscripts bound expression name line')
      (fun found found' => SameExpr found found' ∧ found.takesAttribute = true) (Expr.IsPlaced places) := by
  refine each.bind fun first first' isFirst => acceptDirection_reads.same fun direction => ?_
  cases direction with
  | some _ =>
    refine each.bind fun right right' isRight => .expectSymbol <|
      .pure ⟨⟨⟨rfl, legal, isFirst.1, isRight.1⟩, ?_⟩, rfl⟩ fun placed firstPlaced =>
        ⟨trivial, trivial, firstPlaced, placed⟩
    rw [Expr.erase, Expr.erase, isFirst.2, isRight.2]
    rfl
  | none =>
    refine (listAfter_reads each bound).bind fun others others' related => .expectSymbol ?_
    obtain ⟨areParsed, same⟩ := SameBy.all (.cons isFirst related)
    refine .pure ⟨⟨⟨⟨legal, List.cons_ne_nil _ _⟩, (Expr.areAll_iff _).mpr areParsed⟩, ?_⟩, rfl⟩
      fun placed firstPlaced => ⟨trivial, (Expr.areAll_iff _).mpr (forall_mem_cons.mpr ⟨firstPlaced, placed⟩)⟩
    rw [Expr.erase, Expr.erase, Expr.eraseAll_eq_map, Expr.eraseAll_eq_map, same]

theorem named_reads (bound : Nat) (each : ReadsExpr places expression) : ReadsExpr places (named bound expression) := by
  refine expectIdentifier_reads.andThen fun found found' isFound => ?_
  obtain ⟨first, line⟩ := found
  obtain ⟨_, line'⟩ := found'
  obtain ⟨legal, rfl⟩ := isFound
  refine (listAfter_reads expectIdentifier_reads bound).andThen fun suffixes suffixes' related => ?_
  obtain ⟨areLegal, same⟩ := SameBy.all related
  have lastLegal : isLegalName ((suffixes.getLast?.map Prod.fst).getD first) = true := by
    cases last : suffixes.getLast? with
    | none => exact legal
    | some suffix => exact areLegal suffix (List.mem_of_getLast? last)
  dsimp only
  rw [← List.getLast?_map, ← List.getLast?_map, ← same, List.getLast?_map]
  generalize (suffixes.getLast?.map Prod.fst).getD first = name at lastLegal
  refine .ite (fun _ => .pure ⟨⟨'1', rfl⟩, rfl⟩ trivial) fun notTrue => ?_
  refine .ite (fun _ => .pure ⟨⟨'0', rfl⟩, rfl⟩ trivial) fun notFalse => ?_
  have legalName : isLegalName name = true ∧ isTruthName name = false :=
    ⟨lastLegal, by simp [isTruthName, notTrue, notFalse]⟩
  refine .ifSymbol ?_ ?_
  · exact (subscripts_reads bound each legalName line line').bind fun base base' parsed =>
      ticks_reads line line' bound parsed.1 parsed.2
  · have isName : SameExpr (.name name line) (.name name line') := ⟨legalName, rfl⟩
    exact (ticks_reads line line' bound isName rfl).mono fun _ whole => whole trivial

theorem parenthesized_reads (each : ReadsExpr places expression) (opening opening' : Token) :
    Agree places (parenthesized expression opening) (parenthesized expression opening') SameExpr
      fun found => places opening.start → found.IsPlaced places := by
  refine .ifKeyword ?_ ?_
  · refine .expectSymbol <| each.bind fun fill fill' same =>
      .expectSymbol <| .pure ⟨⟨trivial, same.1⟩, ?_⟩ fun inside here => ⟨here, inside⟩
    rw [Expr.erase, Expr.erase, same.2]
  · refine each.bind fun inner inner' same => .look fun _ _ _ => .unless (refuse_fails _ _) ?_
    exact .expectSymbol <| .pure same fun inside _ => inside

theorem primary_reads (bound : Nat) (each : ReadsExpr places expression) :
    ReadsExpr places (primary bound expression) := by
  refine .lookAt fun first second alike => ?_
  obtain ⟨scanned, same⟩ := alike.head
  have literal {line line' : Nat} {value : Literal} (parsed : value.IsParsed) :
      Agree places (do let _ ← advance; return .literal value line) (do let _ ← advance; return .literal value line')
        SameExpr (Expr.IsPlaced places) := advance_reads.andThen fun _ _ _ => .pure ⟨parsed, rfl⟩ trivial
  rw [same]
  cases spells : first.head.lexeme with
  | character value =>
    have parsed : (Literal.bit (Text.lower value.toString)).IsParsed := ⟨value, rfl⟩
    exact literal parsed first second alike
  | string value =>
    exact (advance_reads.andThen fun _ _ _ => literalAt_reads _ _ fun _ ok => stringBits_parsed ok) first second alike
  | bitString base digits =>
    rw [spells] at scanned
    exact (advance_reads.andThen fun _ _ _ => literalAt_reads _ _ fun _ ok => bitString_parsed scanned ok)
      first second alike
  | number digits =>
    rw [spells] at scanned
    have parsed : (Literal.decimal digits).IsParsed := scanned
    exact literal parsed first second alike
  | identifier _ => exact named_reads bound each first second alike
  | symbol text =>
    simp only [Token.isSymbol, same, spells]
    split
    · exact advance_readsAt alike (by simp [spells]) (parenthesized_reads each _ _)
    · exact (fail_fails _).reads first second alike
  | _ =>
    simp only [Token.isSymbol, spells]
    exact (fail_fails _).reads first second alike

end Expressions

theorem term_reads (bound : Nat) : ReadsExpr places (term bound) := by
  induction bound with
  | zero => exact .look fun _ _ _ => (fail_fails _).reads
  | succ bound ih =>
    refine .look fun token other _ => ?_
    dsimp only
    cases signOp? token.lexeme with
    | some op =>
      refine advance_reads.andThen fun _ _ _ => ih.bind fun operand operand' same =>
        .pure ⟨⟨trivial, same.1⟩, ?_⟩ fun placed => ⟨trivial, placed⟩
      rw [Expr.erase, Expr.erase, same.2]
    | none =>
      refine .ite (fun _ => (refuse_fails _ _).reads) fun _ => .ite (fun _ => (refuse_fails _ _).reads) fun _ => ?_
      exact primary_reads bound (expressionOver_reads bound ih)

theorem expression_reads (bound : Nat) : ReadsExpr places (expression bound) :=
  expressionOver_reads bound (term_reads bound)

theorem target_reads (bound : Nat) : Steady places (target bound)
    (SameBy Target.IsParsed Target.erase) fun found => found.part.All (Expr.IsPlaced places) := by
  refine expectIdentifier_reads.andThen fun name name' isName => ?_
  have related {part part' : Part} (parsed : part.All Expr.IsParsed) (same : part.erase = part'.erase) :
      SameBy Target.IsParsed Target.erase ⟨name.1, part, name.2⟩ ⟨name'.1, part', name'.2⟩ :=
    ⟨⟨isName.1, parsed⟩, by rw [Target.erase, Target.erase, isName.2, same]⟩
  refine .ifSymbol ?_ <| .pure (related trivial rfl) trivial
  refine (expression_reads bound).bind fun first first' isFirst => acceptDirection_reads.same fun direction => ?_
  cases direction with
  | some _ =>
    refine (expression_reads bound).bind fun right right' isRight => .expectSymbol <|
      .pure (related ⟨isFirst.1, isRight.1⟩ ?_) fun rightPlaced firstPlaced => ⟨firstPlaced, rightPlaced⟩
    rw [Part.erase, Part.erase, isFirst.2, isRight.2]
  | none =>
    refine .expectSymbol <| .pure (related isFirst.1 ?_) id
    rw [Part.erase, Part.erase, isFirst.2]

theorem bounds_reads (bound : Nat) (typeName : String) : Steady places (bounds bound typeName) (fun found found' =>
      SameExpr found.left found'.left ∧ SameExpr found.right found'.right ∧ found.ascending = found'.ascending)
      fun _ => True := by
  refine (expression_reads bound).andThen fun left left' isLeft => acceptDirection_reads.same fun direction => ?_
  cases direction with
  | some _ => exact (expression_reads bound).andThen fun _ _ isRight => .pure ⟨isLeft, isRight, rfl⟩ trivial
  | none => exact (fail_fails _).reads

theorem typeMark_reads (bound : Nat) : Steady places (typeMark bound)
    (SameBy TypeMark.IsParsed TypeMark.erase) fun _ => True := by
  refine expectIdentifier_reads.andThen fun found found' isFound => ?_
  obtain ⟨name, line⟩ := found
  obtain ⟨_, line'⟩ := found'
  obtain ⟨legal, rfl⟩ := isFound
  have bounded (range range' : Bounds) (related : SameExpr range.left range'.left ∧
      SameExpr range.right range'.right ∧ range.ascending = range'.ascending) :
      SameBy TypeMark.IsParsed TypeMark.erase ⟨name, some range, line⟩ ⟨name, some range', line'⟩ := by
    obtain ⟨left, right, same⟩ := related
    refine ⟨⟨legal, ?_⟩, by simp only [TypeMark.erase, Option.map_some, left.2, right.2, same]⟩
    rintro _ ⟨⟩
    exact ⟨left.1, right.1⟩
  refine .ifSymbol ?_ ?_
  · exact (bounds_reads bound _).andThen fun range range' related => .expectSymbol <|
      .pure (bounded range range' related) trivial
  · refine .ifKeyword ?_ <| .pure ⟨⟨legal, by simp⟩, rfl⟩ trivial
    exact (bounds_reads bound _).andThen fun range range' related => .pure (bounded range range' related) trivial

end Parser

end RtlBridge.Vhdl

import Mathlib.Data.List.Chain
import RtlBridge.Proofs.Sequencing
import RtlBridge.Proofs.Verilog.Reader

/-! The tokens of written expressions. The text of an expression is cut into its own tokens whenever what
follows begins with a character that belongs to none of them, and no two minus signs meet. -/

namespace RtlBridge.Verilog

open List (append_assoc cons_append mem_cons not_mem_nil)

/-! ### Characters -/

def isBreak (c : Char) : Bool := [' ', ')', ']', '\x7d', ',', ':', '[', '\x7b'].contains c

def Breaks (rest : List Char) : Prop := ∀ c ∈ rest.head?, isBreak c = true

def isStart (c : Char) : Bool := c.isAlphanum || ['_', '\x27', '(', '\x7b', '~', '-'].contains c

def Apart (text : List Char) : Prop := text.IsChain fun c next => c = '-' → next ≠ '-'

instance (text : List Char) : Decidable (Apart text) := inferInstanceAs (Decidable (List.IsChain _ _))

@[simp] theorem breaks_nil : Breaks [] := by simp [Breaks]

@[simp] theorem breaks_cons (c : Char) (rest : List Char) : Breaks (c :: rest) ↔ isBreak c = true := by simp [Breaks]

theorem Apart.left (apart : Apart (first ++ second)) : Apart first := List.IsChain.left_of_append apart

theorem Apart.right (apart : Apart (first ++ second)) : Apart second := List.IsChain.right_of_append apart

theorem Apart.tail (apart : Apart (c :: rest)) : Apart rest := List.IsChain.tail apart

theorem Apart.ne_minus (apart : Apart ('-' :: c :: rest)) : c ≠ '-' := (List.isChain_cons_cons.mp apart).1 rfl

theorem takeWhile_append_breaks (outside : ∀ c, isBreak c = true → test c = false) (inside : ∀ c ∈ text, test c = true)
    (breaks : Breaks rest) : (text ++ rest).takeWhile test = text ∧ (text ++ rest).dropWhile test = rest := by
  rw [List.takeWhile_append_of_pos inside, List.dropWhile_append_of_pos inside]
  cases rest with
  | nil => simp
  | cons c rest =>
    have ends := outside c ((breaks_cons c rest).mp breaks)
    simp [ends]

theorem outside_of_isBreak (c : Char) (breaks : isBreak c = true) :
    Lexeme.isWordChar c = false ∧ Lexeme.isNumberChar c = false ∧ Lexeme.isBasedDigit c = false := by
  simp only [isBreak, List.contains_cons, List.contains_nil, Bool.or_false, Bool.or_eq_true, beq_iff_eq] at breaks
  rcases breaks with rfl | rfl | rfl | rfl | rfl | rfl | rfl | rfl <;> decide

/-! ### Single tokens -/

/-- A word of letters, digits and underscores that does not begin with a digit. -/
def isWord (text : String) : Bool :=
  match text.toList with
  | c :: rest => Lexeme.isWordStart c && rest.all Lexeme.isWordChar
  | [] => false

def isDigits (text : List Char) : Bool := !text.isEmpty && text.all Char.isDigit

theorem isDigits_cons {c : Char} {rest : List Char} :
    isDigits (c :: rest) = true ↔ c.isDigit = true ∧ ∀ d ∈ rest, d.isDigit = true := by simp [isDigits]

theorem lex_of_next? (next : Lexeme.next? c rest = some (lexeme, after)) (shorter : after.length ≤ rest.length) :
    lex (c :: rest) = (lex after).map (lexeme.toList ++ ·) := by
  rw [lex, next]
  exact if_pos shorter

theorem lex_blank (rest : List Char) : lex (' ' :: rest) = lex rest := by
  have next : Lexeme.next? ' ' rest = some (none, rest) := rfl
  rw [lex_of_next? next (Nat.le_refl _)]
  simp

theorem lex_word (word : isWord text = true) (breaks : Breaks rest) :
    lex (text.toList ++ rest) = (lex rest).map (.word text :: ·) := by
  cases spelled : text.toList with
  | nil => simp [isWord, spelled] at word
  | cons c letters =>
    simp only [isWord, spelled, Bool.and_eq_true, List.all_eq_true] at word
    obtain ⟨starts, inside⟩ := word
    have notBlank : c ≠ ' ' := by
      rintro rfl
      exact absurd starts (by decide)
    obtain ⟨taken, dropped⟩ := takeWhile_append_breaks (fun c isBreak => (outside_of_isBreak c isBreak).1) inside breaks
    have next : Lexeme.next? c (letters ++ rest) = some (some (.word text), rest) := by
      unfold Lexeme.next?
      rw [if_neg notBlank, if_pos starts, taken, dropped, ← spelled, String.ofList_toList]
    exact lex_of_next? next (by simp)

theorem next?_of_isDigit (digit : c.isDigit = true) (rest : List Char) :
    Lexeme.next? c rest =
      some (some (Lexeme.numeral (c :: rest.takeWhile Lexeme.isNumberChar) (rest.dropWhile Lexeme.isNumberChar)).1,
        (Lexeme.numeral (c :: rest.takeWhile Lexeme.isNumberChar) (rest.dropWhile Lexeme.isNumberChar)).2) := by
  have notBlank : c ≠ ' ' := by
    rintro rfl
    exact absurd digit (by decide)
  have notWord : ¬ Lexeme.isWordStart c = true := by
    intro starts
    simp only [Lexeme.isWordStart, Bool.or_eq_true, decide_eq_true_eq] at starts
    rcases starts with alpha | rfl
    · unfold Char.isAlpha Char.isUpper Char.isLower at alpha
      simp only [Char.isDigit, Bool.or_eq_true, Bool.and_eq_true, decide_eq_true_eq, ge_iff_le,
        UInt32.le_iff_toNat_le] at alpha digit
      have nine : ('9'.val).toNat = 57 := rfl
      have upper : ('A'.val).toNat = 65 := rfl
      have lower : ('a'.val).toNat = 97 := rfl
      omega
    · exact absurd digit (by decide)
  unfold Lexeme.next?
  rw [if_neg notBlank, if_neg notWord, if_pos digit]

theorem lex_number (number : isDigits digits = true) (breaks : Breaks rest) :
    lex (digits ++ rest) = (lex rest).map (.number (String.ofList digits) :: ·) := by
  cases digits with
  | nil => simp [isDigits] at number
  | cons c others =>
    rw [isDigits_cons] at number
    have inside : ∀ d ∈ others, Lexeme.isNumberChar d = true := by
      intro d member
      simp [Lexeme.isNumberChar, number.2 d member]
    obtain ⟨taken, dropped⟩ := takeWhile_append_breaks (fun c isBreak => (outside_of_isBreak c isBreak).2.1) inside breaks
    have plain : Lexeme.numeral (c :: others) rest = (.number (String.ofList (c :: others)), rest) := by
      cases rest with
      | nil => rfl
      | cons d rest =>
        have notTick : d ≠ '\x27' := by
          rintro rfl
          exact absurd ((breaks_cons _ _).mp breaks) (by decide)
        rw [Lexeme.numeral.eq_def]
        split
        · rename_i same
          exact absurd (List.cons.inj same).1 notTick
        · rfl
    have next := next?_of_isDigit number.1 (others ++ rest)
    rw [taken, dropped, plain] at next
    exact lex_of_next? next (by simp)

theorem lex_based (sized : isDigits size = true) (letter : Lexeme.isBaseLetter base = true) (present : digits ≠ [])
    (inside : ∀ d ∈ digits, Lexeme.isBasedDigit d = true) (breaks : Breaks rest) :
    lex (size ++ '\x27' :: base :: (digits ++ rest)) =
      (lex rest).map (.based (String.ofList size) base (String.ofList digits) :: ·) := by
  cases size with
  | nil => simp [isDigits] at sized
  | cons c others =>
    rw [isDigits_cons] at sized
    have insideSize : ∀ d ∈ others, Lexeme.isNumberChar d = true := by
      intro d member
      simp [Lexeme.isNumberChar, sized.2 d member]
    have tick : Lexeme.isNumberChar '\x27' = false := rfl
    obtain ⟨taken, dropped⟩ := takeWhile_append_breaks (fun c isBreak => (outside_of_isBreak c isBreak).2.2) inside breaks
    have first : (digits ++ rest).head?.any Lexeme.isBasedDigit = true := by
      cases digits with
      | nil => exact absurd rfl present
      | cons d others => simpa using inside d (by simp)
    have numeral : Lexeme.numeral (c :: others) ('\x27' :: base :: (digits ++ rest)) =
        (.based (String.ofList (c :: others)) base (String.ofList digits), rest) := by
      rw [Lexeme.numeral, letter, first, taken, dropped]
      rfl
    have next := next?_of_isDigit sized.1 (others ++ '\x27' :: base :: (digits ++ rest))
    rw [List.takeWhile_append_of_pos insideSize, List.dropWhile_append_of_pos insideSize,
      List.takeWhile_cons_of_neg (by simp [tick]), List.dropWhile_cons_of_neg (by simp [tick]),
      List.append_nil, numeral] at next
    exact lex_of_next? next (by simp; omega)

theorem lex_fill (fill : Lexeme.isFillBit bit = true) (rest : List Char) :
    lex ('\x27' :: bit :: rest) = (lex rest).map (.fill bit :: ·) := by
  have next : Lexeme.next? '\x27' (bit :: rest) = some (some (.fill bit), rest) := by
    rw [Lexeme.next?, if_neg (by decide), if_neg (by decide), if_neg (by decide), if_pos rfl]
    exact if_pos fill
  exact lex_of_next? next (by simp)

def isMark (c : Char) : Bool := !(c = ' ' || Lexeme.isWordStart c || c.isDigit || c = '\x27')

theorem lex_symbol (mark : isMark c = true) (found : Lexeme.symbol? (c :: rest) = some (.symbol text, after))
    (shorter : after.length ≤ rest.length) : lex (c :: rest) = (lex after).map (.symbol text :: ·) := by
  simp only [isMark, Bool.not_eq_true', Bool.or_eq_false_iff, decide_eq_false_iff_not] at mark
  obtain ⟨⟨⟨notBlank, notWord⟩, notDigit⟩, notTick⟩ := mark
  have next : Lexeme.next? c rest = some (some (.symbol text), after) := by
    unfold Lexeme.next?
    rw [if_neg notBlank, if_neg (by simp [notWord]), if_neg (by simp [notDigit]), if_neg notTick, found]
    rfl
  exact lex_of_next? next shorter

theorem lex_operator (op : BinaryOp) (rest : List Char) :
    lex (' ' :: (op.text.toList ++ ' ' :: rest)) = (lex rest).map (.symbol op.text :: ·) := by
  have found : Lexeme.symbol? (op.text.toList ++ ' ' :: rest) = some (.symbol op.text, ' ' :: rest) := by
    cases op <;> rfl
  obtain ⟨c, others, spelled, mark⟩ : ∃ c others, op.text.toList = c :: others ∧ isMark c = true := by
    cases op <;> exact ⟨_, _, rfl, rfl⟩
  rw [spelled, cons_append] at found
  rw [lex_blank, spelled, cons_append, lex_symbol mark found (by simp), lex_blank]

theorem lex_punctuation (mark : c ∈ [')', '[', ']', '\x7b', '\x7d', ',', '?']) (rest : List Char)
    : lex (c :: rest) = (lex rest).map (.symbol (String.singleton c) :: ·) := by
  simp only [mem_cons, not_mem_nil, or_false] at mark
  rcases mark with rfl | rfl | rfl | rfl | rfl | rfl | rfl <;>
    exact lex_symbol rfl rfl (Nat.le_refl _)

/-- Marks, each with the characters that make another symbol of it if they follow. -/
def joining : List (Char × List Char) := [('~', ['&', '|', '^']), ('-', ['-', '>', ':', '=']), ('(', ['*']), (':', [':'])]

theorem lex_single {others : List Char} (isMark : joining.lookup mark = some others) (alone : c ∉ others)
    (rest : List Char) :
    lex (mark :: c :: rest) = (lex (c :: rest)).map (.symbol (String.singleton mark) :: ·) := by
  have notFirst {d : Char} (different : c ≠ d) : [d].isPrefixOf (c :: rest) = false := by
    simp [List.isPrefixOf, Ne.symm different]
  obtain ⟨_, _, isTable, _⟩ := List.lookup_eq_some_iff.mp isMark
  have member : (mark, others) ∈ joining := by simp [isTable]
  simp only [joining, mem_cons, not_mem_nil, or_false, Prod.mk.injEq] at member
  rcases member with ⟨rfl, rfl⟩ | ⟨rfl, rfl⟩ | ⟨rfl, rfl⟩ | ⟨rfl, rfl⟩ <;>
    simp only [mem_cons, not_mem_nil, or_false, not_or] at alone <;>
    exact lex_symbol rfl (by simp [Lexeme.symbol?, Lexeme.symbols, notFirst, alone]) (by simp)

theorem not_mem_of_isStart (start : isStart c = true) {others : List Char} (notStarts : others.any isStart = false) :
    c ∉ others := fun inside => List.any_eq_false.mp notStarts c inside start

/-- A minus sign before an expression is a symbol of its own, unless the expression begins with another. -/
theorem lex_minus (start : isStart c = true) (notMinus : c ≠ '-') (rest : List Char) :
    lex ('-' :: c :: rest) = (lex (c :: rest)).map (.symbol "-" :: ·) :=
  lex_single rfl (List.not_mem_cons_of_ne_of_not_mem notMinus (not_mem_of_isStart start rfl)) rest

/-! ### Written expressions -/

namespace Expr

theorem induction {motive : Expr → Prop}
    (name : ∀ text, motive (.name text))
    (number : ∀ digits, motive (.number digits))
    (sized : ∀ width base digits, motive (.sized width base digits))
    (fill : ∀ bit, motive (.fill bit))
    (unary : ∀ op operand, motive operand → motive (.unary op operand))
    (binary : ∀ op lhs rhs, motive lhs → motive rhs → motive (.binary op lhs rhs))
    (paren : ∀ inner, motive inner → motive (.paren inner))
    (concat : ∀ parts, (∀ part ∈ parts, motive part) → motive (.concat parts))
    (replicate : ∀ count part, motive part → motive (.replicate count part))
    (index : ∀ base subscript, motive base → motive subscript → motive (.index base subscript))
    (slice : ∀ base left right, motive base → motive left → motive right → motive (.slice base left right))
    (choose : ∀ condition yes no, motive condition → motive yes → motive no →
      motive (.choose condition yes no)) (expr : Expr) : motive expr :=
  @Expr.rec motive (fun parts => ∀ part ∈ parts, motive part)
    name number sized fill unary binary paren concat replicate index slice choose
    (fun _ member => absurd member not_mem_nil)
    (fun _ _ first others _ member => (mem_cons.mp member).elim (fun same => same ▸ first) (others _)) expr

/-- Whether an expression stands as an operand without parentheses. -/
def isTerm : Expr → Bool
  | .binary _ _ _ => false
  | .choose _ _ _ => false
  | _ => true

def isName : Expr → Bool
  | .name _ => true
  | _ => false

def isNumeral (digits : String) : Bool :=
  match digits.toList with
  | '-' :: rest => isDigits rest
  | digits => isDigits digits

/-- Expressions that can be read back: names and literals are in their forms, and operands that are
operations stand in parentheses. -/
def Readable : Expr → Prop
  | .name text => isWord text = true
  | .number digits => isNumeral digits = true
  | .sized width _ digits => 0 < width ∧ digits.toList ≠ [] ∧ ∀ d ∈ digits.toList, Lexeme.isBasedDigit d = true
  | .fill bit => Lexeme.isFillBit bit = true
  | .unary _ operand => operand.Readable ∧ operand.isTerm = true
  | .binary _ lhs rhs => (lhs.Readable ∧ lhs.isTerm = true) ∧ rhs.Readable ∧ rhs.isTerm = true
  | .paren inner => inner.Readable
  | .concat parts => parts ≠ [] ∧ areReadable parts
  | .replicate count part => 0 < count ∧ part.Readable
  | .index base subscript => (base.Readable ∧ base.isName = true) ∧ subscript.Readable
  | .slice base left right => (base.Readable ∧ base.isName = true) ∧ left.Readable ∧ right.Readable
  | .choose condition yes no => (condition.Readable ∧ condition.isTerm = true) ∧ yes.Readable ∧ no.Readable
where
  areReadable : List Expr → Prop
    | [] => True
    | first :: rest => first.Readable ∧ areReadable rest

theorem areReadable_iff (parts : List Expr) : Readable.areReadable parts ↔ ∀ part ∈ parts, part.Readable := by
  induction parts with
  | nil => simp [Readable.areReadable]
  | cons part rest ih => simp [Readable.areReadable, ih]

def numberLexemes (digits : String) : List Lexeme :=
  match digits.toList with
  | '-' :: rest => [.symbol "-", .number (String.ofList rest)]
  | _ => [.number digits]

def lexemes : Expr → List Lexeme
  | .name text => [.word text]
  | .number digits => numberLexemes digits
  | .sized width base digits => [.based (toString width) base.letter digits]
  | .fill bit => [.fill bit]
  | .unary op operand => .symbol op.text :: operand.lexemes
  | .binary op lhs rhs => lhs.lexemes ++ .symbol op.text :: rhs.lexemes
  | .paren inner => .symbol "(" :: (inner.lexemes ++ [.symbol ")"])
  | .concat parts => .symbol "\x7b" :: (separated parts ++ [.symbol "\x7d"])
  | .replicate count part =>
    .symbol "\x7b" :: .number (toString count) :: .symbol "\x7b" :: (part.lexemes ++ [.symbol "\x7d", .symbol "\x7d"])
  | .index base subscript => base.lexemes ++ .symbol "[" :: (subscript.lexemes ++ [.symbol "]"])
  | .slice base left right =>
    base.lexemes ++ .symbol "[" :: (left.lexemes ++ .symbol ":" :: (right.lexemes ++ [.symbol "]"]))
  | .choose condition yes no => condition.lexemes ++ .symbol "?" :: (yes.lexemes ++ .symbol ":" :: no.lexemes)
where
  /-- The tokens of expressions with commas between them. -/
  separated : List Expr → List Lexeme
    | [] => []
    | [part] => part.lexemes
    | part :: rest => part.lexemes ++ .symbol "," :: separated rest

theorem texts_eq_map : ∀ parts, text.texts parts = parts.map text := eq_map rfl fun _ _ => rfl

section

attribute [local simp] text

theorem toList_text_unary (op : UnaryOp) (operand : Expr) :
    (unary op operand).text.toList = op.text.toList ++ operand.text.toList := by simp

theorem toList_text_binary (op : BinaryOp) (lhs rhs : Expr) :
    (binary op lhs rhs).text.toList = lhs.text.toList ++ (' ' :: (op.text.toList ++ [' ']) ++ rhs.text.toList) := by
  simp [toString]

theorem toList_text_sized (width : Int) (base : Base) (digits : String) :
    (sized width base digits).text.toList = (toString width).toList ++ '\x27' :: base.letter :: digits.toList := by
  simp [toString]

theorem toList_text_fill (bit : Char) : (fill bit).text.toList = ['\x27', bit] := by simp [toString]

theorem toList_text_paren (inner : Expr) : (paren inner).text.toList = '(' :: (inner.text.toList ++ [')']) := by
  simp [toString]

theorem toList_text_concat (parts : List Expr) :
    (concat parts).text.toList =
      '\x7b' :: ([',', ' '].intercalate (parts.map fun part => part.text.toList) ++ ['\x7d']) := by
  simp [texts_eq_map, Function.comp_def]

theorem toList_text_replicate (count : Int) (part : Expr) :
    (replicate count part).text.toList =
      '\x7b' :: ((toString count).toList ++ '\x7b' :: (part.text.toList ++ ['\x7d', '\x7d'])) := by simp [toString]

theorem toList_text_index (base subscript : Expr) :
    (index base subscript).text.toList = base.text.toList ++ '[' :: (subscript.text.toList ++ [']']) := by
  simp [toString]

theorem toList_text_slice (base left right : Expr) :
    (slice base left right).text.toList =
      base.text.toList ++ '[' :: (left.text.toList ++ ':' :: (right.text.toList ++ [']'])) := by simp [toString]

theorem toList_text_choose (condition yes no : Expr) :
    (choose condition yes no).text.toList = condition.text.toList ++
      ' ' :: '?' :: ' ' :: (yes.text.toList ++ ' ' :: ':' :: ' ' :: no.text.toList) := by simp [toString]

end

theorem isDigits_of_pos {n : Int} (positive : 0 < n) : isDigits (toString n).toList = true := by
  obtain ⟨m, rfl⟩ := Int.eq_ofNat_of_zero_le (Int.le_of_lt positive)
  have spelled : (toString (m : Int)).toList = Nat.toDigits 10 m := by simp [toString, Int.repr, Nat.toList_repr]
  rw [spelled]
  simp only [isDigits, Bool.and_eq_true, Bool.not_eq_true', List.isEmpty_eq_false_iff, List.all_eq_true]
  exact ⟨Nat.toDigits_ne_nil, fun c member => Nat.isDigit_of_mem_toDigits (by decide) (by decide) member⟩

theorem isStart_of_isDigits (digits : isDigits (c :: rest) = true) : isStart c = true := by
  simp [isStart, Char.isAlphanum, (isDigits_cons.mp digits).1]

theorem text_starts (expr : Expr) (readable : expr.Readable) :
    ∃ c rest, expr.text.toList = c :: rest ∧ isStart c = true := by
  induction expr using Expr.induction with
  | name spelling =>
    cases spelled : spelling.toList with
    | nil => simp [Readable, isWord, spelled] at readable
    | cons c rest =>
      refine ⟨c, rest, spelled, ?_⟩
      simp only [Readable, isWord, spelled, Lexeme.isWordStart, Bool.and_eq_true, Bool.or_eq_true,
        decide_eq_true_eq] at readable
      rcases readable.1 with alpha | rfl
      · simp [isStart, Char.isAlphanum, alpha]
      · decide
  | number digits =>
    cases spelled : digits.toList with
    | nil => simp [Readable, isNumeral, isDigits, spelled] at readable
    | cons c rest =>
      refine ⟨c, rest, spelled, ?_⟩
      by_cases minus : c = '-'
      · subst minus
        decide
      · have digits : isDigits (c :: rest) = true := by simpa [Readable, isNumeral, spelled, minus] using readable
        exact isStart_of_isDigits digits
  | sized width base digits =>
    have number := isDigits_of_pos readable.1
    rw [toList_text_sized]
    cases spelled : (toString width).toList with
    | nil =>
      rw [spelled] at number
      exact absurd number (by decide)
    | cons c rest =>
      rw [spelled] at number
      exact ⟨c, _, rfl, isStart_of_isDigits number⟩
  | fill bit => exact ⟨_, _, toList_text_fill bit, rfl⟩
  | unary op operand _ =>
    rw [toList_text_unary]
    cases op <;> exact ⟨_, _, rfl, rfl⟩
  | binary op lhs rhs left _ =>
    obtain ⟨c, rest, spelled, start⟩ := left readable.1.1
    exact ⟨c, _, by rw [toList_text_binary, spelled, cons_append], start⟩
  | paren inner _ => exact ⟨_, _, toList_text_paren inner, rfl⟩
  | concat parts _ => exact ⟨_, _, toList_text_concat parts, rfl⟩
  | replicate count part _ => exact ⟨_, _, toList_text_replicate count part, rfl⟩
  | index base subscript named _ =>
    obtain ⟨c, rest, spelled, start⟩ := named readable.1.1
    exact ⟨c, _, by rw [toList_text_index, spelled, cons_append], start⟩
  | slice base left right named _ _ =>
    obtain ⟨c, rest, spelled, start⟩ := named readable.1.1
    exact ⟨c, _, by rw [toList_text_slice, spelled, cons_append], start⟩
  | choose condition yes no tested _ _ =>
    obtain ⟨c, rest, spelled, start⟩ := tested readable.1.1
    exact ⟨c, _, by rw [toList_text_choose, spelled, cons_append], start⟩

end Expr

def CutsTo (text : List Char) (lexemes : List Lexeme) (rest : List Char) : Prop :=
  lex (text ++ rest) = (lex rest).map (lexemes ++ ·)

theorem CutsTo.append (cut : CutsTo first lexemes (second ++ rest)) (next : CutsTo second others rest) :
    CutsTo (first ++ second) (lexemes ++ others) rest := by
  rw [CutsTo, append_assoc, cut, next, Option.map_map]
  congr 1
  funext tail
  simp

theorem CutsTo.cons {c : Char} {second rest : List Char} {lexeme : Lexeme} {others : List Lexeme}
    (cut : lex (c :: (second ++ rest)) = (lex (second ++ rest)).map (lexeme :: ·))
    (next : CutsTo second others rest) : CutsTo (c :: second) (lexeme :: others) rest := by
  have first : CutsTo [c] [lexeme] (second ++ rest) := cut
  exact first.append next

theorem CutsTo.blank (next : CutsTo second others rest) : CutsTo (' ' :: second) others rest := by
  rw [CutsTo, cons_append, lex_blank]
  exact next

namespace Expr

theorem lex_separated (parts : List Expr) (readable : ∀ part ∈ parts, part.Readable)
    (cut : ∀ part ∈ parts, part.Readable → ∀ rest, Breaks rest → Apart part.text.toList →
      CutsTo part.text.toList part.lexemes rest)
    (apart : Apart ([',', ' '].intercalate (parts.map fun part => part.text.toList))) (breaks : Breaks rest) :
    CutsTo ([',', ' '].intercalate (parts.map fun part => part.text.toList)) (lexemes.separated parts) rest := by
  induction parts with
  | nil => simp [CutsTo, lexemes.separated]
  | cons part others ih =>
    cases others with
    | nil =>
      simp only [List.map_cons, List.map_nil, List.intercalate_singleton] at apart ⊢
      exact cut part (by simp) (readable part (by simp)) rest breaks apart
    | cons second others =>
      simp only [List.map_cons, List.intercalate_cons_cons, append_assoc] at apart ⊢
      have next := ih (fun p member => readable p (by simp [member]))
        (fun p member => cut p (by simp [member])) (by simpa using apart.right.tail.tail)
      have comma := CutsTo.cons (lex_punctuation (c := ',') (by decide) _) next.blank
      exact CutsTo.append (cut part (by simp) (readable part (by simp)) _ (by simp [isBreak]) apart.left)
        comma

theorem lex_text (expr : Expr) (readable : expr.Readable) (rest : List Char) (breaks : Breaks rest)
    (apart : Apart expr.text.toList) : CutsTo expr.text.toList expr.lexemes rest := by
  induction expr using Expr.induction generalizing rest with
  | name spelling => exact lex_word readable breaks
  | number digits =>
    cases spelled : digits.toList with
    | nil => simp [Readable, isNumeral, isDigits, spelled] at readable
    | cons c others =>
      by_cases minus : c = '-'
      · subst minus
        have number : isDigits others = true := by simpa [Readable, isNumeral, spelled] using readable
        have lexed : (Expr.number digits).lexemes = [.symbol "-", .number (String.ofList others)] := by
          simp [lexemes, numberLexemes, spelled]
        have unsigned : CutsTo others [.number (String.ofList others)] rest := lex_number number breaks
        rw [lexed, text, spelled]
        cases others with
        | nil => simp [isDigits] at number
        | cons d others =>
          have notMinus : d ≠ '-' := by
            rw [text, spelled] at apart
            exact apart.ne_minus
          exact CutsTo.cons (lex_minus (isStart_of_isDigits number) notMinus _) unsigned
      · have number : isDigits (c :: others) = true := by simpa [Readable, isNumeral, spelled, minus] using readable
        have lexed : (Expr.number digits).lexemes = [.number digits] := by simp [lexemes, numberLexemes, spelled, minus]
        have cut : CutsTo (c :: others) [.number (String.ofList (c :: others))] rest := lex_number number breaks
        rw [← spelled, String.ofList_toList] at cut
        rw [lexed]
        exact cut
  | sized width base digits =>
    obtain ⟨positive, present, inside⟩ := readable
    have letter : Lexeme.isBaseLetter base.letter = true := by cases base <;> decide
    have cut := lex_based (isDigits_of_pos positive) letter present inside breaks
    rw [String.ofList_toList, String.ofList_toList] at cut
    rw [CutsTo, toList_text_sized, append_assoc]
    exact cut
  | fill bit =>
    rw [toList_text_fill]
    exact lex_fill readable rest
  | unary op operand ih =>
    obtain ⟨c, others, spelled, start⟩ := text_starts operand readable.1
    rw [toList_text_unary] at apart ⊢
    have next := ih readable.1 rest breaks apart.right
    cases op with
    | complement =>
      refine CutsTo.cons ?_ next
      rw [spelled]
      exact lex_single rfl (not_mem_of_isStart start rfl) _
    | negate =>
      have notMinus : c ≠ '-' := by
        rw [spelled] at apart
        exact apart.ne_minus
      refine CutsTo.cons ?_ next
      rw [spelled]
      exact lex_minus start notMinus _
  | binary op lhs rhs left right =>
    obtain ⟨⟨leftReadable, _⟩, rightReadable, _⟩ := readable
    rw [toList_text_binary] at apart ⊢
    have operator : CutsTo (' ' :: (op.text.toList ++ [' '])) [.symbol op.text] (rhs.text.toList ++ rest) := by
      rw [CutsTo, cons_append, append_assoc]
      exact lex_operator op _
    have second := right rightReadable rest breaks apart.right.right
    exact CutsTo.append (left leftReadable _ (by simp [isBreak]) apart.left) (operator.append second)
  | paren inner ih =>
    obtain ⟨c, others, spelled, start⟩ := text_starts inner readable
    rw [toList_text_paren] at apart ⊢
    have closing : CutsTo [')'] [.symbol ")"] rest := lex_punctuation (by decide) rest
    have next := (ih readable (')' :: rest) (by simp [isBreak]) apart.tail.left).append closing
    refine CutsTo.cons ?_ next
    rw [spelled]
    exact lex_single rfl (not_mem_of_isStart start rfl) _
  | concat parts ih =>
    obtain ⟨_, inside⟩ := readable
    rw [toList_text_concat] at apart ⊢
    have closing : CutsTo ['\x7d'] [.symbol "\x7d"] rest := lex_punctuation (by decide) rest
    refine CutsTo.cons (lex_punctuation (by decide) _) (CutsTo.append ?_ closing)
    exact lex_separated parts ((areReadable_iff parts).mp inside) ih apart.tail.left (by simp [isBreak])
  | replicate count part ih =>
    rw [toList_text_replicate] at apart ⊢
    have closing : CutsTo ['\x7d', '\x7d'] [.symbol "\x7d", .symbol "\x7d"] rest :=
      CutsTo.cons (lex_punctuation (by decide) _) (lex_punctuation (by decide) rest)
    have inner := (ih readable.2 ('\x7d' :: '\x7d' :: rest) (by simp [isBreak])
      apart.tail.right.tail.left).append closing
    have braces : CutsTo ('\x7b' :: (part.text.toList ++ ['\x7d', '\x7d'])) (.symbol "\x7b" :: _) rest :=
      CutsTo.cons (lex_punctuation (by decide) _) inner
    have counted : CutsTo (toString count).toList [.number (String.ofList (toString count).toList)]
        ('\x7b' :: (part.text.toList ++ ['\x7d', '\x7d']) ++ rest) :=
      lex_number (isDigits_of_pos readable.1) (by simp [isBreak])
    rw [String.ofList_toList] at counted
    exact CutsTo.cons (lex_punctuation (by decide) _) (counted.append braces)
  | index base subscript named ih =>
    rw [toList_text_index] at apart ⊢
    have closing : CutsTo [']'] [.symbol "]"] rest := lex_punctuation (by decide) rest
    have inner := (ih readable.2 (']' :: rest) (by simp [isBreak]) apart.right.tail.left).append closing
    exact CutsTo.append (named readable.1.1 _ (by simp [isBreak]) apart.left)
      (CutsTo.cons (lex_punctuation (by decide) _) inner)
  | slice base left right named leftIH rightIH =>
    obtain ⟨⟨baseReadable, _⟩, leftReadable, rightReadable⟩ := readable
    obtain ⟨c, others, spelled, start⟩ := text_starts right rightReadable
    rw [toList_text_slice] at apart ⊢
    have closing : CutsTo [']'] [.symbol "]"] rest := lex_punctuation (by decide) rest
    have bound := (rightIH rightReadable (']' :: rest) (by simp [isBreak])
      apart.right.tail.right.tail.left).append closing
    have colon : CutsTo (':' :: (right.text.toList ++ [']'])) (.symbol ":" :: (right.lexemes ++ [.symbol "]"]))
        rest := by
      refine CutsTo.cons ?_ bound
      rw [spelled]
      exact lex_single rfl (not_mem_of_isStart start rfl) _
    have inner := (leftIH leftReadable _ (by simp [isBreak]) apart.right.tail.left).append colon
    exact CutsTo.append (named baseReadable _ (by simp [isBreak]) apart.left)
      (CutsTo.cons (lex_punctuation (by decide) _) inner)
  | choose condition yes no tested yesIH noIH =>
    obtain ⟨⟨conditionReadable, _⟩, yesReadable, noReadable⟩ := readable
    rw [toList_text_choose] at apart ⊢
    have last := (noIH noReadable rest breaks apart.right.tail.tail.tail.right.tail.tail.tail).blank
    have colon := CutsTo.cons (lex_single rfl (by decide) _ : lex (':' :: ' ' :: _) = _) last
    have middle := (yesIH yesReadable _ (by simp [isBreak]) apart.right.tail.tail.tail.left).append colon.blank
    exact CutsTo.append (tested conditionReadable _ (by simp [isBreak]) apart.left)
      (CutsTo.cons (lex_punctuation (by decide) _) middle.blank).blank

end Expr

end RtlBridge.Verilog

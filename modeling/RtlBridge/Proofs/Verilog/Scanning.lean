import Mathlib.Data.Bool.AllAny
import RtlBridge.Proofs.Text.Numeral
import RtlBridge.Proofs.Verilog.Lexing

/-! Words and marks of written text. Comments run from two slashes to the end of their line; words are runs of
letters and digits, and everything else but white space is a mark of its own.

Text is `Quiet` if it holds no comment, no line break and none of the words that give statements their
structure, and `Inert` if a reader that looks for a mark outside all brackets also passes over it. Written
expressions are inert.
-/

namespace RtlBridge.Verilog

open List

theorem intercalate_of_each {α : Type} {separator : List α} {texts : List (List α)} {holds : List α → Prop}
    (nil : holds []) (joins : ∀ first second, holds first → holds second → holds (first ++ separator ++ second))
    (each : ∀ text ∈ texts, holds text) : holds (separator.intercalate texts) := by
  induction texts with
  | nil => exact nil
  | cons first rest ih =>
    obtain ⟨here, others⟩ := forall_mem_cons.mp each
    cases rest with
    | nil =>
      rw [intercalate_singleton]
      exact here
    | cons second rest =>
      rw [intercalate_cons_cons]
      exact joins _ _ here (ih others)

/-! ### Words and marks -/

inductive Token where
  | word (text : String)
  | mark (c : Char)
deriving Repr, DecidableEq

/-- Characters of words. All of those beyond ASCII count, as digits of any script do. -/
def inWord (c : Char) : Bool := c.isAlphanum || c = '_' || c = '$' || decide (0x80 ≤ c.toNat)

def wordOf (letters : List Char) : List Token :=
  if letters.isEmpty then [] else [.word (String.ofList letters)]

def markOf (c : Char) : List Token := if c.isWhitespace then [] else [.mark c]

def tokensFrom (letters : List Char) : List Char → List Token
  | [] => wordOf letters
  | c :: rest =>
    if inWord c then tokensFrom (letters ++ [c]) rest
    else wordOf letters ++ (markOf c ++ tokensFrom [] rest)

def tokens (text : List Char) : List Token := tokensFrom [] text

theorem tokensFrom_append_mark (isMark : inWord c = false) (letters text rest : List Char) :
    tokensFrom letters (text ++ c :: rest) = tokensFrom letters text ++ (markOf c ++ tokens rest) := by
  induction text generalizing letters with
  | nil => simp [tokensFrom, isMark, tokens]
  | cons first others ih =>
    rw [cons_append, tokensFrom, tokensFrom]
    split
    · exact ih _
    · rw [ih, append_assoc, append_assoc]

theorem tokens_append_mark (isMark : inWord c = false) (text rest : List Char) :
    tokens (text ++ c :: rest) = tokens text ++ (markOf c ++ tokens rest) := tokensFrom_append_mark isMark [] text rest

theorem tokens_append (apart : ∀ c ∈ second.head?, inWord c = false) :
    tokens (first ++ second) = tokens first ++ tokens second := by
  cases second with
  | nil => rw [append_nil, show tokens [] = [] from rfl, append_nil]
  | cons c rest =>
    have isMark := apart c rfl
    rw [tokens_append_mark isMark]
    exact congrArg (tokens first ++ ·) (tokens_append_mark isMark [] rest).symm

theorem tokens_cons_mark (isMark : inWord c = false) (rest : List Char) :
    tokens (c :: rest) = markOf c ++ tokens rest := tokens_append_mark isMark [] rest

theorem tokensFrom_word (areLetters : ∀ c ∈ letters, inWord c = true) (first : List Char) :
    tokensFrom first letters = wordOf (first ++ letters) := by
  induction letters generalizing first with
  | nil => rw [tokensFrom, append_nil]
  | cons c rest ih =>
    obtain ⟨here, later⟩ := forall_mem_cons.mp areLetters
    rw [tokensFrom, if_pos here, ih later, append_assoc]
    rfl

theorem tokens_word (areLetters : ∀ c ∈ letters, inWord c = true) : tokens letters = wordOf letters :=
  tokensFrom_word areLetters []

theorem tokens_blanks (areBlanks : ∀ c ∈ blanks, c = ' ') (text : List Char) :
    tokens (blanks ++ text) = tokens text := by
  induction blanks with
  | nil => rfl
  | cons c rest ih =>
    obtain ⟨here, later⟩ := forall_mem_cons.mp areBlanks
    rw [here, cons_append, tokens_cons_mark rfl, ih later]
    rfl

/-! ### Comments -/

def strip (inComment : Bool) : List Char → List Char
  | [] => []
  | c :: rest =>
    if inComment then if c = '\n' then '\n' :: strip false rest else strip true rest
    else if c = '/' ∧ rest.head? = some '/' then strip true rest
    else c :: strip false rest

def scan (text : List Char) : List Token := tokens (strip false text)

def scanLines (lines : List String) : List Token := lines.flatMap fun line => scan line.toList

theorem strip_line (oneLine : '\n' ∉ line) (inComment : Bool) (rest : List Char) :
    strip inComment (line ++ '\n' :: rest) = strip inComment line ++ '\n' :: strip false rest := by
  induction line generalizing inComment with
  | nil => cases inComment <;> simp [strip]
  | cons c others ih =>
    rw [mem_cons, not_or] at oneLine
    have notBreak : ¬ c = '\n' := fun same => oneLine.1 same.symm
    have sameHead : (others ++ '\n' :: rest).head? = some '/' ↔ others.head? = some '/' := by cases others <;> simp
    simp only [cons_append, strip, sameHead]
    cases inComment with
    | true => simp only [if_true, if_neg notBreak, ih oneLine.2]
    | false =>
      simp only [Bool.false_eq_true, if_false]
      split
      · exact ih oneLine.2 true
      · rw [ih oneLine.2 false, cons_append]

theorem scan_line (oneLine : '\n' ∉ line) (rest : List Char) : scan (line ++ '\n' :: rest) = scan line ++ scan rest := by
  rw [scan, strip_line oneLine, tokens_append_mark rfl]
  rfl

theorem scan_intercalate (oneLine : ∀ line ∈ lines, '\n' ∉ line.toList) :
    scan ("\n".intercalate lines ++ "\n").toList = scanLines lines := by
  rw [String.toList_append, String.toList_intercalate]
  induction lines with
  | nil => rfl
  | cons first rest ih =>
    obtain ⟨here, others⟩ := forall_mem_cons.mp oneLine
    have later := ih others
    cases rest with
    | nil =>
      rw [map_singleton, intercalate_singleton, show "\n".toList = ['\n'] from rfl, scan_line here]
      rfl
    | cons second others =>
      rw [map_cons, map_cons, intercalate_cons_cons, append_assoc, append_assoc]
      rw [map_cons] at later
      exact (scan_line here _).trans (congrArg (scan first.toList ++ ·) later)

/-- Text that neither holds a comment nor begins one, whatever follows it. -/
def Uncommented (text : List Char) : Prop := ∀ rest, strip false (text ++ rest) = text ++ strip false rest

namespace Uncommented

theorem nil : Uncommented [] := fun _ => rfl

theorem append (left : Uncommented first) (right : Uncommented second) : Uncommented (first ++ second) := by
  intro rest
  rw [append_assoc, left, right, append_assoc]

theorem of_not_mem (noSlash : '/' ∉ text) : Uncommented text := by
  induction text with
  | nil => exact nil
  | cons c others ih =>
    rw [mem_cons, not_or] at noSlash
    intro rest
    have notSlash : ¬ (c = '/' ∧ (others ++ rest).head? = some '/') := fun same => noSlash.1 same.1.symm
    rw [cons_append, strip, if_neg Bool.false_ne_true, if_neg notSlash, ih noSlash.2, cons_append]

end Uncommented

/-- Text on one line without comments. -/
structure Clear (text : List Char) : Prop where
  uncommented : Uncommented text
  oneLine : '\n' ∉ text

namespace Clear

theorem append (left : Clear first) (right : Clear second) : Clear (first ++ second) := by
  refine ⟨left.uncommented.append right.uncommented, ?_⟩
  rw [mem_append, not_or]
  exact ⟨left.oneLine, right.oneLine⟩

theorem of_not_mem (noSlash : '/' ∉ text := by decide) (noBreak : '\n' ∉ text := by decide) : Clear text :=
  ⟨.of_not_mem noSlash, noBreak⟩

theorem cons {c : Char} {rest : List Char} (clear : Clear rest) (plain : c ≠ '/' ∧ c ≠ '\n' := by decide) :
    Clear (c :: rest) := by
  have single : Clear [c] := by
    apply of_not_mem
    · exact fun member => plain.1 (mem_singleton.mp member).symm
    · exact fun member => plain.2 (mem_singleton.mp member).symm
  exact single.append clear

end Clear

/-- Text on one line without comments, with its words and marks. -/
structure Spells (text : List Char) (list : List Token) : Prop extends Clear text where
  tokens_eq : tokens text = list

def isPlainMark (c : Char) : Bool := !inWord c && c != '/' && c != '\n'

theorem isPlainMark_iff : isPlainMark c = true ↔ inWord c = false ∧ c ≠ '/' ∧ c ≠ '\n' := by
  simp [isPlainMark, and_assoc]

namespace Spells

theorem nil : Spells [] [] := ⟨⟨.nil, not_mem_nil⟩, rfl⟩

theorem word (areLetters : ∀ c ∈ letters, inWord c = true) : Spells letters (wordOf letters) := by
  refine ⟨.of_not_mem (fun slash => ?_) (fun lineBreak => ?_), tokens_word areLetters⟩
  · exact absurd (areLetters _ slash) (by decide)
  · exact absurd (areLetters _ lineBreak) (by decide)

theorem append (left : Spells first list) (right : Spells second others)
    (apart : ∀ c ∈ second.head?, inWord c = false) : Spells (first ++ second) (list ++ others) := by
  refine ⟨left.toClear.append right.toClear, ?_⟩
  rw [tokens_append apart, left.tokens_eq, right.tokens_eq]

theorem mark (left : Spells first list) (right : Spells second others) (isMark : isPlainMark c = true := by decide) :
    Spells (first ++ c :: second) (list ++ (markOf c ++ others)) := by
  obtain ⟨notLetter, notSlash, notBreak⟩ := isPlainMark_iff.mp isMark
  refine ⟨left.toClear.append (right.toClear.cons ⟨notSlash, notBreak⟩), ?_⟩
  rw [tokens_append_mark notLetter, left.tokens_eq, right.tokens_eq]

theorem cons {c : Char} {rest : List Char} {list : List Token} (spells : Spells rest list)
    (isMark : isPlainMark c = true := by decide) : Spells (c :: rest) (markOf c ++ list) := nil.mark spells isMark

theorem fixed {text : String} (plain : '/' ∉ text.toList ∧ '\n' ∉ text.toList := by decide)
    (words : tokens text.toList = list := by decide) : Spells text.toList list := ⟨.of_not_mem plain.1 plain.2, words⟩

end Spells

/-! ### Quiet text -/

def keywords : List String :=
  ["module", "endmodule", "begin", "end", "case", "endcase", "if", "else", "default", "unique"]

/-- Tokens among which there are no words of structure. -/
def Plain (list : List Token) : Prop := ∀ word, .word word ∈ list → word ∉ keywords

theorem plain_append : Plain (first ++ second) ↔ Plain first ∧ Plain second := by
  simp [Plain, or_imp, forall_and]

theorem plain_markOf (c : Char) : Plain (markOf c) := by
  rw [markOf]
  split <;> simp [Plain]

theorem plain_wordOf (notKeyword : String.ofList letters ∉ keywords) : Plain (wordOf letters) := by
  rw [wordOf]
  split <;> simp [Plain, notKeyword]

/-- Text on one line without comments and without the words of structure. -/
structure Quiet (text : List Char) : Prop extends Clear text where
  plain : Plain (tokens text)

namespace Quiet

theorem of_spells (spells : Spells text list) (plain : Plain list) : Quiet text :=
  ⟨spells.toClear, spells.tokens_eq ▸ plain⟩

theorem spells (quiet : Quiet text) : Spells text (tokens text) := ⟨quiet.toClear, rfl⟩

theorem nil : Quiet [] := of_spells .nil nofun

theorem word (areLetters : ∀ c ∈ letters, inWord c = true) (notKeyword : String.ofList letters ∉ keywords) :
    Quiet letters := of_spells (.word areLetters) (plain_wordOf notKeyword)

theorem append (left : Quiet first) (right : Quiet second) (apart : ∀ c ∈ second.head?, inWord c = false) :
    Quiet (first ++ second) := of_spells (left.spells.append right.spells apart) (plain_append.mpr ⟨left.plain, right.plain⟩)

theorem mark (left : Quiet first) (isMark : isPlainMark c = true) (right : Quiet second) : Quiet (first ++ c :: second) :=
  of_spells (left.spells.mark right.spells isMark)
    (plain_append.mpr ⟨left.plain, plain_append.mpr ⟨plain_markOf c, right.plain⟩⟩)

theorem cons {c : Char} (isMark : isPlainMark c = true) {rest : List Char} (quiet : Quiet rest) : Quiet (c :: rest) :=
  nil.mark isMark quiet

end Quiet

/-! ### Numbers and names -/

/-- Characters of numbers, none of which is a letter of a word of structure. -/
def isFigure (c : Char) : Bool := Text.isDigit c || c.isUpper || c = 'x' || c = 'z'

theorem inWord_of_isFigure (figure : isFigure c = true) : inWord c = true := by
  by_cases wide : 0x80 ≤ c.toNat
  · simp [inWord, wide]
  · simp only [isFigure, Text.isDigit, Text.digitValue?, Bool.or_eq_true, decide_eq_true_eq] at figure
    rw [if_pos (by omega)] at figure
    rcases figure with ((digit | upper) | rfl) | rfl
    · split at digit
      · rename_i range
        simp only [Bool.and_eq_true, decide_eq_true_eq] at range
        have isDigit : c.isDigit = true := by
          simp only [Char.isDigit, UInt32.le_iff_toNat_le, Char.toNat_val, ge_iff_le, Bool.and_eq_true,
            decide_eq_true_eq, Char.reduceVal, UInt32.reduceToNat]
          exact range
        simp [inWord, Char.isAlphanum, isDigit]
      · cases digit
    · unfold inWord Char.isAlphanum Char.isAlpha
      simp [upper]
    · decide
    · decide

theorem not_mem_keywords (member : c ∈ text.toList) (other : (keywords.flatMap String.toList).contains c = false)
    : text ∉ keywords := by
  intro isKeyword
  have inside : c ∈ keywords.flatMap String.toList := mem_flatMap.mpr ⟨text, isKeyword, member⟩
  rw [contains_eq_mem, decide_eq_false_iff_not] at other
  exact other inside

theorem not_isFigure_of_keyword : ∀ c ∈ keywords.flatMap String.toList, isFigure c = false :=
  all_iff_forall_prop.mp (by decide +kernel)

theorem not_mem_keywords_of_figure (member : c ∈ text.toList) (figure : isFigure c = true) : text ∉ keywords := by
  apply not_mem_keywords member
  rw [contains_eq_mem, decide_eq_false_iff_not]
  intro inside
  rw [not_isFigure_of_keyword c inside] at figure
  nomatch figure

theorem not_mem_keywords_based (alone : String.ofList [letter] ∉ keywords)
    (areFigures : ∀ c ∈ figures, isFigure c = true) : String.ofList (letter :: figures) ∉ keywords := by
  cases figures with
  | nil => exact alone
  | cons c rest =>
    have member : c ∈ (String.ofList (letter :: c :: rest)).toList := by simp
    exact not_mem_keywords_of_figure member (areFigures c (mem_cons_self ..))

theorem quiet_figures (areFigures : ∀ c ∈ figures, isFigure c = true) : Quiet figures := by
  cases figures with
  | nil => exact .nil
  | cons first rest =>
    apply Quiet.word fun c member => inWord_of_isFigure (areFigures c member)
    have member : first ∈ (String.ofList (first :: rest)).toList := by simp
    exact not_mem_keywords_of_figure member (areFigures first (mem_cons_self ..))

def IsNumber (text : List Char) : Prop :=
  ∃ figures : List Char, (∀ c ∈ figures, isFigure c = true) ∧ (text = figures ∨ text = '-' :: figures)

theorem IsNumber.quiet (number : IsNumber text) : Quiet text := by
  obtain ⟨figures, areFigures, rfl | rfl⟩ := number
  · exact quiet_figures areFigures
  · exact .cons rfl (quiet_figures areFigures)

theorem isFigure_of_isDigit (digit : Text.isDigit c = true) : isFigure c = true := by simp [isFigure, digit]

theorem isFigure_toString (n : Nat) : ∀ c ∈ (toString n).toList, isFigure c = true := by
  rw [Text.Numeral.toList_toString]
  exact fun c member => isFigure_of_isDigit (Text.Numeral.isDigit_of_mem_toDigits member)

theorem isNumber_toString (n : Int) : IsNumber (toString n).toList := by
  cases n with
  | ofNat m => exact ⟨_, isFigure_toString m, .inl rfl⟩
  | negSucc m =>
    refine ⟨_, isFigure_toString (m + 1), .inr ?_⟩
    change ("-" ++ toString (m + 1)).toList = _
    rw [String.toList_append]
    rfl

/-- Names of one word that is no word of structure. -/
structure IsPlainName (text : String) : Prop where
  present : text.toList ≠ []
  letters : ∀ c ∈ text.toList, inWord c = true
  notKeyword : text ∉ keywords

instance (text : String) : Decidable (IsPlainName text) :=
  decidable_of_iff (text.toList ≠ [] ∧ text.toList.all inWord = true ∧ text ∉ keywords)
    ⟨fun holds => ⟨holds.1, all_eq_true.mp holds.2.1, holds.2.2⟩,
      fun isName => ⟨isName.present, all_eq_true.mpr isName.letters, isName.notKeyword⟩⟩

theorem IsPlainName.quiet (name : IsPlainName text) : Quiet text.toList := by
  apply Quiet.word name.letters
  rw [String.ofList_toList]
  exact name.notKeyword

theorem IsPlainName.tokens_eq (name : IsPlainName text) : tokens text.toList = [.word text] := by
  rw [tokens_word name.letters, wordOf, if_neg (by simpa using name.present), String.ofList_toList]

/-! ### Looking for a mark -/

def Token.opens : Token → Bool
  | .mark c => c = '(' || c = '[' || c = '\x7b'
  | .word _ => false

def Token.closes : Token → Bool
  | .mark c => c = ')' || c = ']' || c = '\x7d'
  | .word _ => false

def Token.behind (token : Token) (depth : Nat) : Nat :=
  if token.opens then depth + 1 else if token.closes then depth - 1 else depth

/-- The tokens in front of a mark that stands outside all brackets, and those behind it. -/
def upTo (stop : Char) (depth : Nat) : List Token → Option (List Token × List Token)
  | [] => none
  | token :: rest =>
    if depth = 0 ∧ token = .mark stop then some ([], rest)
    else (upTo stop (token.behind depth) rest).map fun found => (token :: found.1, found.2)

/-- Tokens that a search passes over where at least so many brackets are open. -/
def Passes (stop : Char) (least : Nat) (list : List Token) : Prop :=
  ∀ depth rest, least ≤ depth →
    upTo stop depth (list ++ rest) = (upTo stop depth rest).map fun found => (list ++ found.1, found.2)

namespace Passes

variable {stop : Char} {least : Nat}

theorem nil : Passes stop least [] := by
  intro depth rest _
  simp

theorem append (left : Passes stop least first) (right : Passes stop least second) :
    Passes stop least (first ++ second) := by
  intro depth rest enough
  rw [append_assoc, left depth _ enough, right depth _ enough, Option.map_map]
  simp [Function.comp_def]

theorem single (neutral : token.opens = false ∧ token.closes = false) (other : token ≠ .mark stop ∨ 0 < least)
    : Passes stop least [token] := by
  intro depth rest enough
  have goesOn : ¬ (depth = 0 ∧ token = .mark stop) := by
    rintro ⟨rfl, same⟩
    rcases other with different | inside
    · exact different same
    · omega
  have sameDepth : token.behind depth = depth := by simp [Token.behind, neutral]
  rw [singleton_append, upTo, if_neg goesOn, sameDepth]
  rfl

theorem all (each : ∀ token ∈ list, (token.opens = false ∧ token.closes = false) ∧ (token ≠ .mark stop ∨ 0 < least)) :
    Passes stop least list := by
  induction list with
  | nil => exact nil
  | cons token rest ih =>
    obtain ⟨here, later⟩ := forall_mem_cons.mp each
    exact (single here.1 here.2).append (ih later)

theorem group (opens : (Token.mark opening).opens = true)
    (closes : (Token.mark closing).opens = false ∧ (Token.mark closing).closes = true) (notStop : opening ≠ stop)
    (passes : Passes stop (least + 1) child) : Passes stop least (.mark opening :: (child ++ [.mark closing])) := by
  intro depth rest enough
  have entered : ¬ (depth = 0 ∧ Token.mark opening = .mark stop) := fun same => notStop (Token.mark.inj same.2)
  have left : ¬ (depth + 1 = 0 ∧ Token.mark closing = .mark stop) := fun same => absurd same.1 (Nat.succ_ne_zero depth)
  have deeper : (Token.mark opening).behind depth = depth + 1 := by simp [Token.behind, opens]
  have back : (Token.mark closing).behind (depth + 1) = depth := by simp [Token.behind, closes]
  rw [cons_append, upTo, if_neg entered, deeper, append_assoc, passes (depth + 1) _ (by omega),
    singleton_append, upTo, if_neg left, back]
  simp [Option.map_map, Function.comp_def]

theorem upTo_eq (passes : Passes stop 0 list) (rest : List Token) :
    upTo stop 0 (list ++ .mark stop :: rest) = some (list, rest) := by
  rw [passes 0 _ (Nat.le_refl 0), upTo, if_pos ⟨rfl, rfl⟩]
  simp

end Passes

/-- Quiet text that a search for a mark passes over. -/
structure Inert (stop : Char) (least : Nat) (text : List Char) : Prop extends Quiet text where
  passes : Passes stop least (tokens text)

namespace Inert

variable {stop : Char} {least : Nat}

theorem nil : Inert stop least [] := ⟨.nil, .nil⟩

theorem word (areLetters : ∀ c ∈ letters, inWord c = true) (notKeyword : String.ofList letters ∉ keywords)
    : Inert stop least letters := by
  refine ⟨.word areLetters notKeyword, ?_⟩
  rw [tokens_word areLetters, wordOf]
  split
  · exact .nil
  · exact .single ⟨rfl, rfl⟩ (.inl nofun)

def isNeutral (c : Char) : Bool := isPlainMark c && !(Token.mark c).opens && !(Token.mark c).closes

theorem mark (left : Inert stop least first) (other : c ≠ stop ∨ 0 < least) (right : Inert stop least second)
    (neutral : isNeutral c = true := by decide) : Inert stop least (first ++ c :: second) := by
  simp only [isNeutral, Bool.and_eq_true, Bool.not_eq_true'] at neutral
  refine ⟨left.toQuiet.mark neutral.1.1 right.toQuiet, ?_⟩
  rw [tokens_append_mark (isPlainMark_iff.mp neutral.1.1).1]
  apply left.passes.append (Passes.append _ right.passes)
  rw [markOf]
  split
  · exact .nil
  · exact .single ⟨neutral.1.2, neutral.2⟩ (other.imp_left fun different same => different (Token.mark.inj same))

theorem cons {c : Char} {rest : List Char} (other : c ≠ stop ∨ 0 < least) (inert : Inert stop least rest)
    (neutral : isNeutral c = true := by decide) : Inert stop least (c :: rest) := nil.mark other inert neutral

def areBrackets (opening closing : Char) : Bool :=
  [('(', ')'), ('[', ']'), ('\x7b', '\x7d')].contains (opening, closing)

theorem group (left : Inert stop least first) (brackets : areBrackets opening closing = true) (notStop : opening ≠ stop)
    (inside : Inert stop (least + 1) child) (right : Inert stop least second)
    : Inert stop least (first ++ opening :: (child ++ closing :: second)) := by
  have facts : isPlainMark opening = true ∧ isPlainMark closing = true ∧ markOf opening = [.mark opening] ∧
      markOf closing = [.mark closing] ∧ (Token.mark opening).opens = true ∧ (Token.mark closing).opens = false ∧
      (Token.mark closing).closes = true := by
    simp only [areBrackets, contains_eq_mem, mem_cons, Prod.mk.injEq, not_mem_nil, or_false,
      decide_eq_true_eq] at brackets
    rcases brackets with ⟨rfl, rfl⟩ | ⟨rfl, rfl⟩ | ⟨rfl, rfl⟩ <;> decide
  obtain ⟨openingMark, closingMark, openingToken, closingToken, opens, notOpens, closes⟩ := facts
  refine ⟨left.toQuiet.mark openingMark (inside.toQuiet.mark closingMark right.toQuiet), ?_⟩
  rw [tokens_append_mark (isPlainMark_iff.mp openingMark).1, tokens_append_mark (isPlainMark_iff.mp closingMark).1,
    openingToken, closingToken]
  have enclosed := (Passes.group opens ⟨notOpens, closes⟩ notStop inside.passes).append right.passes
  simp only [cons_append, append_assoc, nil_append] at enclosed ⊢
  exact left.passes.append enclosed

theorem enclosed (brackets : areBrackets opening closing = true) (notStop : opening ≠ stop)
    (inside : Inert stop (least + 1) child) : Inert stop least (opening :: (child ++ [closing])) :=
  nil.group brackets notStop inside nil

theorem number {text : List Char} (isNumber : IsNumber text) (notMinus : '-' ≠ stop) : Inert stop least text := by
  obtain ⟨figures, areFigures, same⟩ := isNumber
  have inert : Inert stop least figures := by
    refine ⟨quiet_figures areFigures, ?_⟩
    rw [tokens_word fun c member => inWord_of_isFigure (areFigures c member), wordOf]
    split
    · exact .nil
    · exact .single ⟨rfl, rfl⟩ (.inl nofun)
  rcases same with rfl | rfl
  · exact inert
  · exact inert.cons (.inl notMinus)

end Inert

/-! ### Expressions -/

/-- Marks that end an expression where they stand outside all brackets. -/
def expressionStops : List Char := [')', ']', ';', ':']

namespace Expr

/-- Expressions whose names are plain and whose literals have figures; with `choices`, they may choose between
values. -/
def IsClean (choices : Bool) : Expr → Prop
  | .name text => IsPlainName text
  | .number digits => IsNumber digits.toList
  | .sized _ _ digits => ∀ c ∈ digits.toList, isFigure c = true
  | .fill bit => isFigure bit = true
  | .unary _ operand => operand.IsClean choices
  | .binary _ lhs rhs => lhs.IsClean choices ∧ rhs.IsClean choices
  | .paren inner => inner.IsClean choices
  | .concat parts => areClean parts
  | .replicate _ part => part.IsClean choices
  | .index base subscript => base.IsClean choices ∧ subscript.IsClean choices
  | .slice base left right => base.IsClean choices ∧ left.IsClean choices ∧ right.IsClean choices
  | .choose condition yes no => choices = true ∧ condition.IsClean choices ∧ yes.IsClean choices ∧ no.IsClean choices
where
  areClean : List Expr → Prop
    | [] => True
    | first :: rest => first.IsClean choices ∧ areClean rest

theorem areClean_iff (parts : List Expr) : IsClean.areClean choices parts ↔ ∀ part ∈ parts, part.IsClean choices := by
  induction parts with
  | nil => simp [IsClean.areClean]
  | cons first rest ih => simp [IsClean.areClean, ih]

theorem ne_of_stop (isStop : stop ∈ expressionStops) (outside : c ∉ expressionStops := by decide) : c ≠ stop := by
  rintro rfl
  exact outside isStop

/-- Operators are marks, none of which ends an expression. -/
theorem marks_operator (op : BinaryOp) : Clear (' ' :: (op.text.toList ++ [' '])) ∧
    ∀ token ∈ tokens op.text.toList, token.opens = false ∧ token.closes = false ∧
      ∃ c ∉ expressionStops, token = .mark c := by
  constructor
  · cases op with
    | div => exact ⟨fun rest => by simp [strip, BinaryOp.text], by decide⟩
    | _ => exact .of_not_mem
  · cases op <;> simp [BinaryOp.text, tokens, tokensFrom, wordOf, markOf, inWord, Token.opens, Token.closes, expressionStops]

theorem inert_binary (op : BinaryOp) (isStop : stop ∈ expressionStops) (left : Inert stop least first)
    (right : Inert stop least second) : Inert stop least (first ++ ' ' :: (op.text.toList ++ ' ' :: second)) := by
  obtain ⟨clear, areMarks⟩ := marks_operator op
  have split : tokens (first ++ ' ' :: (op.text.toList ++ ' ' :: second)) =
      tokens first ++ (tokens op.text.toList ++ tokens second) := by
    rw [tokens_append_mark rfl, tokens_append_mark rfl]
    rfl
  refine ⟨⟨?_, ?_⟩, ?_⟩
  · have all := left.toClear.append (clear.append right.toClear)
    simpa using all
  · rw [split, plain_append, plain_append]
    refine ⟨left.plain, fun word member => ?_, right.plain⟩
    obtain ⟨_, _, _, _, same⟩ := areMarks _ member
    cases same
  · rw [split]
    refine left.passes.append (Passes.append (.all fun token member => ?_) right.passes)
    obtain ⟨opens, closes, c, outside, rfl⟩ := areMarks token member
    exact ⟨⟨opens, closes⟩, .inl fun same => ne_of_stop isStop outside (Token.mark.inj same)⟩

theorem inert_separated (isStop : stop ∈ expressionStops) (each : ∀ text ∈ texts, Inert stop least text)
    : Inert stop least ([',', ' '].intercalate texts) := by
  refine intercalate_of_each .nil (fun first second here later => ?_) each
  rw [append_assoc]
  apply here.mark (.inl (ne_of_stop isStop))
  exact later.cons (.inl (ne_of_stop isStop))

theorem inert_text (expr : Expr) (clean : expr.IsClean choices) (isStop : stop ∈ expressionStops)
    (choiceOk : choices = true → ':' ≠ stop ∨ 0 < least) : Inert stop least expr.text.toList := by
  have other {c : Char} (outside : c ∉ expressionStops := by decide) : c ≠ stop := ne_of_stop isStop outside
  have inside (depth : Nat) : choices = true → ':' ≠ stop ∨ 0 < depth + 1 := fun _ => .inr (Nat.succ_pos depth)
  induction expr using Expr.induction generalizing least with
  | name text =>
    apply Inert.word clean.letters
    rw [String.ofList_toList]
    exact clean.notKeyword
  | number digits => exact .number clean other
  | sized width base digits =>
    rw [toList_text_sized]
    have digitsInert : Inert stop least (base.letter :: digits.toList) := by
      have alone : inWord base.letter = true ∧ String.ofList [base.letter] ∉ keywords := by cases base <;> decide
      apply Inert.word _ (not_mem_keywords_based alone.2 clean)
      exact forall_mem_cons.mpr ⟨alone.1, fun c member => inWord_of_isFigure (clean c member)⟩
    exact (Inert.number (isNumber_toString width) other).mark (.inl other) digitsInert
  | fill bit =>
    rw [toList_text_fill]
    have bitInert : Inert stop least [bit] :=
      .number ⟨[bit], forall_mem_singleton.mpr clean, .inl rfl⟩ other
    exact bitInert.cons (.inl other)
  | unary op operand ih =>
    rw [toList_text_unary]
    have inert := ih clean choiceOk
    cases op with
    | complement | negate => exact inert.cons (.inl other)
  | binary op lhs rhs left right =>
    rw [toList_text_binary]
    have inert := inert_binary op isStop (left clean.1 choiceOk) (right clean.2 choiceOk)
    simpa using inert
  | paren inner ih =>
    rw [toList_text_paren]
    exact Inert.enclosed rfl other (ih clean (inside _))
  | concat parts ih =>
    rw [toList_text_concat]
    have each := (areClean_iff parts).mp clean
    apply Inert.enclosed rfl other
    apply inert_separated isStop
    intro text member
    obtain ⟨part, isPart, rfl⟩ := mem_map.mp member
    exact ih part isPart (each part isPart) (inside _)
  | replicate count part ih =>
    rw [toList_text_replicate]
    have counted : Inert stop (least + 1) ((toString count).toList ++ '\x7b' :: (part.text.toList ++ ['\x7d'])) :=
      (Inert.number (isNumber_toString count) other).group rfl other
        (ih clean (inside _)) .nil
    have enclosed : Inert stop least ('\x7b' :: (_ ++ ['\x7d'])) := counted.enclosed rfl other
    simpa using enclosed
  | index base subscript first second =>
    rw [toList_text_index]
    exact (first clean.1 choiceOk).group rfl other (second clean.2 (inside _)) .nil
  | slice base left right first second third =>
    rw [toList_text_slice]
    have bounds : Inert stop (least + 1) (left.text.toList ++ ':' :: right.text.toList) :=
      (second clean.2.1 (inside _)).mark (.inr (Nat.succ_pos least)) (third clean.2.2 (inside _))
    have selected : Inert stop least (base.text.toList ++ '[' :: (_ ++ [']'])) :=
      (first clean.1 choiceOk).group rfl other bounds .nil
    simpa using selected
  | choose condition yes no first second third =>
    rw [toList_text_choose]
    obtain ⟨isChoice, testClean, yesClean, noClean⟩ := clean
    have blank : ' ' ≠ stop ∨ 0 < least := .inl other
    have last : Inert stop least (':' :: ' ' :: no.text.toList) :=
      ((third noClean choiceOk).cons blank).cons (choiceOk isChoice)
    have alternatives : Inert stop least (' ' :: (yes.text.toList ++ ' ' :: ':' :: ' ' :: no.text.toList)) :=
      ((second yesClean choiceOk).mark blank last).cons blank
    exact (first testClean choiceOk).mark blank (alternatives.cons (.inl other))

theorem quiet_text {expr : Expr} (clean : expr.IsClean choices) : Quiet expr.text.toList := by
  have inert : Inert ';' 0 expr.text.toList := expr.inert_text clean (by decide) fun _ => .inl (by decide)
  exact inert.toQuiet

end Expr

end RtlBridge.Verilog

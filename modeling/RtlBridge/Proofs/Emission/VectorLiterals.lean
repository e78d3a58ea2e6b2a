import Mathlib.Data.Bool.AllAny
import RtlBridge.Emission.Expr
import RtlBridge.Proofs.Text.LetterCase
import RtlBridge.Proofs.Token.Scanned
import RtlBridge.Proofs.Verilog.Evaluation
import RtlBridge.Vhdl.Parser.Expression

/-! Vector literals from the source to the output: how they are spelled, what is read of them and what is written. -/

namespace RtlBridge.Emission

open List

open Text.Numeral
open Vhdl (Cursor Literal Parser)

/-- How many bits a digit stands for; the digits of a string are bits. -/
def bitsPerDigit : Option BitBase → Nat
  | some .hex => 4
  | some .octal => 3
  | _ => 1

/-- How vector literals are spelled: as digits and underscores behind a base, or as a string of the bits `0 1 x z` in
either letter case. -/
inductive SpellsVector : Option BitBase → List Char → List Char → Lexeme → Prop
  | based {letter : Char} {base : BitBase} {digits : List Char} (isBase : letter = base.letter ∨ letter = base.letter.toUpper)
      (hexDigits : ∀ c ∈ digits, Piece.isHexChar c = true) :
      SpellsVector (some base) (Piece.withoutUnderscores digits) (letter :: '\x22' :: digits ++ ['\x22'])
        (.bitString base (String.ofList (Piece.withoutUnderscores digits)))
  | bits {digits : List Char} (areBits : ∀ c ∈ digits, c ∈ "01xzXZ".toList) :
      SpellsVector none digits ('\x22' :: digits ++ ['\x22']) (.string (String.ofList digits))

/-- The digits of a base; a string may also have unknown bits. -/
def IsVectorDigit : Option BitBase → Char → Prop
  | some base, c => IsDigitIn (2 ^ bitsPerDigit (some base)) c
  | none, _ => True

/-- A literal that has the width of its digits and is written with this width and with their value, a string bit by
bit. -/
structure KeepsVector (base : Option BitBase) (digits : List Char) (source : Literal) (radix : Verilog.Base)
    (figures : List Char) : Prop where
  width : ∀ names line, (Vhdl.Expr.literal source line).width? names = some (bitsPerDigit base * digits.length : Nat)
  written : ∀ names profile lend width line, expr names profile lend width (.literal source line) =
    .ok (.sized (bitsPerDigit base * digits.length : Nat) radix (String.ofList figures))
  bits : base = none → radix = .binary ∧ figures = digits.map Char.toLower
  value : (∀ d ∈ digits, IsDigitIn (2 ^ bitsPerDigit base) d) →
    source.value? = some (Int.ofNat (weighted (2 ^ bitsPerDigit base) digits)) ∧
      Verilog.basedValue radix.letter (String.ofList figures) = weighted (2 ^ bitsPerDigit base) digits

/-! ### Literals -/

theorem known_of_isDigitIn (digit : IsDigitIn 16 c) : c ∉ ['x', 'X', 'z', 'Z', '?'] := by
  have unknown : ∀ c ∈ ['x', 'X', 'z', 'Z', '?'], (digitOrLetter? c).any (· < 16) = false :=
    all_iff_forall_prop.mp rfl
  intro member
  rw [isDigitIn_iff, unknown c member] at digit
  cases digit

theorem basedValue_eq_weighted {letter : Char} (present : digits ≠ [])
    (areDigits : ∀ d ∈ digits, IsDigitIn (if letter = 'h' then 16 else 2) d) :
    Verilog.basedValue letter (String.ofList digits) = weighted (if letter = 'h' then 16 else 2) digits := by
  have known : (digits.map fun c => if c ∈ ['x', 'X', 'z', 'Z', '?'] then '0' else c) = digits := by
    refine (map_congr_left fun c member => if_neg (known_of_isDigitIn ?_)).trans (map_id' digits)
    obtain ⟨value, isValue, small⟩ := areDigits c member
    refine ⟨value, isValue, ?_⟩
    split at small <;> omega
  rw [Verilog.basedValue, String.toList_ofList, known, read?_eq_some_iff.mpr ⟨present, areDigits, rfl⟩,
    Option.getD_some]

theorem keepsVector_hex (present : digits ≠ []) (areHex : ∀ d ∈ digits, d ∈ "0123456789abcdefABCDEF".toList) :
    KeepsVector (some .hex) digits (.hex (String.ofList digits)) .hex (digits.map Char.toUpper) := by
  have table : ∀ d ∈ "0123456789abcdefABCDEF".toList, digitOrLetter? d.toUpper = digitOrLetter? d :=
    all_iff_forall_prop.mp (by decide +kernel)
  have raised : weighted 16 (digits.map Char.toUpper) = weighted 16 digits := by
    have same : digits.filterMap (digitOrLetter? ∘ Char.toUpper) = digits.filterMap digitOrLetter? :=
      filterMap_congr fun d member => table d (areHex d member)
    rw [weighted, filterMap_map, same, weighted]
  refine ⟨fun _ _ => by simp [Vhdl.Expr.width?, Literal.width?, bitsPerDigit],
    fun _ _ _ _ _ => by simp [expr, literal, bitsPerDigit], (by rintro ⟨⟩), fun (areDigits : ∀ d ∈ digits, IsDigitIn 16 d) => ?_⟩
  have raisedDigits : ∀ d ∈ digits.map Char.toUpper, IsDigitIn 16 d := by
    refine forall_mem_map.mpr fun d member => ?_
    rw [IsDigitIn, table d (areHex d member)]
    exact areDigits d member
  rw [Literal.value?, String.toList_ofList, read?_eq_some_iff.mpr ⟨present, areDigits, rfl⟩]
  exact ⟨rfl, (basedValue_eq_weighted (by simpa using present) raisedDigits).trans raised⟩

/-- Bits are written as they are, so that they keep a vector if they have its width and its value. -/
theorem keepsVector_binary (present : figures ≠ []) (width : figures.length = bitsPerDigit base * digits.length)
    (bits : base = none → figures = digits.map Char.toLower)
    (value : (∀ d ∈ digits, IsDigitIn (2 ^ bitsPerDigit base) d) →
      (∀ d ∈ figures, IsDigitIn 2 d) ∧ weighted 2 figures = weighted (2 ^ bitsPerDigit base) digits) :
    KeepsVector base digits (.binary (String.ofList figures)) .binary figures := by
  refine ⟨fun _ _ => by simp [Vhdl.Expr.width?, Literal.width?, width], fun _ _ _ _ _ => by simp [expr, literal, width],
    fun none => ⟨rfl, bits none⟩, fun areDigits => ?_⟩
  obtain ⟨areBits, same⟩ := value areDigits
  have zeroed : Literal.zeroed (String.ofList figures) = String.ofList figures := by
    rw [Literal.zeroed, String.toList_ofList]
    refine congrArg String.ofList ((map_congr_left fun c member => if_neg ?_).trans (map_id' figures))
    obtain ⟨value, isValue, small⟩ := areBits c member
    have known := known_of_isDigitIn ⟨value, isValue, small.trans (by decide)⟩
    grind
  rw [← same, Literal.value?, zeroed, String.toList_ofList, read?_eq_some_iff.mpr ⟨present, areBits, rfl⟩]
  exact ⟨rfl, basedValue_eq_weighted present areBits⟩

theorem weighted_octalBits (areHex : ∀ d ∈ digits, d ∈ "0123456789abcdefABCDEF".toList)
    (areOctal : ∀ d ∈ digits, ('0' ≤ d && d ≤ '7') = true) :
    (∀ b ∈ digits.flatMap Parser.bitString.octalBits, IsDigitIn 2 b) ∧
      weighted 2 (digits.flatMap Parser.bitString.octalBits) = weighted 8 digits := by
  have table : ∀ d ∈ "0123456789abcdefABCDEF".toList, ('0' ≤ d && d ≤ '7') = true →
      weighted 2 (Parser.bitString.octalBits d) = weighted 8 [d] ∧ (digitOrLetter? d).any (· < 8) = true ∧
      (Parser.bitString.octalBits d).all (fun b => (digitOrLetter? b).any (· < 2)) = true :=
    all_iff_forall_prop.mp (by decide +kernel)
  have facts := fun d member => table d (areHex d member) (areOctal d member)
  clear areHex areOctal
  induction digits with
  | nil => exact ⟨forall_mem_nil _, rfl⟩
  | cons d rest ih =>
    obtain ⟨⟨same, _, areBits⟩, later⟩ := forall_mem_cons.mp facts
    obtain ⟨laterBits, laterSame⟩ := ih later
    have laterDigits : ∀ d ∈ rest, IsDigitIn 8 d := fun d member => isDigitIn_iff.mpr (later d member).2.1
    have length : (rest.flatMap Parser.bitString.octalBits).length = 3 * rest.length := by
      simp [length_flatMap, Parser.bitString.octalBits, Nat.mul_comm]
    have whole : weighted 8 (d :: rest) = weighted 8 [d] * 8 ^ rest.length + weighted 8 rest :=
      weighted_append [d] laterDigits
    rw [flatMap_cons, weighted_append _ laterBits, same, laterSame, length, pow_mul, whole]
    refine ⟨fun b member => ?_, rfl⟩
    rcases mem_append.mp member with here | there
    · exact isDigitIn_iff.mpr (all_eq_true.mp areBits b here)
    · exact laterBits b there

/-! ### Reading -/

/-- What is read of a vector literal: a literal that keeps the vector, exactly if there are digits and all of them fit. -/
def ReadsVector (base : Option BitBase) (digits : List Char) (found : Except SyntaxFault Literal) : Prop :=
  ((digits ≠ [] ∧ ∀ d ∈ digits, IsVectorDigit base d) →
      ∃ source radix figures, found = .ok source ∧ KeepsVector base digits source radix figures) ∧
    (¬(digits ≠ [] ∧ ∀ d ∈ digits, IsVectorDigit base d) → ∃ fault, found = .error fault)

theorem readsVector_nil (fault : SyntaxFault) : ReadsVector base [] (.error fault) :=
  ⟨fun accepted => absurd rfl accepted.1, fun _ => ⟨fault, rfl⟩⟩

theorem readsVector_of_test (base : BitBase) (fits : ∀ d ∈ digits, (digitOrLetter? d).any (· < 2 ^ bitsPerDigit (some base)) = test d)
    (present : digits ≠ []) (fault : SyntaxFault)
    (keeps : (∀ d ∈ digits, test d = true) →
      KeepsVector (some base) digits (.binary (String.ofList figures)) .binary figures) :
    ReadsVector (some base) digits
      (if digits.all test = true then .ok (.binary (String.ofList figures)) else .error fault) := by
  have same : (∀ d ∈ digits, IsVectorDigit (some base) d) ↔ digits.all test = true := by
    rw [all_eq_true]
    exact forall₂_congr fun d member => by rw [IsVectorDigit, isDigitIn_iff, fits d member]
  rw [ReadsVector, same]
  split
  · rename_i areDigits
    exact ⟨fun _ => ⟨_, _, _, rfl, keeps (all_eq_true.mp areDigits)⟩,
      fun refused => absurd ⟨present, areDigits⟩ refused⟩
  · rename_i other
    exact ⟨fun accepted => absurd accepted.2 other, fun _ => ⟨fault, rfl⟩⟩

theorem bitString_reads (areHex : ∀ d ∈ digits, d ∈ "0123456789abcdefABCDEF".toList) (base : BitBase) :
    ReadsVector (some base) digits (Parser.bitString base (String.ofList digits)) := by
  by_cases present : digits = []
  · subst present
    exact readsVector_nil _
  have notEmpty : (String.ofList digits).isEmpty = false := by
    simpa [String.isEmpty_iff, ← String.toList_eq_nil_iff] using present
  have table : ∀ d ∈ "0123456789abcdefABCDEF".toList, (digitOrLetter? d).any (· < 16) = true ∧
      (digitOrLetter? d).any (· < 8) = ('0' ≤ d && d ≤ '7') ∧
      (digitOrLetter? d).any (· < 2) = (d = '0' || d = '1') := all_iff_forall_prop.mp (by decide +kernel)
  unfold Parser.bitString
  simp only [notEmpty, String.toList_ofList]
  cases base with
  | hex =>
    have areDigits : ∀ d ∈ digits, IsDigitIn 16 d := fun d member => isDigitIn_iff.mpr (table d (areHex d member)).1
    exact ⟨fun _ => ⟨_, _, _, rfl, keepsVector_hex present areHex⟩, fun refused => absurd ⟨present, areDigits⟩ refused⟩
  | octal =>
    refine readsVector_of_test .octal (fun d member => (table d (areHex d member)).2.1) present _ fun areOctal => ?_
    obtain ⟨first, others, rfl⟩ := exists_cons_of_ne_nil present
    refine keepsVector_binary ?_ ?_ (by rintro ⟨⟩) fun _ => weighted_octalBits areHex areOctal
    · simp [Parser.bitString.octalBits]
    · simp [length_flatMap, Parser.bitString.octalBits, bitsPerDigit]
      omega
  | binary =>
    refine readsVector_of_test .binary (fun d member => (table d (areHex d member)).2.2) present _ fun areBits => ?_
    exact keepsVector_binary present (Nat.one_mul _).symm (by rintro ⟨⟩) fun areDigits => ⟨areDigits, rfl⟩

theorem stringBits_reads (areBits : ∀ c ∈ digits, c ∈ "01xzXZ".toList) :
    ReadsVector none digits (Parser.stringBits (String.ofList digits)) := by
  have table : ∀ c ∈ "01xzXZ".toList, c.toNat < 0x80 ∧ decide (c.toLower ∉ ['0', '1', 'x', 'z']) = false ∧
      ((digitOrLetter? c).any (· < 2) = true → c.toLower = c) := all_iff_forall_prop.mp (by decide +kernel)
  have lowered : Text.lower (String.ofList digits) = String.ofList (digits.map Char.toLower) := by
    rw [Text.lower, String.toList_ofList, Text.lowerFrom_of_ascii false fun c member => (table c (areBits c member)).1]
  have noOther : (digits.map Char.toLower).any (fun c => decide (c ∉ ['0', '1', 'x', 'z'])) = false := by
    rw [any_map, any_eq_false]
    exact fun c member => Bool.eq_false_iff.mp (table c (areBits c member)).2.1
  rw [Parser.stringBits, lowered, String.toList_ofList, noOther]
  by_cases present : digits = []
  · subst present
    exact readsVector_nil _
  have notEmpty : (String.ofList (digits.map Char.toLower)).isEmpty = false := by
    simpa [String.isEmpty_iff, ← String.toList_eq_nil_iff] using present
  rw [notEmpty]
  refine ⟨fun _ => ⟨_, _, _, rfl, keepsVector_binary ?_ ?_ (fun _ => rfl) fun areDigits => ?_⟩,
    fun refused => absurd ⟨present, fun _ _ => trivial⟩ refused⟩
  · simpa using present
  · simp [bitsPerDigit]
  · have same : digits.map Char.toLower = digits :=
      (map_congr_left fun c member => (table c (areBits c member)).2.2 (isDigitIn_iff.mp (areDigits c member))).trans
        (map_id' digits)
    rw [same]
    exact ⟨areDigits, rfl⟩

section Primary

variable (bound : Nat) (inner : Parser Vhdl.Expr) (line start stop : Nat) (ahead : List Token) (last : Token) (source : List Char)

theorem primary_bitString (base : BitBase) (digits : String) :
    (Parser.primary bound inner ⟨⟨.bitString base digits, line, start, stop⟩ :: ahead, last, source⟩).result =
      (Parser.literalAt line (Parser.bitString base digits) ⟨ahead, last, source⟩).result := rfl

theorem primary_string (digits : String) :
    (Parser.primary bound inner ⟨⟨.string digits, line, start, stop⟩ :: ahead, last, source⟩).result =
      (Parser.literalAt line (Parser.stringBits digits) ⟨ahead, last, source⟩).result := rfl

end Primary

theorem ReadsVector.primary {found : Except SyntaxFault Literal} (reads : ReadsVector base digits found)
    (is : result = (Parser.literalAt line found cursor).result) :
    ((digits ≠ [] ∧ ∀ d ∈ digits, IsVectorDigit base d) → ∃ literal radix figures,
        KeepsVector base digits literal radix figures ∧ result = .ok (.literal literal line, cursor)) ∧
      (¬(digits ≠ [] ∧ ∀ d ∈ digits, IsVectorDigit base d) → ∃ fault, result = .error (.malformed line fault)) := by
  refine ⟨fun accepted => ?_, fun refused => ?_⟩
  · obtain ⟨literal, radix, figures, rfl, keeps⟩ := reads.1 accepted
    exact ⟨literal, radix, figures, keeps, is⟩
  · obtain ⟨fault, rfl⟩ := reads.2 refused
    exact ⟨fault, is⟩

/-- Vector literals keep their width and their value: wherever one stands, it is one token, which is refused exactly if
it has no digit or one that is too large, and otherwise is written with the width and the value of its digits. -/
theorem vector_literals_keep_value (spelled : SpellsVector base digits text lexeme) :
    (∀ afterName after, ∃ c rest, text = c :: rest ∧
      Piece.next afterName c (rest ++ after) = .ok (⟨text, some lexeme⟩, after)) ∧
    ∀ bound inner line start stop ahead last source,
      let read := (Parser.primary bound inner ⟨⟨lexeme, line, start, stop⟩ :: ahead, last, source⟩).result
      ((digits ≠ [] ∧ ∀ d ∈ digits, IsVectorDigit base d) → ∃ literal radix figures,
        KeepsVector base digits literal radix figures ∧ read = .ok (.literal literal line, ⟨ahead, last, source⟩)) ∧
      (¬(digits ≠ [] ∧ ∀ d ∈ digits, IsVectorDigit base d) → ∃ fault, read = .error (.malformed line fault)) := by
  cases spelled with
  | @based letter base digits isBase hexDigits =>
    refine ⟨fun afterName after => Piece.next_of_bitString isBase hexDigits after afterName, ?_⟩
    intro bound inner line start stop ahead last source
    refine (bitString_reads (fun d member => ?_) base).primary (primary_bitString ..)
    simp only [Piece.withoutUnderscores, mem_filter, ne_eq, decide_not, Bool.not_eq_true', decide_eq_false_iff_not] at member
    exact mem_hexDigits (hexDigits d member.1) member.2
  | bits areBits =>
    have inLine : ∀ c ∈ "01xzXZ".toList, c ≠ '\x22' ∧ c ≠ '\n' := all_iff_forall_prop.mp (by decide)
    refine ⟨fun afterName after => Piece.next_of_string (fun c member => inLine c (areBits c member)) after afterName, ?_⟩
    intro bound inner line start stop ahead last source
    exact (stringBits_reads areBits).primary (primary_string ..)

/-- An octal literal with an underscore, in front of a semicolon. -/
theorem octal_literal_keeps_value :
    SpellsVector (some .octal) ['1', '7'] ('O' :: '\x22' :: ['1', '_', '7'] ++ ['\x22']) (.bitString .octal "17") ∧
      ∃ source radix figures, KeepsVector (some .octal) ['1', '7'] source radix figures ∧
        (Parser.primary 0 (Parser.term 0) ⟨[⟨.bitString .octal "17", 3, 5, 11⟩, ⟨.symbol ";", 3, 11, 12⟩],
          ⟨.endOfFile, 3, 12, 12⟩, []⟩).result =
          .ok (.literal source 3, ⟨[⟨.symbol ";", 3, 11, 12⟩], ⟨.endOfFile, 3, 12, 12⟩, []⟩) := by
  have hexDigits : ∀ c ∈ ['1', '_', '7'], Piece.isHexChar c = true := all_iff_forall_prop.mp (by decide)
  have spelled : SpellsVector (some .octal) _ _ (.bitString .octal "17") := .based (.inr rfl) hexDigits
  have areDigits : ∀ d ∈ ['1', '7'], (digitOrLetter? d).any (· < 8) = true := all_iff_forall_prop.mp (by decide)
  have fits := fun d member => isDigitIn_iff.mpr (areDigits d member)
  exact ⟨spelled, ((vector_literals_keep_value spelled).2 _ _ _ _ _ _ _ _).1 ⟨cons_ne_nil _ _, fits⟩⟩

end RtlBridge.Emission

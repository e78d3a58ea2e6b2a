import RtlBridge.Proofs.Text.Numeral
import RtlBridge.Proofs.Token.Tiling
import RtlBridge.Proofs.Vhdl.Shape

/-! What scanned tokens say: identifiers are legal names, keywords are reserved words, numbers and bit
strings are made of digits. And where they stand: no two of them start at one position. -/

namespace RtlBridge

open List

open Vhdl (isIdentifier isLegalName)

def Lexeme.IsScanned : Lexeme → Prop
  | .identifier spelling => isLegalName spelling = true
  | .keyword word => word ∈ reservedWords
  | .number digits => digits.toList ≠ [] ∧ ∀ d ∈ digits.toList, Text.isDigit d = true
  | .bitString _ digits => ∀ d ∈ digits.toList, d ∈ "0123456789abcdefABCDEF".toList
  | _ => True

/-! ### Characters -/

theorem toNat_lt_of_isHexChar (hex : Piece.isHexChar c = true) : c.toNat < 0x80 := by
  simp only [Piece.isHexChar, Char.isDigit, Char.le_def, UInt32.le_iff_toNat_le, Bool.or_eq_true,
    Bool.and_eq_true, decide_eq_true_eq, ge_iff_le, Char.toNat_val, Char.reduceToNat] at hex
  rcases hex with ((digit | small) | capital) | rfl
  · omega
  · omega
  · omega
  · decide

theorem mem_hexDigits (hex : Piece.isHexChar c = true) (notUnderscore : c ≠ '_') :
    c ∈ "0123456789abcdefABCDEF".toList := by
  have table : ∀ n < 0x80, Piece.isHexChar (Char.ofNat n) = true → Char.ofNat n ≠ '_' →
      Char.ofNat n ∈ "0123456789abcdefABCDEF".toList := by decide +kernel
  rw [← Char.ofNat_toNat c] at hex notUnderscore ⊢
  exact table c.toNat (toNat_lt_of_isHexChar (by rwa [Char.ofNat_toNat] at hex)) hex notUnderscore

/-! ### Tokens -/

theorem number_isScanned (digit : Text.isDigit c = true) (digits : ∀ d ∈ rest, Text.isDigit d = true ∨ d = '_') :
    (Lexeme.number (String.ofList ((c :: rest).filter (· ≠ '_')))).IsScanned := by
  have notUnderscore : c ≠ '_' := by
    rintro rfl
    exact absurd digit (by decide)
  simp only [Lexeme.IsScanned, String.toList_ofList]
  refine ⟨by simp [notUnderscore], fun d member => ?_⟩
  rw [mem_filter] at member
  rcases mem_cons.mp member.1 with rfl | later
  · exact digit
  · rcases digits d later with isDigit | rfl
    · exact isDigit
    · simp at member

theorem Spells.isScanned (spells : Spells slice lexeme) : lexeme.IsScanned := by
  cases spells with
  | keyword _ _ reserved => exact reserved
  | @identifier c rest letter wordChars free =>
    have spelled : isIdentifier (String.ofList (c :: rest)) = true := by simpa [isIdentifier, letter] using wordChars
    simp only [Lexeme.IsScanned, isLegalName, spelled, Bool.true_and, Bool.not_eq_true']
    simpa using free
  | number digit digits => exact number_isScanned digit digits
  | based _ _ =>
    rw [Lexeme.IsScanned, Text.Numeral.toList_toString]
    exact ⟨Nat.toDigits_ne_nil, fun d member => Text.Numeral.isDigit_of_mem_toDigits member⟩
  | bitString _ hexDigits =>
    simp only [Lexeme.IsScanned, String.toList_ofList]
    intro d member
    simp only [mem_filter, ne_eq, decide_not, Bool.not_eq_true', decide_eq_false_iff_not] at member
    exact mem_hexDigits (hexDigits d member.1) member.2
  | character value | string inLine | symbol isSymbol => trivial

/-! ### Token streams -/

namespace Tiles

variable {text : List Char} {last : Bool → Nat → Prop} {afterName : Bool} {position : Nat} {tokens : List Token}

theorem isScanned (tiles : Tiles text last afterName position tokens) : ∀ token ∈ tokens, token.lexeme.IsScanned := by
  induction tiles with
  | nil stops => simp
  | cons _ _ _ _ spells _ _ ih => exact forall_mem_cons.mpr ⟨((spells _).mpr rfl).isScanned, ih⟩

theorem le_start (tiles : Tiles text last afterName position tokens) : ∀ token ∈ tokens, position ≤ token.start := by
  induction tiles with
  | nil stops => simp
  | cons inOrder _ nonempty _ _ _ _ ih =>
    refine forall_mem_cons.mpr ⟨inOrder, fun token member => ?_⟩
    exact inOrder.trans (nonempty.le.trans (ih token member))

theorem distinct (tiles : Tiles text last afterName position tokens) : (tokens.map Token.start).Nodup := by
  induction tiles with
  | nil stops => exact nodup_nil
  | cons _ _ nonempty _ _ _ later ih =>
    refine nodup_cons.mpr ⟨fun again => ?_, ih⟩
    obtain ⟨token, member, same⟩ := mem_map.mp again
    exact absurd (later.le_start token member) (by omega)

end Tiles

theorem tokenize_scanned (ok : tokenize text = .ok stream) :
    (∀ token ∈ stream.tokens, token.lexeme.IsScanned) ∧ (stream.tokens.map Token.start).Nodup ∧
      stream.stop.lexeme = .endOfFile := by
  obtain ⟨last, reaches, rfl⟩ := (tokenize_reaches text).of_ok ok
  exact ⟨reaches.tiles.isScanned, reaches.tiles.distinct, rfl⟩

end RtlBridge

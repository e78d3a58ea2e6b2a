import RtlBridge.Emission.Expr
import RtlBridge.Proofs.Verilog.Evaluation
import RtlBridge.Proofs.Vhdl.Evaluation

/-! Bits and the numbers they stand for. Operations on bits are operations on numbers that forget what does not
fit, so a number that fits is not changed. -/

namespace RtlBridge.Verilog

open Vhdl (wrapped InRange wrapped_eq_iff_inRange inRange_wrapped)

theorem getElem_ofInt (n : Int) (inside : i < width) : (BitVec.ofInt width n)[i] = n.testBit i := by
  cases n with
  | ofNat m => simp [BitVec.getElem_eq_testBit_toNat, Int.testBit, inside]
  | negSucc m =>
    have bits : BitVec.ofInt width (Int.negSucc m) = ~~~BitVec.ofNat width m := BitVec.ofInt_negSucc_eq_not_ofNat
    rw [Int.testBit, bits, BitVec.getElem_not, BitVec.getElem_eq_testBit_toNat]
    simp [inside]

theorem ofInt_land (width : Nat) (a b : Int) :
    BitVec.ofInt width (a.land b) = BitVec.ofInt width a &&& BitVec.ofInt width b := by
  apply BitVec.eq_of_getElem_eq
  intro i inside
  rw [BitVec.getElem_and, getElem_ofInt, getElem_ofInt, getElem_ofInt, Int.testBit_land]

theorem ofInt_lor (width : Nat) (a b : Int) :
    BitVec.ofInt width (a.lor b) = BitVec.ofInt width a ||| BitVec.ofInt width b := by
  apply BitVec.eq_of_getElem_eq
  intro i inside
  rw [BitVec.getElem_or, getElem_ofInt, getElem_ofInt, getElem_ofInt, Int.testBit_lor]

theorem ofInt_xor (width : Nat) (a b : Int) :
    BitVec.ofInt width (a.xor b) = BitVec.ofInt width a ^^^ BitVec.ofInt width b := by
  apply BitVec.eq_of_getElem_eq
  intro i inside
  rw [BitVec.getElem_xor, getElem_ofInt, getElem_ofInt, getElem_ofInt, Int.testBit_lxor]

theorem ofInt_lnot (width : Nat) (a : Int) : BitVec.ofInt width a.lnot = ~~~BitVec.ofInt width a := by
  apply BitVec.eq_of_getElem_eq
  intro i inside
  rw [BitVec.getElem_not, getElem_ofInt, getElem_ofInt, Int.testBit_lnot]

theorem ofInt_sub (width : Nat) (a b : Int) :
    BitVec.ofInt width (a - b) = BitVec.ofInt width a - BitVec.ofInt width b := by
  rw [Int.sub_eq_add_neg, BitVec.ofInt_add, BitVec.ofInt_neg, BitVec.sub_eq_add_neg]

theorem ofInt_wrapped (signed : Bool) (width : Nat) (n : Int) :
    BitVec.ofInt width (wrapped signed (some width) n) = BitVec.ofInt width n := by
  cases signed with
  | false =>
    apply BitVec.eq_of_toNat_eq
    simp [wrapped, BitVec.toNat_ofInt]
  | true =>
    apply BitVec.eq_of_toInt_eq
    simp [wrapped, BitVec.toInt_ofInt]

theorem extendBits_ofNat (signed : Bool) (room : width ≤ wider) (n : Nat) :
    extendBits signed (BitVec.ofNat width n) wider = BitVec.ofInt wider (wrapped signed (some width) n) := by
  cases signed with
  | false =>
    have small : (n : Int) % (2 ^ width : Nat) = (n % 2 ^ width : Nat) := by simp
    simp only [extendBits, wrapped, Int.toNat_natCast, Bool.false_eq_true, if_false, small, BitVec.ofInt_natCast]
    apply BitVec.eq_of_toNat_eq
    simp
  | true =>
    have fits := (inRange_wrapped true width n).mono room
    have kept := wrapped_eq_iff_inRange.mpr fits
    simp only [wrapped, Int.toNat_natCast, if_true] at kept ⊢
    apply BitVec.eq_of_toInt_eq
    rw [extendBits, if_pos rfl, BitVec.toInt_signExtend_of_le room, BitVec.toInt_ofInt, kept, BitVec.toInt_ofNat']

def numberOf (signed : Bool) {width : Nat} (bits : BitVec width) : Int :=
  if signed then bits.toInt else bits.toNat

theorem numberOf_inj {x y : BitVec width} : numberOf signed x = numberOf signed y ↔ x = y := by
  cases signed with
  | false => simp [numberOf, BitVec.toNat_inj]
  | true => simp [numberOf, BitVec.toInt_inj]

theorem numberOf_ofInt (fits : InRange signed width n) : numberOf signed (BitVec.ofInt width n) = n := by
  have kept := wrapped_eq_iff_inRange.mpr fits
  cases signed with
  | false =>
    simp only [wrapped, Int.toNat_natCast, Bool.false_eq_true, if_false] at kept
    have sign := fits.1
    simp only [numberOf, Bool.false_eq_true, if_false, BitVec.toNat_ofInt, kept]
    exact Int.toNat_of_nonneg sign
  | true =>
    simp only [wrapped, Int.toNat_natCast, if_true] at kept
    rw [numberOf, if_pos rfl, BitVec.toInt_ofInt, kept]

theorem compareBits_eq_relates (signed : Bool) (x y : BitVec width) (relational : op.isRelational = true) :
    compareBits signed (Emission.operator op).op.text x y = op.relates (numberOf signed x) (numberOf signed y) := by
  have less : ∀ a b : BitVec width, (if signed then a.slt b else a.ult b) =
      decide (numberOf signed a < numberOf signed b) := by
    intro a b
    cases signed <;> simp [numberOf, BitVec.slt_eq_decide, BitVec.ult_eq_decide]
  cases op with
  | eq =>
    change (x == y) = decide (numberOf signed x = numberOf signed y)
    simp [numberOf_inj, beq_eq_decide]
  | ne =>
    change (x != y) = decide (numberOf signed x ≠ numberOf signed y)
    simp [numberOf_inj, bne, beq_eq_decide]
  | lt => exact less x y
  | gt => exact less y x
  | le =>
    change (!if signed then y.slt x else y.ult x) = decide (numberOf signed x ≤ numberOf signed y)
    rw [less, ← decide_not]
    exact decide_eq_decide.mpr Int.not_lt
  | ge =>
    change (!if signed then x.slt y else x.ult y) = decide (numberOf signed y ≤ numberOf signed x)
    rw [less, ← decide_not]
    exact decide_eq_decide.mpr Int.not_lt
  | _ => cases relational

namespace Tree

variable {scope : Scope} {store : String → Nat} {op : String} (comparison : isComparison op = true) {lhs rhs : Tree}

include comparison

theorem truth_of_comparison (widths : max (lhs.width scope) (rhs.width scope) = common)
    (signs : (lhs.isSigned scope && rhs.isSigned scope) = both) :
    (Tree.binary op lhs rhs).truth scope store =
      compareBits both op (lhs.bits scope store common both) (rhs.bits scope store common both) := by
  subst widths signs
  have one : (Tree.binary op lhs rhs).width scope = 1 := if_pos comparison
  rw [truth, bits, if_pos comparison, one]
  dsimp only
  cases compareBits _ op (lhs.bits scope store _ _) (rhs.bits scope store _ _) with
  | false => rfl
  | true => rfl

theorem bits_of_comparison (size : Nat) (signed : Bool) :
    (Tree.binary op lhs rhs).bits scope store size signed =
      BitVec.ofNat size ((Tree.binary op lhs rhs).truth scope store).toNat := by
  rw [truth_of_comparison comparison rfl rfl, bits, if_pos comparison]

end Tree

end RtlBridge.Verilog

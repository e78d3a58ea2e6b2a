import RtlBridge.Proofs.Emission.Declarations
import RtlBridge.Proofs.Verilog.Bits

/-! The bits of the names and numbers at the leaves of written expressions. -/

namespace RtlBridge.Emission

open Verilog (Tree Scope decimalValue isDigits)
open Vhdl (NameTable InRange Expr)

theorem literalTree_of_isDigits (number : isDigits digits.toList = true) :
    literalTree (.decimal digits) = .number digits := by
  rw [literalTree]
  split
  · rename_i rest spelled
    simp [spelled, isDigits] at number
  · rfl

theorem value?_of_isDigits (number : isDigits digits.toList = true) :
    (Vhdl.Literal.decimal digits).value?.getD 0 = decimalValue digits := by
  rw [Vhdl.Literal.value?, Text.Numeral.decimal?]
  split
  · rename_i rest spelled
    simp [spelled, isDigits] at number
  · rw [decimalValue]
    cases Text.Numeral.read? 10 digits.toList <;> rfl

section Leaves

variable {names : NameTable} {scope : Scope} {store : String → Nat} {size : Nat}

theorem bits_of_name (typed : names.type? spelling = some type) (ranged : scope.dimension spelling = dimension? type)
    (room : scope.width spelling ≤ size) (place : Option Int) (line : Nat) :
    (Tree.name spelling).bits scope store size type.signed =
        BitVec.ofInt size ((Expr.name spelling line).number names store place) ∧
      InRange type.signed size ((Expr.name spelling line).number names store place) := by
  have number : (Expr.name spelling line).number names store place =
      Vhdl.wrapped type.signed (some (scope.width spelling : Int)) (store spelling) := by
    simp only [Expr.number, typed, Option.any_some, Option.map_some, (width_of_dimension ranged).1]
  rw [number, Tree.bits, Verilog.extendBits_ofNat type.signed room]
  exact ⟨rfl, (Vhdl.inRange_wrapped type.signed _ _).mono room⟩

theorem bits_of_number (isNumber : isDigits digits.toList = true) {signed : Bool}
    (fits : InRange signed 32 (decimalValue digits)) (room : 32 ≤ size) (place : Option Int) (line : Nat) :
    (literalTree (.decimal digits)).bits scope store size signed =
        BitVec.ofInt size ((Expr.literal (.decimal digits) line).number names store place) ∧
      InRange signed size ((Expr.literal (.decimal digits) line).number names store place) := by
  have kept : Vhdl.wrapped signed (some ((32 : Nat) : Int)) (decimalValue digits) = _ :=
    Vhdl.wrapped_eq_iff_inRange.mpr fits
  rw [literalTree_of_isDigits isNumber, Tree.bits, Verilog.extendBits_ofNat signed room, kept,
    Expr.number, value?_of_isDigits isNumber]
  exact ⟨rfl, fits.mono room⟩

end Leaves

end RtlBridge.Emission

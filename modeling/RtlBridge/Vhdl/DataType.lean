/-! Types of signals, ports, variables and constants after lowering. -/

namespace RtlBridge.Vhdl

/-- A vector with descending bounds; a vector is never empty. -/
structure VectorType where
  high : Int
  low : Int
  signed : Bool
  ordered : low ≤ high
deriving Repr, DecidableEq

namespace VectorType

def width (vector : VectorType) : Int := vector.high - vector.low + 1

def between (left right : Int) (signed : Bool) : VectorType :=
  ⟨max left right, min left right, signed, Int.le_trans (Int.min_le_left left right) (Int.le_max_left left right)⟩

/-- The vector `high downto low`, unless that range is empty. -/
def ofRange? (high low : Int) (signed : Bool) : Option VectorType :=
  if ordered : low ≤ high then some ⟨high, low, signed, ordered⟩ else none

end VectorType

structure EnumType where
  name : String
  literals : List String
deriving Repr, DecidableEq, Inhabited

namespace EnumType

/-- The least number of bits that tells the literals apart, at least one. -/
def width (enum : EnumType) : Nat :=
  if enum.literals.length ≤ 1 then 1 else (enum.literals.length - 1).log2 + 1

def code (enum : EnumType) (literal : String) : Nat := enum.literals.idxOf literal

end EnumType

inductive DataType where
  | bit
  | vector (shape : VectorType)
  | enum (shape : EnumType)
deriving Repr, DecidableEq

namespace DataType

instance : Inhabited DataType := ⟨.bit⟩

/-- Whole numbers of both signs are 32-bit vectors. -/
def integer : DataType := .vector ⟨31, 0, true, by decide⟩

def natural : DataType := .vector ⟨31, 0, false, by decide⟩

def width : DataType → Int
  | .bit => 1
  | .vector v => v.width
  | .enum e => e.width

def signed : DataType → Bool
  | .vector v => v.signed
  | _ => false

end DataType

end RtlBridge.Vhdl

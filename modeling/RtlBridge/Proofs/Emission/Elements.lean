import RtlBridge.Proofs.Conversion
import RtlBridge.Proofs.Emission.ModuleDeclarations

/-! Which digit of a literal is which element of a vector. Ranges are written with the greater bound on the
left, and literals and subscripts as they are in the source: the elements of a descending range keep their
subscripts, those of an ascending one come in the opposite order. -/

namespace RtlBridge

open List

def Vhdl.Expr.ofInt (line : Nat) : Int → Vhdl.Expr
  | .ofNat n => .literal (.decimal (toString n)) line
  | .negSucc n => .unary .minus (.literal (.decimal (toString (n + 1))) line) line

namespace Emission

open Vhdl (DataType Resolved)

/-- What stands for a binary literal has its digits. -/
def HasDigits (source : Vhdl.Expr) (written : Verilog.Expr) : Prop :=
  ∀ digits line, source = .literal (.binary digits) line → written = .sized digits.length .binary digits

end Emission

end RtlBridge

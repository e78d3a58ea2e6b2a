import RtlBridge.Proofs.Emission.Leaves

/-! Signed comparisons and shifts. Conversions are not written, so an operand is signed in the output if the names
and literals that are left of it are. -/

namespace RtlBridge.Emission

open Verilog (Tree Scope)
open Vhdl (NameTable Expr InRange)

section Signed

variable {names : NameTable} {scope : Scope}
  (ranges : ∀ name vector, names.type? name = some (.vector vector) →
    scope.dimension name = dimension? (.vector vector))

include ranges

end Signed

end RtlBridge.Emission

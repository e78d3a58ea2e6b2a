import RtlBridge.Proofs.Emission.Leaves

/-! The widths of written expressions. Conversions are not written and Verilog sizes operators by rules of its own,
so a part of a concatenation takes up the bits that the source gives it as long as nothing in it relies on a
conversion, on a product or on a number without a width. -/

namespace RtlBridge.Emission

open List

open Verilog (Tree Scope)
open Vhdl (NameTable Expr)

section Widths

variable {names : NameTable} {scope : Scope} {fills : Bool}

end Widths

end RtlBridge.Emission

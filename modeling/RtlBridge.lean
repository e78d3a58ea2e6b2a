import RtlBridge.Main
import RtlBridge.Proofs.Emission.DialectAgreement
import RtlBridge.Proofs.Emission.Elements
import RtlBridge.Proofs.Emission.ExclusiveChoices
import RtlBridge.Proofs.Emission.ModuleScope
import RtlBridge.Proofs.Emission.Signedness
import RtlBridge.Proofs.Emission.Structure
import RtlBridge.Proofs.Emission.UnsignedValues
import RtlBridge.Proofs.Emission.VectorLiterals
import RtlBridge.Proofs.Emission.Widths
import RtlBridge.Proofs.Files.Reports
import RtlBridge.Proofs.Reordering
import RtlBridge.Proofs.Token.BasedLiterals
import RtlBridge.Proofs.Token.Lines
import RtlBridge.Proofs.Vhdl.AccessSets
import RtlBridge.Proofs.Vhdl.DesignRoundTrip
import RtlBridge.Proofs.Vhdl.Layout
import RtlBridge.Proofs.Vhdl.LetterCase
import RtlBridge.Proofs.Vhdl.RangeAttributes
import RtlBridge.Proofs.Vhdl.RangeBounds
import RtlBridge.Proofs.Vhdl.ResetRuns

/-! Runs of code points, the form in which character classes outside ASCII are written down. -/

namespace RtlBridge.Text

/-- First and last code point of a run, both in it. -/
abbrev CodeRange := Nat × Nat

/-- Ascending runs, each told by how far it begins behind the end of the one in front of it and how far it reaches. -/
def CodeRange.ofSteps (behind : Nat) : List Nat → List CodeRange
  | gap :: reach :: rest => (behind + gap, behind + gap + reach) :: ofSteps (behind + gap + reach) rest
  | _ => []

def CodeRange.holds (runs : List CodeRange) (c : Char) : Bool :=
  runs.any fun run => run.1 ≤ c.toNat && c.toNat ≤ run.2

end RtlBridge.Text

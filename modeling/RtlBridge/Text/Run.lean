/-! Runs of one character. The length of a run is asked for as a whole number; a negative one asks for
nothing. It has to be a number that a 64-bit index can hold, in either direction, and the run has to fit
the memory. -/

namespace RtlBridge.Text

inductive RunFault where
  | uncountable
  | outOfMemory
deriving Repr, DecidableEq

def RunFault.message : RunFault → String
  | .uncountable => "cannot fit 'int' into an index-sized integer"
  | .outOfMemory => ""

/-- Whether a signed 64-bit index can hold a number. -/
def isCountable (count : Int) : Bool :=
  decide (-9223372036854775808 ≤ count) && decide (count ≤ 9223372036854775807)

/-- Runs of more characters do not fit the memory. -/
def runLimit : Int := 1073741824

def run (c : Char) (count : Int) : Except RunFault String :=
  if isCountable count then
    if count ≤ runLimit then .ok ("".pushn c count.toNat) else .error .outOfMemory
  else .error .uncountable

theorem toList_pushn (text : String) (c : Char) (n : Nat) :
    (text.pushn c n).toList = text.toList ++ List.replicate n c := by
  induction n with
  | zero => rw [List.replicate_zero, List.append_nil]; rfl
  | succ n ih =>
      rw [List.replicate_succ', ← List.append_assoc, ← ih, ← String.toList_push]
      rfl

theorem toList_of_run {c : Char} {count : Int} {text : String} (ran : run c count = .ok text) :
    text.toList = List.replicate count.toNat c := by
  rw [run] at ran
  split at ran
  · split at ran
    · cases ran
      exact toList_pushn "" c count.toNat
    · cases ran
  · cases ran

end RtlBridge.Text

/-! Functions that need no declaration: clock-edge predicates, conversions and shifts. They are found by
their lower-case names. -/

namespace RtlBridge.Vhdl

inductive Edge where
  | rising
  | falling
deriving Repr, DecidableEq, Inhabited

def Edge.text : Edge → String
  | .rising => "posedge"
  | .falling => "negedge"

inductive Level where
  | low
  | high
deriving Repr, DecidableEq, Inhabited

def Level.digit : Level → String
  | .low => "0"
  | .high => "1"

namespace Builtin

def edge? (name : String) : Option Edge :=
  if name = "rising_edge" then some .rising
  else if name = "falling_edge" then some .falling
  else none

/-- Whether the result of a conversion is signed; `keep` is as signed as the argument. -/
inductive Signedness where
  | unsigned
  | signed
  | keep
deriving Repr, DecidableEq

/-- Conversions of one argument that keep its bits. -/
def conversion? (name : String) : Option Signedness :=
  if name = "std_logic_vector" then some .unsigned
  else if name = "std_ulogic_vector" then some .unsigned
  else if name = "unsigned" then some .unsigned
  else if name = "signed" then some .signed
  else if name = "to_integer" then some .keep
  else if name = "conv_integer" then some .keep
  else if name = "to_stdlogicvector" then some .unsigned
  else none

/-- Conversions to a number of bits that the second argument gives. -/
def sizedConversion? (name : String) : Option Signedness :=
  if name = "to_unsigned" then some .unsigned
  else if name = "to_signed" then some .signed
  else if name = "resize" then some .keep
  else if name = "conv_std_logic_vector" then some .unsigned
  else none

/-- Conversions to a plain number, which has no width. -/
def isToInteger (name : String) : Bool :=
  name = "to_integer" || name = "conv_integer"

inductive Shift where
  | left
  | right
deriving Repr, DecidableEq

def shift? (name : String) : Option Shift :=
  if name = "shift_left" then some .left
  else if name = "shift_right" then some .right
  else none

/-- How many arguments a function takes; none for a name that is no function. -/
def arity? (name : String) : Option Nat :=
  if (sizedConversion? name).isSome || (shift? name).isSome then some 2
  else if (edge? name).isSome || (conversion? name).isSome then some 1
  else none

end Builtin

end RtlBridge.Vhdl

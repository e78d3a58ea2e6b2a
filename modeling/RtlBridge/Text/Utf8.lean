/-! Strict decoding of UTF-8 files, with the place and the kind of the first fault. -/

namespace RtlBridge.Text.Utf8

inductive Reason where
  | invalidStart
  | invalidContinuation
  | unexpectedEnd
deriving Repr, DecidableEq

def Reason.text : Reason → String
  | .invalidStart => "invalid start byte"
  | .invalidContinuation => "invalid continuation byte"
  | .unexpectedEnd => "unexpected end of data"

/-- The bytes from `start` on, `count` of them, that are no character; `first` is their first. -/
structure DecodeFault where
  start : Nat
  count : Nat
  first : UInt8
  reason : Reason
deriving Repr, DecidableEq

def hexByte (b : UInt8) : String :=
  String.ofList [Nat.digitChar (b.toNat / 16), Nat.digitChar (b.toNat % 16)]

def DecodeFault.message (fault : DecodeFault) : String :=
  let place :=
    if fault.count = 1 then s!"byte 0x{hexByte fault.first} in position {fault.start}"
    else s!"bytes in position {fault.start}-{fault.start + fault.count - 1}"
  s!"'utf-8' codec can't decode {place}: {fault.reason.text}"

/-- How many continuation bytes follow a leading byte, and the range of the first of them. -/
def continuation? (b : UInt8) : Option (Nat × UInt8 × UInt8) :=
  if b < 0x80 then some (0, 0x80, 0xBF)
  else if b < 0xC2 then none
  else if b < 0xE0 then some (1, 0x80, 0xBF)
  else if b = 0xE0 then some (2, 0xA0, 0xBF)
  else if b = 0xED then some (2, 0x80, 0x9F)
  else if b < 0xF0 then some (2, 0x80, 0xBF)
  else if b = 0xF0 then some (3, 0x90, 0xBF)
  else if b = 0xF4 then some (3, 0x80, 0x8F)
  else if b < 0xF4 then some (3, 0x80, 0xBF)
  else none

/-- How many of the next `count` bytes are continuation bytes, the first of them in its range. -/
def continuationRun (low high : UInt8) : Nat → List UInt8 → Nat
  | 0, _ => 0
  | _ + 1, [] => 0
  | count + 1, b :: rest =>
      if low ≤ b && b ≤ high then continuationRun 0x80 0xBF count rest + 1 else 0

def firstFault? (position : Nat) : List UInt8 → Option DecodeFault
  | [] => none
  | b :: rest =>
      match continuation? b with
      | none => some ⟨position, 1, b, .invalidStart⟩
      | some (count, low, high) =>
          let good := continuationRun low high count rest
          if good = count then firstFault? (position + count + 1) (rest.drop count)
          else if rest.length = good then some ⟨position, good + 1, b, .unexpectedEnd⟩
          else some ⟨position, good + 1, b, .invalidContinuation⟩
termination_by bytes => bytes.length
decreasing_by simp only [List.length_drop, List.length_cons]; omega

/-- The text of a file; only whole, shortest-form sequences are characters. -/
def decode (bytes : ByteArray) : Except DecodeFault String :=
  match String.fromUTF8? bytes with
  | some text => .ok text
  | none => .error ((firstFault? 0 bytes.toList).getD ⟨0, 1, 0, .invalidStart⟩)

end RtlBridge.Text.Utf8

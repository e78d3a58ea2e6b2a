import RtlBridge.Text.Blank
import RtlBridge.Text.DecimalDigit

/-! Reading whole numbers: digits in a base, decimal digits of any script, and numbers as people type
them into settings. -/

namespace RtlBridge.Text.Numeral

/-- The value of a digit or of an ASCII letter from ten on. -/
def digitOrLetter? (c : Char) : Option Nat :=
  if c.isLower then some (c.toNat - 'a'.toNat + 10)
  else if c.isUpper then some (c.toNat - 'A'.toNat + 10)
  else digitValue? c

/-- The number written after `high`, if all the characters are digits in the base. -/
def readFrom (base high : Nat) : List Char → Option Nat
  | [] => some high
  | c :: rest =>
      match digitOrLetter? c with
      | some d => if d < base then readFrom base (high * base + d) rest else none
      | none => none

def read? (base : Nat) (digits : List Char) : Option Nat :=
  if digits.isEmpty then none else readFrom base 0 digits

def afterBinaryMark? : List Char → Option (List Char)
  | '0' :: 'b' :: rest => some rest
  | '0' :: 'B' :: rest => some rest
  | _ => none

/-- Reads digits in a base from 2 to 36, where a binary number may carry its mark. Base 0 leaves the
base to the digits: binary with the mark, else decimal without leading zeros. -/
def readBased? (base : Nat) (digits : List Char) : Option Nat :=
  if base = 0 then
    match afterBinaryMark? digits with
    | some rest => read? 2 rest
    | none =>
        if digits.head? = some '0' then
          if digits.all (· = '0') then some 0 else none
        else read? 10 digits
  else if base = 2 then read? 2 ((afterBinaryMark? digits).getD digits)
  else if 2 < base && base ≤ 36 then read? base digits
  else none

/-- The decimal number that a text writes, with an optional minus sign. -/
def decimal? (text : String) : Option Int :=
  match text.toList with
  | '-' :: digits => (read? 10 digits).map fun n => -(n : Int)
  | digits => (read? 10 digits).map Int.ofNat

/-- Digits in which single underscores may stand between two digits. -/
def readGrouped (high : Nat) : List Char → Option Nat
  | [] => some high
  | '_' :: c :: rest =>
      match digitValue? c with
      | some d => readGrouped (high * 10 + d) rest
      | none => none
  | c :: rest =>
      match digitValue? c with
      | some d => readGrouped (high * 10 + d) rest
      | none => none

def grouped? : List Char → Option Nat
  | c :: rest =>
      match digitValue? c with
      | some d => readGrouped d rest
      | none => none
  | [] => none

/-- White space around a number; the four separator controls do not count. -/
def isPadding (c : Char) : Bool :=
  isBlank c && !(28 ≤ c.toNat && c.toNat ≤ 31)

/-- A number as typed into a setting: white space around it, one sign, underscores between digits. -/
def setting? (text : String) : Option Int :=
  let chars := ((text.toList.dropWhile isPadding).reverse.dropWhile isPadding).reverse
  match chars with
  | '-' :: digits => (grouped? digits).map fun n => -(n : Int)
  | '+' :: digits => (grouped? digits).map Int.ofNat
  | digits => (grouped? digits).map Int.ofNat

end RtlBridge.Text.Numeral

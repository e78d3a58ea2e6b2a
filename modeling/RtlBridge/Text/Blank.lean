/-! White space and line breaks, in the wide sense of plain text tools: any script's spaces and every
control that ends a line. -/

namespace RtlBridge.Text

/-- White space: the ASCII blanks, the four separator controls, and the spaces of all scripts. -/
def isBlank (c : Char) : Bool :=
  let n := c.toNat
  (9 ≤ n && n ≤ 13) || (28 ≤ n && n ≤ 32) || n == 0x85 || n == 0xA0 || n == 0x1680 ||
  (0x2000 ≤ n && n ≤ 0x200A) || n == 0x2028 || n == 0x2029 || n == 0x202F || n == 0x205F ||
  n == 0x3000

/-- A character that ends a line; a carriage return and a following line feed end one line. -/
def isLineBreak (c : Char) : Bool :=
  let n := c.toNat
  (10 ≤ n && n ≤ 13) || (28 ≤ n && n ≤ 30) || n == 0x85 || n == 0x2028 || n == 0x2029

/-- The lines after `current`, the reversed start of an open line. -/
def linesFrom (current : List Char) : List Char → List (List Char)
  | [] => if current.isEmpty then [] else [current.reverse]
  | '\r' :: '\n' :: rest => current.reverse :: linesFrom [] rest
  | c :: rest =>
      if isLineBreak c then current.reverse :: linesFrom [] rest
      else linesFrom (c :: current) rest

def lines (text : String) : List String :=
  (linesFrom [] text.toList).map String.ofList

def trim (text : String) : String :=
  String.ofList ((text.toList.dropWhile isBlank).reverse.dropWhile isBlank).reverse

/-- Turns each carriage return, with the line feed that may follow it, into a line feed; `done` is
the reversed text so far. -/
def unifyLineEndsOnto (done : List Char) : List Char → List Char
  | [] => done.reverse
  | '\r' :: '\n' :: rest => unifyLineEndsOnto ('\n' :: done) rest
  | c :: rest => unifyLineEndsOnto ((if c = '\r' then '\n' else c) :: done) rest

def unifyLineEnds (text : List Char) : List Char :=
  unifyLineEndsOnto [] text

end RtlBridge.Text

import RtlBridge.Verilog.Expr

/-! Reading Verilog expressions: characters become tokens by the longest match, and tokens become a tree by
the precedence of the operators. All binary operators group to the left, and `? :` to the right.

The trees have no parentheses. A reader is told a bound that is at least the number of tokens ahead, as every
recursive call follows a token that has been passed.
-/

namespace RtlBridge.Verilog

/-- Tokens. Numbers are kept as written; reserved words are words. -/
inductive Lexeme where
  | word (text : String)
  | number (digits : String)
  | based (size : String) (base : Char) (digits : String)
  | fill (bit : Char)
  | symbol (text : String)
deriving Repr, DecidableEq

namespace Lexeme

def isWordStart (c : Char) : Bool := c.isAlpha || c = '_'

def isWordChar (c : Char) : Bool := c.isAlphanum || c = '_' || c = '$'

def isNumberChar (c : Char) : Bool := c.isDigit || c = '_'

def isBaseLetter (c : Char) : Bool := ['b', 'o', 'd', 'h', 'B', 'O', 'D', 'H'].contains c

/-- Digits of all bases; `x`, `z` and `?` stand for bits that have no level. -/
def isBasedDigit (c : Char) : Bool :=
  c.isDigit || ('a' ≤ c && c ≤ 'f') || ('A' ≤ c && c ≤ 'F') || ['x', 'X', 'z', 'Z', '?', '_'].contains c

def isFillBit (c : Char) : Bool := ['0', '1', 'x', 'X', 'z', 'Z'].contains c

/-- A number whose first digits have been read: the size of a based number if a base follows. -/
def numeral (digits : List Char) : List Char → Lexeme × List Char
  | '\x27' :: base :: rest =>
    if isBaseLetter base && (rest.head?.any isBasedDigit) then
      (.based (String.ofList digits) base (String.ofList (rest.takeWhile isBasedDigit)), rest.dropWhile isBasedDigit)
    else (.number (String.ofList digits), '\x27' :: base :: rest)
  | rest => (.number (String.ofList digits), rest)

/-- The symbols of expressions, and those that open a comment or an attribute. Where one is the start of
another, the longer one comes first. -/
def symbols : List String := [
  "<<<", ">>>", "===", "!==", "==?", "!=?", "<->",
  "**", "++", "--", "->", "+:", "-:", "+=", "-=", "::", "<<", ">>", "<=", ">=", "==", "!=", "&&", "||",
  "~&", "~|", "~^", "^~", "//", "/*", "(*",
  "(", ")", "[", "]", "\x7b", "\x7d", ",", ":", "?", "+", "-", "*", "/", "%", "<", ">", "&", "|",
  "^", "~", "!"]

def symbol? (text : List Char) : Option (Lexeme × List Char) :=
  (symbols.find? fun s => s.toList.isPrefixOf text).map fun s => (.symbol s, text.drop s.toList.length)

/-- The token at the start of a text that begins with `c`, or none for a blank, and what follows. -/
def next? (c : Char) (rest : List Char) : Option (Option Lexeme × List Char) :=
  if c = ' ' then some (none, rest)
  else if isWordStart c then
    some (some (.word (String.ofList (c :: rest.takeWhile isWordChar))), rest.dropWhile isWordChar)
  else if c.isDigit then
    let (lexeme, after) := numeral (c :: rest.takeWhile isNumberChar) (rest.dropWhile isNumberChar)
    some (some lexeme, after)
  else if c = '\x27' then
    match rest with
    | bit :: after => if isFillBit bit then some (some (.fill bit), after) else none
    | [] => none
  else (symbol? (c :: rest)).map fun (lexeme, after) => (some lexeme, after)

end Lexeme

def lex : List Char → Option (List Lexeme)
  | [] => some []
  | c :: rest =>
    match Lexeme.next? c rest with
    | some (lexeme, after) =>
      if after.length ≤ rest.length then (lex after).map (lexeme.toList ++ ·) else none
    | none => none
termination_by text => text.length

/-- Expressions by structure, with operators as they are written. -/
inductive Tree where
  | name (text : String)
  | number (digits : String)
  | based (size : String) (base : Char) (digits : String)
  | fill (bit : Char)
  | unary (op : String) (operand : Tree)
  | binary (op : String) (lhs rhs : Tree)
  | concat (parts : List Tree)
  | replicate (count : Tree) (parts : List Tree)
  | index (base subscript : Tree)
  | slice (base left right : Tree)
  | choose (condition yes no : Tree)
deriving Repr

/-- A reader takes tokens from the front and yields what is left of them. -/
abbrev Reader (α : Type) := List Lexeme → Option (α × List Lexeme)

namespace Reader

/-- Operators in front of an operand; they bind tighter than all others. -/
def isSign (op : String) : Bool := ["+", "-", "!", "~", "&", "|", "^", "~&", "~|", "~^", "^~"].contains op

/-- The rank of an operator between two operands; a lower rank binds tighter. -/
def rank? : String → Option Nat
  | "**" => some 1
  | "*" | "/" | "%" => some 2
  | "+" | "-" => some 3
  | "<<" | ">>" | "<<<" | ">>>" => some 4
  | "<" | "<=" | ">" | ">=" => some 5
  | "==" | "!=" | "===" | "!==" | "==?" | "!=?" => some 6
  | "&" => some 7
  | "^" | "~^" | "^~" => some 8
  | "|" => some 9
  | "&&" => some 10
  | "||" => some 11
  | _ => none

def skip (text : String) : List Lexeme → Option (List Lexeme)
  | .symbol found :: rest => if found = text then some rest else none
  | _ => none

/-- Passes an operator of the given rank, if it is the first token. -/
def operator? (rank : Nat) : List Lexeme → Option (String × List Lexeme)
  | .symbol op :: rest => if rank? op = some rank then some (op, rest) else none
  | _ => none

def chain (rank : Nat) (operand : Reader Tree) : Nat → Tree → Reader Tree
  | 0, lhs, ahead => some (lhs, ahead)
  | bound + 1, lhs, ahead =>
    match operator? rank ahead with
    | some (op, rest) => (operand rest).bind fun (rhs, rest) => chain rank operand bound (.binary op lhs rhs) rest
    | none => some (lhs, ahead)

/-- Operands with operators of at most the given rank between them. -/
def operations (bound : Nat) (term : Reader Tree) : Nat → Reader Tree
  | 0, ahead => term ahead
  | rank + 1, ahead =>
    (operations bound term rank ahead).bind fun (lhs, rest) =>
      chain (rank + 1) (operations bound term rank) bound lhs rest

def loosest : Nat := 11

def conditional (term : Reader Tree) : Nat → Reader Tree
  | 0, _ => none
  | bound + 1, ahead =>
    (operations (bound + 1) term loosest ahead).bind fun (condition, rest) =>
      match skip "?" rest with
      | some rest =>
        (conditional term bound rest).bind fun (yes, rest) =>
          (skip ":" rest).bind fun rest =>
            (conditional term bound rest).bind fun (no, rest) => some (.choose condition yes no, rest)
      | none => some (condition, rest)

def selects (expression : Reader Tree) : Nat → Tree → Reader Tree
  | 0, base, ahead => some (base, ahead)
  | bound + 1, base, ahead =>
    match skip "[" ahead with
    | some rest =>
      (expression rest).bind fun (first, rest) =>
        match skip ":" rest with
        | some rest =>
          (expression rest).bind fun (second, rest) =>
            (skip "]" rest).bind fun rest => selects expression bound (.slice base first second) rest
        | none => (skip "]" rest).bind fun rest => selects expression bound (.index base first) rest
    | none => some (base, ahead)

def items (expression : Reader Tree) : Nat → Reader (List Tree)
  | 0, _ => none
  | bound + 1, ahead =>
    (expression ahead).bind fun (first, rest) =>
      match skip "," rest with
      | some rest => (items expression bound rest).bind fun (others, rest) => some (first :: others, rest)
      | none => some ([first], rest)

/-- What follows an opening brace: a replication if a second brace follows the first expression. -/
def braced (expression : Reader Tree) (bound : Nat) (ahead : List Lexeme) : Option (Tree × List Lexeme) :=
  (expression ahead).bind fun (count, rest) =>
    match skip "\x7b" rest with
    | some rest =>
      (items expression bound rest).bind fun (parts, rest) =>
        (skip "\x7d" rest).bind fun rest => (skip "\x7d" rest).bind fun rest => some (.replicate count parts, rest)
    | none =>
      (items expression bound ahead).bind fun (parts, rest) =>
        (skip "\x7d" rest).bind fun rest => some (.concat parts, rest)

def primary (expression : Reader Tree) (bound : Nat) : Reader Tree
  | .word text :: rest => selects expression bound (.name text) rest
  | .number digits :: rest => some (.number digits, rest)
  | .based size base digits :: rest => some (.based size base digits, rest)
  | .fill bit :: rest => some (.fill bit, rest)
  | .symbol text :: rest =>
    if text = "(" then
      (expression rest).bind fun (inner, rest) => (skip ")" rest).bind fun rest => some (inner, rest)
    else if text = "\x7b" then braced expression bound rest
    else none
  | [] => none

def sign? : List Lexeme → Option (String × List Lexeme)
  | .symbol op :: rest => if isSign op then some (op, rest) else none
  | _ => none

def term : Nat → Reader Tree
  | 0, _ => none
  | bound + 1, ahead =>
    match sign? ahead with
    | some (op, rest) => (term bound rest).map fun (operand, rest) => (.unary op operand, rest)
    | none => primary (conditional (term bound) bound) bound ahead

def expression (bound : Nat) : Reader Tree := conditional (term bound) bound

end Reader

def read (text : List Char) : Option Tree :=
  (lex text).bind fun lexemes =>
    (Reader.expression lexemes.length lexemes).bind fun (tree, rest) =>
      if rest.isEmpty then some tree else none

end RtlBridge.Verilog

import RtlBridge.Fault
import RtlBridge.Text.LetterCase
import RtlBridge.Text.Numeral

/-! Cutting a source text into tokens.

The text is a sequence of pieces, each a token or a stretch of layout (`Piece`); every piece is
non-empty, and together they are the text. A tick right after an identifier or a closing parenthesis
is the attribute tick; elsewhere it opens a character literal if one fits there.
-/

namespace RtlBridge

/-- A stretch of source text and the token it is; layout is none. -/
structure Piece where
  text : List Char
  lexeme : Option Lexeme
deriving Repr, DecidableEq

namespace Piece

def isBlank (c : Char) : Bool :=
  c = ' ' || c = '\t' || c = '\r' || c = '\x0b' || c = '\x0c'

def isWordChar (c : Char) : Bool := c.isAlphanum || c = '_'

/-- A digit of a based or bit-string literal, or an underscore between such digits. -/
def isHexChar (c : Char) : Bool :=
  c.isDigit || ('a' ≤ c && c ≤ 'f') || ('A' ≤ c && c ≤ 'F') || c = '_'

def withoutUnderscores (text : List Char) : List Char := text.filter (· ≠ '_')

/-- A word is a reserved word in any letter case, else an identifier. -/
def word (text : List Char) : Piece :=
  let spelling := String.ofList text
  let lowered := Text.lower spelling
  ⟨text, some (if reservedWords.contains lowered then .keyword lowered else .identifier spelling)⟩

def number (text : List Char) : Piece :=
  ⟨text, some (.number (String.ofList (withoutUnderscores text)))⟩

def symbol (text : List Char) : Piece :=
  ⟨text, some (.symbol (String.ofList text))⟩

/-- Splits a text after its longest start of characters that satisfy the test. -/
def split (test : Char → Bool) (text : List Char) : List Char × List Char :=
  (text.takeWhile test, text.dropWhile test)

/-- The literal `base#digits#` at the start of the text, where the base has been read. -/
def based? (base : List Char) : List Char → Option (Except SyntaxFault Piece × List Char)
  | '#' :: rest =>
      let (digits, after) := split isHexChar rest
      match digits, after with
      | _ :: _, '#' :: rest =>
          let text := base ++ '#' :: digits ++ ['#']
          let value := (Text.Numeral.read? 10 base).bind fun base =>
            Text.Numeral.readBased? base (withoutUnderscores digits)
          match value with
          | some n => some (.ok ⟨text, some (.number (toString n))⟩, rest)
          | none => some (.error (.invalidBasedLiteral (String.ofList text)), rest)
      | _, _ => none
  | _ => none

def bitBase? (c : Char) : Option BitBase :=
  if c = 'x' || c = 'X' then some .hex
  else if c = 'b' || c = 'B' then some .binary
  else if c = 'o' || c = 'O' then some .octal
  else none

def bitString? (c : Char) : List Char → Option (Piece × List Char)
  | '\x22' :: rest =>
      match bitBase? c, split isHexChar rest with
      | some base, (digits, '\x22' :: rest) =>
          some (⟨c :: '\x22' :: digits ++ ['\x22'],
            some (.bitString base (String.ofList (withoutUnderscores digits)))⟩, rest)
      | _, _ => none
  | _ => none

def symbol? (text : List Char) : Option (Piece × List Char) :=
  (symbols.find? fun s => s.toList.isPrefixOf text).map fun s =>
    (symbol s.toList, text.drop s.length)

/-- The first piece of a text that starts with `c`, and what follows it. -/
def next (afterName : Bool) (c : Char) (rest : List Char) :
    Except SyntaxFault (Piece × List Char) :=
  if c = '\x27' then
    match afterName, rest with
    | false, value :: '\x27' :: after =>
        .ok (⟨[c, value, '\x27'], some (.character value)⟩, after)
    | _, _ => .ok (symbol [c], rest)
  else if isBlank c then
    let (blanks, after) := split isBlank rest
    .ok (⟨c :: blanks, none⟩, after)
  else if c = '\n' then .ok (⟨[c], none⟩, rest)
  else if c = '-' && rest.head? = some '-' then
    let (comment, after) := split (· ≠ '\n') rest
    .ok (⟨c :: comment, none⟩, after)
  else if Text.isDigit c then
    let (digits, after) := split Text.isDigit rest
    match based? (c :: digits) after with
    | some (.ok piece, after) => .ok (piece, after)
    | some (.error fault, _) => .error fault
    | none =>
        let (digits, after) := split (fun c => Text.isDigit c || c = '_') rest
        .ok (number (c :: digits), after)
  else if c.isAlpha then
    match bitString? c rest with
    | some (piece, after) => .ok (piece, after)
    | none =>
        let (letters, after) := split isWordChar rest
        .ok (word (c :: letters), after)
  else if c = '\x22' then
    match split (fun c => c ≠ '\x22' && c ≠ '\n') rest with
    | (value, '\x22' :: after) =>
        .ok (⟨c :: value ++ ['\x22'], some (.string (String.ofList value))⟩, after)
    | _ => .error (.unexpectedCharacter c)
  else
    match symbol? (c :: rest) with
    | some (piece, after) => .ok (piece, after)
    | none => .error (.unexpectedCharacter c)

end Piece

/-- Where the scanner stands: the tokens so far, the latest first, and the line and the position of
the next character. -/
structure Scanner where
  done : List Token
  line : Nat
  position : Nat

namespace Scanner

/-- Whether a tick here is an attribute tick. -/
def afterName (scanner : Scanner) : Bool :=
  match scanner.done with
  | token :: _ => token.isIdentifier || token.isSymbol ")"
  | [] => false

/-- Moves over a piece. Only a line feed outside a token starts a new line. -/
def pass (scanner : Scanner) (piece : Piece) : Scanner :=
  let stop := scanner.position + piece.text.length
  { done := match piece.lexeme with
      | some lexeme => ⟨lexeme, scanner.line, scanner.position, stop⟩ :: scanner.done
      | none => scanner.done
    line := if piece.text = ['\n'] then scanner.line + 1 else scanner.line
    position := stop }

def finish (scanner : Scanner) : TokenStream :=
  ⟨scanner.done.reverse, ⟨.endOfFile, scanner.line, scanner.position, scanner.position⟩⟩

def run : Nat → Scanner → List Char → Except Fault TokenStream
  | 0, scanner, _ => .ok scanner.finish
  | _ + 1, scanner, [] => .ok scanner.finish
  | bound + 1, scanner, c :: rest =>
      match Piece.next scanner.afterName c rest with
      | .ok (piece, after) => run bound (scanner.pass piece) after
      | .error fault => .error (.malformed scanner.line fault)

end Scanner

def tokenize (text : List Char) : Except Fault TokenStream :=
  Scanner.run text.length ⟨[], 1, 0⟩ text

end RtlBridge

import RtlBridge.Traced

/-! Parsers over tokens: a parser moves a cursor over the tokens ahead, leaves notes, and may fail. The
end-of-file token is never passed. -/

namespace RtlBridge.Vhdl

/-- The tokens still ahead, the end-of-file token, and the text they were cut from. -/
structure Cursor where
  ahead : List Token
  stop : Token
  source : List Char

namespace Cursor

def head (cursor : Cursor) : Token :=
  match cursor.ahead with
  | token :: _ => token
  | [] => cursor.stop

def second (cursor : Cursor) : Token :=
  match cursor.ahead with
  | _ :: token :: _ => token
  | _ => cursor.stop

def tail (cursor : Cursor) : Cursor := { cursor with ahead := cursor.ahead.tail }

/-- The source text from the start of one token to the end of another. -/
def textOf (cursor : Cursor) (first last : Token) : String :=
  String.ofList ((cursor.source.drop first.start).take (last.stop - first.start))

def ofStream (source : List Char) (stream : TokenStream) : Cursor :=
  ⟨stream.tokens, stream.stop, source⟩

end Cursor

abbrev Parser := StateT Cursor (Traced Fault)

namespace Parser

variable {α : Type}

def peek : Parser Token := fun cursor => pure (cursor.head, cursor)

def peekSecond : Parser Token := fun cursor => pure (cursor.second, cursor)

def advance : Parser Token := fun cursor => pure (cursor.head, cursor.tail)

def note (n : Note) : Parser Unit := fun cursor => do
  Traced.note n
  return ((), cursor)

def failAt (line : Nat) (fault : SyntaxFault) : Parser α := throw (.malformed line fault)

def fail (fault : SyntaxFault) : Parser α := do
  failAt (← peek).line fault

def refuse (line : Nat) (construct : Construct) : Parser α := throw (.unsupported line construct)

/-- Passes the symbol if it is at the cursor, and tells whether it was. -/
def acceptSymbol (text : String) : Parser Bool := do
  if (← peek).isSymbol text then
    let _ ← advance
    return true
  else return false

def acceptKeyword (word : String) : Parser Bool := do
  if (← peek).isKeyword word then
    let _ ← advance
    return true
  else return false

def expectSymbol (text : String) : Parser Token := do
  let token ← peek
  if token.isSymbol text then advance else fail (.expected text token.lexeme)

def expectKeyword (word : String) : Parser Token := do
  let token ← peek
  if token.isKeyword word then advance else fail (.expected word token.lexeme)

def expectIdentifier : Parser (String × Nat) := do
  let token ← peek
  match token.lexeme with
  | .identifier spelling => do
      let _ ← advance
      return (spelling, token.line)
  | found => fail (.expectedIdentifier found)

/-- Passes an identifier if there is one, such as a label that is repeated at the end. -/
def skipIdentifier : Parser Unit := do
  if (← peek).isIdentifier then
    let _ ← advance

/-- Items each led in by the symbol, as long as it goes on; `bound` is at least the number of tokens
ahead. -/
def listAfter (symbol : String) (item : Parser α) (bound : Nat) : Parser (List α) :=
  match bound with
  | 0 => return []
  | bound + 1 => do
      if ← acceptSymbol symbol then
        let first ← item
        let rest ← listAfter symbol item bound
        return first :: rest
      else return []

def separated (symbol : String) (item : Parser α) (bound : Nat) : Parser (List α) := do
  let first ← item
  let rest ← listAfter symbol item bound
  return first :: rest

def identifiers (bound : Nat) : Parser (List (String × Nat)) :=
  separated "," expectIdentifier bound

/-- Drops the tokens in front of the next semicolon or of the end of the file. -/
def dropToSemicolon : Parser Unit := modify fun cursor =>
  { cursor with ahead := cursor.ahead.dropWhile fun token => !token.isSymbol ";" }

def skipClause : Parser Unit := do
  dropToSemicolon
  if (← peek).isEnd then fail .unendedClause
  let _ ← advance

def skipDelay : Parser Unit := do
  let token ← peek
  if token.isKeyword "after" then
    note (.delayDropped token.line)
    dropToSemicolon

end Parser

end RtlBridge.Vhdl

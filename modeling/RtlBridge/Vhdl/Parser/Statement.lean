import RtlBridge.Vhdl.Parser.Expression

/-! Parsing sequential statements. Statements outside the subset are passed over as a whole and kept as
text. -/

namespace RtlBridge.Vhdl.Parser

/-- The tokens up to the semicolon that ends a statement, one outside all parentheses opened since
its start: that semicolon and what follows it. -/
def afterStatement? (depth : Int) : List Token → Option (Token × List Token)
  | [] => none
  | token :: rest =>
      if token.isSymbol "(" then afterStatement? (depth + 1) rest
      else if token.isSymbol ")" then afterStatement? (depth - 1) rest
      else if token.isSymbol ";" && depth ≤ 0 then some (token, rest)
      else afterStatement? depth rest

def captureStatement (kind : CapturedKind) (first : Token) : Parser Captured := do
  let cursor ← get
  match afterStatement? 0 cursor.ahead with
  | some (last, rest) => do
      set { cursor with ahead := rest }
      note (.statementKept kind.text first.line)
      return ⟨kind, cursor.textOf first last, first.line⟩
  | none => failAt first.line (.unterminated kind.text .noSemicolon)

/-- What follows the `end loop` that closes the outermost loop. -/
def afterLoop? (depth : Int) : List Token → Option (List Token)
  | [] => none
  | token :: rest =>
      if token.isKeyword "end" then
        match rest with
        | next :: rest =>
            if next.isKeyword "loop" then
              if depth - 1 = 0 then some rest else afterLoop? (depth - 1) rest
            else afterLoop? depth (next :: rest)
        | [] => none
      else if token.isKeyword "loop" then afterLoop? (depth + 1) rest
      else afterLoop? depth rest

def captureLoop (first : Token) : Parser Captured := do
  let cursor ← get
  match afterLoop? 0 cursor.ahead with
  | some rest => do
      set { cursor with ahead := rest }
      skipIdentifier
      let last ← expectSymbol ";"
      note (.statementKept "loop" first.line)
      return ⟨.loop, cursor.textOf first last, first.line⟩
  | none => failAt first.line (.unterminated "loop" .noEndLoop)

/-- The statements that are kept as text up to their semicolon, by their first word. -/
def capturedKind? : Lexeme → Option CapturedKind
  | .keyword "wait" => some .wait
  | .keyword "assert" => some .assertion
  | .keyword "report" => some .report
  | .keyword "exit" => some .exit
  | .keyword "next" => some .next
  | .keyword "return" => some .return
  | _ => none

/-- Passes a label and its colon, if they are at the cursor; yields the label. -/
def acceptLabel : Parser (Option String) := do
  match (← peek).lexeme with
  | .identifier label => do
      if (← peekSecond).isSymbol ":" then
        let _ ← advance
        let _ ← advance
        return some label
      else return none
  | _ => return none

/-- Parses statements up to one of the closing words, for the construct opened at a line. -/
abbrev BodyParser := (closing : List String) → (construct : String) → (opened : Nat) →
  Parser (List Stmt)

def assignment (bound : Nat) : Parser Stmt := do
  let token ← peek
  let target ← target bound
  let immediate ← do
    if ← acceptSymbol "<=" then pure false
    else if ← acceptSymbol ":=" then pure true
    else do
      let found ← peek
      fail (.noAssignmentSymbol token.lexeme.text found.lexeme)
  let value ← expression bound
  skipDelay
  let _ ← expectSymbol ";"
  return .assign target value immediate token.line

def conditionedBranch (bound : Nat) (body : BodyParser) (opened : Nat) :
    Parser (Expr × List Stmt) := do
  let condition ← expression bound
  let _ ← expectKeyword "then"
  let statements ← body ["elsif", "else", "end"] "if" opened
  return (condition, statements)

def elsifBranches (body : BodyParser) (opened : Nat) (bound : Nat) :
    Parser (List (Expr × List Stmt)) :=
  match bound with
  | 0 => return []
  | bound + 1 => do
      if ← acceptKeyword "elsif" then
        let first ← conditionedBranch bound body opened
        let rest ← elsifBranches body opened bound
        return first :: rest
      else return []

def expectEndOf (construct : String) (opened : Nat) : Parser Unit := do
  let _ ← expectKeyword "end"
  if !(← acceptKeyword construct) then
    let found ← peek
    failAt opened (.unterminated construct (.otherEnd found.lexeme.text construct))

def ifStatement (bound : Nat) (body : BodyParser) : Parser Stmt := do
  let opened := (← expectKeyword "if").line
  let first ← conditionedBranch bound body opened
  let rest ← elsifBranches body opened bound
  let otherwise ← do
    if ← acceptKeyword "else" then body ["end"] "if" opened else pure []
  expectEndOf "if" opened
  let _ ← expectSymbol ";"
  return .conditional (first :: rest) otherwise opened

def choice (bound : Nat) : Parser Expr := do
  let value ← expression bound
  let token ← peek
  if token.isKeyword "to" || token.isKeyword "downto" then refuse token.line .rangeChoice
  return value

/-- The alternatives of a case: its arms, and the statements of the last `others`. -/
def alternatives (body : BodyParser) (opened : Nat) (bound : Nat) :
    Parser (List (List Expr × List Stmt) × Option (List Stmt)) :=
  match bound with
  | 0 => return ([], none)
  | bound + 1 => do
      if ← acceptKeyword "when" then
        if ← acceptKeyword "others" then
          let _ ← expectSymbol "=>"
          let statements ← body ["when", "end"] "case" opened
          let (arms, later) ← alternatives body opened bound
          return (arms, later.or (some statements))
        else
          let choices ← separated "|" (choice bound) bound
          let _ ← expectSymbol "=>"
          let statements ← body ["when", "end"] "case" opened
          let (arms, default) ← alternatives body opened bound
          return ((choices, statements) :: arms, default)
      else return ([], none)

def caseStatement (bound : Nat) (body : BodyParser) : Parser Stmt := do
  let opened := (← expectKeyword "case").line
  let selector ← expression bound
  let _ ← expectKeyword "is"
  let (arms, default) ← alternatives body opened bound
  if (← peek).isEnd then failAt opened (.unterminated "case" .noEnd)
  expectEndOf "case" opened
  skipIdentifier
  let _ ← expectSymbol ";"
  return .selection selector arms default opened

/-- One statement; a null statement is none. -/
def sequential (bound : Nat) (body : BodyParser) : Parser (Option Stmt) := do
  let first ← peek
  let _ ← acceptLabel
  let token ← peek
  if token.isKeyword "if" then return some (← ifStatement bound body)
  if token.isKeyword "case" then return some (← caseStatement bound body)
  if token.isKeyword "null" then
    let _ ← advance
    let _ ← expectSymbol ";"
    return none
  if token.isKeywordIn ["for", "while", "loop"] then
    return some (.captured (← captureLoop first))
  match capturedKind? token.lexeme with
  | some kind => return some (.captured (← captureStatement kind first))
  | none =>
      if token.isIdentifier then return some (← assignment bound)
      else fail (.unexpected token.lexeme "in sequential statements")

/-- Statements up to one of the closing words, which stays ahead; `bound` is at least the number of
tokens ahead. -/
def statements (bound : Nat) : BodyParser := fun closing construct opened =>
  match bound with
  | 0 => failAt opened (.unterminated construct .noEnd)
  | bound + 1 => do
      let token ← peek
      if token.isKeywordIn closing then return []
      if token.isEnd then failAt opened (.unterminated construct .noEnd)
      let statement ← sequential bound (statements bound)
      let rest ← statements bound closing construct opened
      return statement.toList ++ rest

end RtlBridge.Vhdl.Parser

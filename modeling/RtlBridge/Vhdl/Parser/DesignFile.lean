import RtlBridge.Token.Scan
import RtlBridge.Vhdl.Parser.Statement

/-! Parsing a design file: one entity and at most one architecture of it. -/

namespace RtlBridge.Vhdl.Parser

/-- Passes `end`, the construct's word and name if they are repeated, and the semicolon. -/
def expectEnd (construct name : String) (opened : Nat) : Parser Unit := do
  if (← peek).isEnd then failAt opened (.unterminated construct .noEnd)
  let _ ← expectKeyword "end"
  let _ ← acceptKeyword construct
  let token ← peek
  match token.lexeme with
  | .identifier closing => do
      let _ ← advance
      if Text.lower closing ≠ Text.lower name then
        failAt token.line (.wrongClosingName closing construct name)
  | _ => pure ()
  let _ ← expectSymbol ";"

/-- The mode of a port; `in` if none is written. -/
def portMode : Parser Direction := do
  if ← acceptKeyword "in" then return .input
  if ← acceptKeyword "out" then return .output
  if ← acceptKeyword "inout" then return .inout
  if ← acceptKeyword "buffer" then return .buffer
  let token ← peek
  if token.isKeyword "linkage" then refuse token.line .linkagePort
  return .input

def portGroup (bound : Nat) : Parser (List (Port TypeMark)) := do
  let names ← identifiers bound
  let _ ← expectSymbol ":"
  let direction ← portMode
  let mark ← typeMark bound
  if ← acceptSymbol ":=" then
    let _ ← expression bound
    note (.defaultIgnored (names.map Prod.fst))
  return names.map fun (name, line) => ⟨name, direction, mark, line⟩

def ports (bound : Nat) : Parser (List (Port TypeMark)) := do
  return (← separated ";" (portGroup bound) bound).flatten

def entity (bound : Nat) : Parser (Entity TypeMark) := do
  let opened := (← expectKeyword "entity").line
  let (name, _) ← expectIdentifier
  let _ ← expectKeyword "is"
  let token ← peek
  if token.isKeyword "generic" then refuse token.line .generic
  let ports ← do
    if ← acceptKeyword "port" then
      let _ ← expectSymbol "("
      let ports ← ports bound
      let _ ← expectSymbol ")"
      let _ ← expectSymbol ";"
      pure ports
    else pure []
  let token ← peek
  if token.isKeyword "begin" then refuse token.line .entityStatements
  expectEnd "entity" name opened
  return ⟨name, ports, opened⟩

def initial (bound : Nat) : Parser (Option Expr) := do
  if ← acceptSymbol ":=" then return some (← expression bound) else return none

/-- Signals or variables declared together, after the word that leads them in. -/
def objectGroup (bound : Nat) : Parser (List (ObjectDecl TypeMark)) := do
  let names ← identifiers bound
  let _ ← expectSymbol ":"
  let mark ← typeMark bound
  let init ← initial bound
  let _ ← expectSymbol ";"
  return names.map fun (name, line) => ⟨name, mark, init, line⟩

def constantGroup (bound : Nat) : Parser (List (ConstantDecl TypeMark)) := do
  let names ← identifiers bound
  let _ ← expectSymbol ":"
  let mark ← typeMark bound
  let _ ← expectSymbol ":="
  let value ← expression bound
  let _ ← expectSymbol ";"
  return names.map fun (name, line) => ⟨name, mark, value, line⟩

def enumDecl (bound : Nat) (line : Nat) : Parser EnumDecl := do
  let (name, _) ← expectIdentifier
  let _ ← expectKeyword "is"
  if !(← acceptSymbol "(") then refuse line .otherType
  let literals ← identifiers bound
  let _ ← expectSymbol ")"
  let _ ← expectSymbol ";"
  return ⟨⟨name, literals.map Prod.fst⟩, line⟩

structure Declarations where
  signals : List (ObjectDecl TypeMark)
  constants : List (ConstantDecl TypeMark)
  enums : List EnumDecl

/-- Declarations outside the subset, by their first word. -/
def unsupportedDeclaration? : Lexeme → Option String
  | .keyword "component" => some "component declaration"
  | .keyword "function" => some "function"
  | .keyword "procedure" => some "procedure"
  | .keyword "impure" => some "function"
  | .keyword "pure" => some "function"
  | .keyword "subtype" => some "subtype declaration"
  | .keyword "attribute" => some "attribute declaration"
  | .keyword "shared" => some "shared variable"
  | .keyword "alias" => some "alias declaration"
  | .keyword "file" => some "file declaration"
  | _ => none

/-- Declarations up to `begin`, which stays ahead. -/
def declarations (name : String) (opened : Nat) (bound : Nat) : Parser Declarations :=
  match bound with
  | 0 => failAt opened (.unterminated s!"architecture {name}" .noBegin)
  | bound + 1 => do
      let token ← peek
      if token.isKeyword "begin" then return ⟨[], [], []⟩
      if token.isEnd then failAt opened (.unterminated s!"architecture {name}" .noBegin)
      if ← acceptKeyword "signal" then
        let group ← objectGroup bound
        let rest ← declarations name opened bound
        return { rest with signals := group ++ rest.signals }
      if ← acceptKeyword "constant" then
        let group ← constantGroup bound
        let rest ← declarations name opened bound
        return { rest with constants := group ++ rest.constants }
      if ← acceptKeyword "type" then
        let enum ← enumDecl bound token.line
        let rest ← declarations name opened bound
        return { rest with enums := enum :: rest.enums }
      match unsupportedDeclaration? token.lexeme with
      | some description => refuse token.line (.declaration description)
      | none => fail (.unexpected token.lexeme "in architecture declarations")

/-- Variables of a process up to `begin`, which stays ahead. -/
def processVars (opened : Nat) (bound : Nat) : Parser (List (ObjectDecl TypeMark)) :=
  match bound with
  | 0 => failAt opened (.unterminated "process" .noBegin)
  | bound + 1 => do
      let token ← peek
      if token.isKeyword "begin" then return []
      if token.isEnd then failAt opened (.unterminated "process" .noBegin)
      if !(← acceptKeyword "variable") then
        refuse token.line (.processDeclaration token.lexeme.text)
      let group ← objectGroup bound
      let rest ← processVars opened bound
      return group ++ rest

def sensitivity (bound : Nat) (opened : Nat) : Parser Sensitivity := do
  if !(← acceptSymbol "(") then refuse opened .processWithoutSensitivity
  let sensitivity ← do
    if ← acceptKeyword "all" then pure Sensitivity.all
    else do
      let names ← identifiers bound
      pure (Sensitivity.listed (names.map Prod.fst))
  let _ ← expectSymbol ")"
  return sensitivity

/-- A process whose label, if any, has been passed; it is reported at `line`. -/
def processBlock (bound : Nat) (label : Option String) (line : Nat) :
    Parser (ProcessBlock TypeMark) := do
  let opened := (← expectKeyword "process").line
  let sensitivity ← sensitivity bound opened
  let _ ← acceptKeyword "is"
  let vars ← processVars opened bound
  let _ ← expectKeyword "begin"
  let body ← statements bound ["end"] "process" opened
  let _ ← expectKeyword "end"
  if !(← acceptKeyword "process") then failAt opened (.unterminated "process" .noEndProcess)
  skipIdentifier
  let _ ← expectSymbol ";"
  return ⟨label, sensitivity, vars, body, line⟩

/-- The choices of a conditional assignment after its first value, and the final value. -/
def choices (value : Expr) (bound : Nat) : Parser (List (Expr × Expr) × Expr) :=
  match bound with
  | 0 => return ([], value)
  | bound + 1 => do
      if ← acceptKeyword "when" then
        let condition ← expression bound
        if !(← acceptKeyword "else") then fail .noFinalElse
        let next ← expression bound
        let (rest, last) ← choices next bound
        return ((value, condition) :: rest, last)
      else return ([], value)

def concurrentAssignment (bound : Nat) : Parser (Concurrent TypeMark) := do
  let line := (← peek).line
  let target ← target bound
  if (← peek).isKeywordIn ["port", "generic"] then refuse line .instantiation
  let _ ← expectSymbol "<="
  let value ← expression bound
  let (choices, last) ← choices value bound
  skipDelay
  let _ ← expectSymbol ";"
  if choices.isEmpty then return .assign ⟨target, last, line⟩
  else return .conditional ⟨target, choices, last, line⟩

def concurrent (bound : Nat) : Parser (Concurrent TypeMark) := do
  let first ← peek
  let label ← acceptLabel
  let token ← peek
  if token.isKeyword "process" then return .process (← processBlock bound label first.line)
  if token.isKeyword "with" then
    return .captured (← captureStatement .selectedAssignment first)
  if token.isKeywordIn ["for", "if"] then refuse token.line .generate
  if token.isKeyword "block" then refuse token.line .block
  if token.isKeywordIn ["entity", "component", "configuration"] then
    refuse token.line .instantiation
  if token.isKeyword "assert" then return .captured (← captureStatement .assertion first)
  if token.isIdentifier then concurrentAssignment bound
  else fail (.unexpected token.lexeme "in architecture body")

/-- Concurrent statements up to `end`, which stays ahead. -/
def concurrents (name : String) (opened : Nat) (bound : Nat) :
    Parser (List (Concurrent TypeMark)) :=
  match bound with
  | 0 => failAt opened (.unterminated s!"architecture {name}" .noEnd)
  | bound + 1 => do
      let token ← peek
      if token.isKeyword "end" then return []
      if token.isEnd then failAt opened (.unterminated s!"architecture {name}" .noEnd)
      let first ← concurrent bound
      let rest ← concurrents name opened bound
      return first :: rest

def architecture (bound : Nat) (entityName : String) : Parser (Architecture TypeMark) := do
  let opened := (← expectKeyword "architecture").line
  let (name, _) ← expectIdentifier
  let _ ← expectKeyword "of"
  let (of, ofLine) ← expectIdentifier
  if Text.lower of ≠ Text.lower entityName then
    failAt ofLine (.foreignArchitecture name of entityName)
  let _ ← expectKeyword "is"
  let declared ← declarations name opened bound
  let _ ← expectKeyword "begin"
  let statements ← concurrents name opened bound
  expectEnd "architecture" name opened
  return ⟨name, entityName, declared.signals, declared.constants, declared.enums, statements, opened⟩

/-- The rest of a design file, after the entity and the architecture found so far. -/
def designFile (found : Option (Entity TypeMark)) (body : Option (Architecture TypeMark))
    (bound : Nat) : Parser (Option (Entity TypeMark) × Option (Architecture TypeMark)) :=
  match bound with
  | 0 => return (found, body)
  | bound + 1 => do
      let token ← peek
      if token.isEnd then return (found, body)
      if token.isKeywordIn ["library", "use"] then
        skipClause
        designFile found body bound
      else if token.isKeyword "entity" then
        if found.isSome then fail .secondEntity
        let entity ← entity bound
        designFile (some entity) body bound
      else if token.isKeyword "architecture" then
        match found with
        | none => fail .architectureFirst
        | some entity => do
            if body.isSome then fail .secondArchitecture
            let architecture ← architecture bound entity.name
            designFile found (some architecture) bound
      else if token.isKeyword "package" then refuse token.line .package
      else if token.isKeyword "configuration" then refuse token.line .configuration
      else fail (.unexpected token.lexeme "at design-unit level")

end Parser

/-- Runs a parser on the tokens of a text; `parser` is given a bound on their number. -/
def Parser.onTokens {α : Type} (parser : Nat → Parser α) (text : List Char) (stream : TokenStream) :
    Traced Fault (α × Cursor) :=
  (parser stream.tokens.length).run (.ofStream text stream)

def Parser.onText {α : Type} (parser : Nat → Parser α) (text : List Char) :
    Traced Fault (α × Cursor) := do
  let stream ← tokenize text
  onTokens parser text stream

def parseTokens (text : List Char) (stream : TokenStream) : Traced Fault (DesignUnit TypeMark) := do
  let ((found, body), _) ← Parser.onTokens (Parser.designFile none none) text stream
  match found with
  | none => throw (.malformed 1 .noEntity)
  | some entity => do
      Traced.note (.unitParsed entity.name entity.ports.length (body.map (·.name)))
      return ⟨entity, body⟩

def parse (text : List Char) : Traced Fault (DesignUnit TypeMark) := do
  let stream ← tokenize text
  parseTokens text stream

end RtlBridge.Vhdl

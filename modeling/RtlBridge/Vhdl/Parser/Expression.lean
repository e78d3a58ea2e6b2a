import RtlBridge.Text.LetterCase
import RtlBridge.Vhdl.Parser
import RtlBridge.Vhdl.DesignUnit

/-! Parsing expressions. From loosest to tightest: concatenation, logical operators, relations, shifts,
sums, products, signs and `not`, primaries. Operators of one level group to the left, also when they
differ.

Every recursive call follows a token that has been passed, so a bound that is at least the number of
tokens ahead is never used up before the tokens are.
-/

namespace RtlBridge.Vhdl.Parser

def logicalOp? : Lexeme → Option BinaryOp
  | .keyword "and" => some .and
  | .keyword "or" => some .or
  | .keyword "nand" => some .nand
  | .keyword "nor" => some .nor
  | .keyword "xor" => some .xor
  | .keyword "xnor" => some .xnor
  | _ => none

def relationOp? : Lexeme → Option BinaryOp
  | .symbol "=" => some .eq
  | .symbol "/=" => some .ne
  | .symbol "<" => some .lt
  | .symbol "<=" => some .le
  | .symbol ">" => some .gt
  | .symbol ">=" => some .ge
  | _ => none

def shiftOp? : Lexeme → Option BinaryOp
  | .keyword "sll" => some .sll
  | .keyword "srl" => some .srl
  | .keyword "sla" => some .sla
  | .keyword "sra" => some .sra
  | _ => none

def sumOp? : Lexeme → Option BinaryOp
  | .symbol "+" => some .add
  | .symbol "-" => some .sub
  | _ => none

def productOp? : Lexeme → Option BinaryOp
  | .symbol "*" => some .mul
  | .symbol "/" => some .div
  | .keyword "mod" => some .mod
  | .keyword "rem" => some .rem
  | _ => none

def signOp? : Lexeme → Option UnaryOp
  | .keyword "not" => some .not
  | .symbol "-" => some .minus
  | .symbol "+" => some .plus
  | _ => none

/-- Goes on with operators of one level after the left operand. -/
def chain (op? : Lexeme → Option BinaryOp) (operand : Parser Expr) (bound : Nat) (lhs : Expr) :
    Parser Expr :=
  match bound with
  | 0 => return lhs
  | bound + 1 => do
      let token ← peek
      match op? token.lexeme with
      | some op => do
          let _ ← advance
          let rhs ← operand
          chain op? operand bound (.binary op lhs rhs token.line)
      | none => return lhs

def level (op? : Lexeme → Option BinaryOp) (bound : Nat) (operand : Parser Expr) : Parser Expr := do
  chain op? operand bound (← operand)

/-- The levels from products to logical operators over signed terms. -/
def logical (bound : Nat) (term : Parser Expr) : Parser Expr :=
  level logicalOp? bound <| level relationOp? bound <| level shiftOp? bound <|
    level sumOp? bound <| level productOp? bound term

def expressionOver (bound : Nat) (term : Parser Expr) : Parser Expr := do
  let line := (← peek).line
  match ← separated "&" (logical bound term) bound with
  | [part] => return part
  | parts => return .concat parts line

def bitString (base : BitBase) (digits : String) : Except SyntaxFault Literal :=
  let shown := (Lexeme.bitString base digits).text
  if digits.isEmpty then .error (.emptyBitString shown)
  else
    match base with
    | .hex => .ok (.hex digits)
    | .octal =>
        if digits.toList.all fun d => '0' ≤ d && d ≤ '7' then
          .ok (.binary (String.ofList (digits.toList.flatMap octalBits)))
        else .error (.invalidOctal shown)
    | .binary =>
        if digits.toList.all fun d => d = '0' || d = '1' then .ok (.binary digits)
        else .error (.invalidBinary shown)
where
  octalBits (d : Char) : List Char :=
    let n := d.toNat - '0'.toNat
    [n / 4, n / 2 % 2, n % 2].map fun b => if b = 1 then '1' else '0'

/-- A string literal is a vector of the bits `0 1 x z` in either letter case. -/
def stringBits (text : String) : Except SyntaxFault Literal :=
  let bits := Text.lower text
  if bits.isEmpty || bits.toList.any (fun c => c ∉ ['0', '1', 'x', 'z']) then
    .error (.notBits text)
  else .ok (.binary bits)

def literalAt (line : Nat) (value : Except SyntaxFault Literal) : Parser Expr :=
  match value with
  | .ok literal => return .literal literal line
  | .error fault => failAt line fault

def ticks (line : Nat) (bound : Nat) (base : Expr) : Parser Expr :=
  match bound with
  | 0 => return base
  | bound + 1 => do
      if ← acceptSymbol "'" then
        if (← peek).isSymbol "(" then refuse line .qualified
        let token ← advance
        match token.lexeme with
        | .identifier spelling => ticks line bound (.tick base (Text.lower spelling) line)
        | .keyword word => ticks line bound (.tick base (Text.lower word) line)
        | found => failAt token.line (.noAttributeName found)
      else return base

def acceptDirection : Parser (Option Bool) := do
  if ← acceptKeyword "downto" then return some false
  if ← acceptKeyword "to" then return some true
  return none

/-- What stands in parentheses behind a name: a range or arguments. -/
def subscripts (bound : Nat) (expression : Parser Expr) (name : String) (line : Nat) :
    Parser Expr := do
  let first ← expression
  let result ← match ← acceptDirection with
    | some _ => do
        let right ← expression
        pure (Expr.slice (.name name line) first right line)
    | none => do
        let others ← listAfter "," expression bound
        pure (Expr.call name (first :: others) line)
  let _ ← expectSymbol ")"
  return result

/-- A name with its subscripts and attributes. Of a selected name the last part counts. -/
def named (bound : Nat) (expression : Parser Expr) : Parser Expr := do
  let (first, line) ← expectIdentifier
  let suffixes ← listAfter "." expectIdentifier bound
  let name := (suffixes.getLast?.map Prod.fst).getD first
  if Text.lower name = "true" then return .literal (.bit "1") line
  if Text.lower name = "false" then return .literal (.bit "0") line
  let base ← do
    if ← acceptSymbol "(" then subscripts bound expression name line
    else pure (Expr.name name line)
  ticks line bound base

/-- What follows an opening parenthesis: an aggregate or an expression in parentheses. -/
def parenthesized (expression : Parser Expr) (opening : Token) : Parser Expr := do
  if ← acceptKeyword "others" then
    let _ ← expectSymbol "=>"
    let fill ← expression
    let _ ← expectSymbol ")"
    return .aggregate fill ⟨opening.start, none⟩ opening.line
  else
    let inner ← expression
    let token ← peek
    if token.isSymbol "," || token.isSymbol "=>" then refuse opening.line .aggregate
    let _ ← expectSymbol ")"
    return inner

def primary (bound : Nat) (expression : Parser Expr) : Parser Expr := do
  let token ← peek
  match token.lexeme with
  | .character value => do
      let _ ← advance
      return .literal (.bit (Text.lower value.toString)) token.line
  | .string value => do
      let _ ← advance
      literalAt token.line (stringBits value)
  | .bitString base digits => do
      let _ ← advance
      literalAt token.line (bitString base digits)
  | .number digits => do
      let _ ← advance
      return .literal (.decimal digits) token.line
  | .identifier _ => named bound expression
  | found =>
      if token.isSymbol "(" then do
        let _ ← advance
        parenthesized expression token
      else fail (.unexpected found "in expression")

/-- A primary with the signs in front of it; `bound` is at least the number of tokens ahead. -/
def term (bound : Nat) : Parser Expr :=
  match bound with
  | 0 => do
      let token ← peek
      fail (.unexpected token.lexeme "in expression")
  | bound + 1 => do
      let token ← peek
      match signOp? token.lexeme with
      | some op => do
          let _ ← advance
          let operand ← term bound
          return .unary op operand token.line
      | none =>
          if token.isKeyword "abs" then refuse token.line .absolute
          else if token.isSymbol "**" then refuse token.line .power
          else primary bound (expressionOver bound (term bound))

/-- An expression; `bound` is at least the number of tokens ahead. -/
def expression (bound : Nat) : Parser Expr := expressionOver bound (term bound)

/-- The target of an assignment: a name, an element of it or a range of it. -/
def target (bound : Nat) : Parser Target := do
  let (name, line) ← expectIdentifier
  if ← acceptSymbol "(" then
    let first ← expression bound
    let part ← match ← acceptDirection with
      | some _ => do
          let right ← expression bound
          pure (Part.range first right)
      | none => pure (Part.element first)
    let _ ← expectSymbol ")"
    return ⟨name, part, line⟩
  else return ⟨name, .whole, line⟩

def bounds (bound : Nat) (typeName : String) : Parser Bounds := do
  let left ← expression bound
  match ← acceptDirection with
  | some ascending => do
      let right ← expression bound
      return ⟨left, right, ascending⟩
  | none => fail (.noDirection typeName)

/-- A type mark with bounds in parentheses, bounds after `range`, or none. -/
def typeMark (bound : Nat) : Parser TypeMark := do
  let (name, line) ← expectIdentifier
  if ← acceptSymbol "(" then
    let range ← bounds bound name
    let _ ← expectSymbol ")"
    return ⟨name, some range, line⟩
  else if ← acceptKeyword "range" then
    return ⟨name, some (← bounds bound name), line⟩
  else return ⟨name, none, line⟩

end RtlBridge.Vhdl.Parser

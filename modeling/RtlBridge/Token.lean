import RtlBridge.Text.Quoted

/-! Tokens of VHDL source text. -/

namespace RtlBridge

inductive BitBase where
  | hex
  | octal
  | binary
deriving Repr, DecidableEq, Inhabited

def BitBase.letter : BitBase → Char
  | .hex => 'x'
  | .octal => 'o'
  | .binary => 'b'

/-- What a token says. Identifiers keep their spelling, reserved words are in lower case, and
underscores inside numbers and bit strings are gone. -/
inductive Lexeme where
  | identifier (spelling : String)
  | keyword (word : String)
  | number (digits : String)
  | character (value : Char)
  | string (value : String)
  | bitString (base : BitBase) (digits : String)
  | symbol (text : String)
  | endOfFile
deriving Repr, DecidableEq, Inhabited

namespace Lexeme

/-- The text of a token without its quotes, except that a bit string keeps base and quotes. -/
def text : Lexeme → String
  | .identifier spelling => spelling
  | .keyword word => word
  | .number digits => digits
  | .character value => value.toString
  | .string value => value
  | .bitString base digits => s!"{base.letter}\"{digits}\""
  | .symbol text => text
  | .endOfFile => ""

def shown : Lexeme → String
  | .endOfFile => "end of file"
  | lexeme => Text.quoted lexeme.text

def isIdentifier : Lexeme → Bool
  | .identifier _ => true
  | _ => false

end Lexeme

/-- A token with the line it starts on and the half-open range of characters it covers. -/
structure Token where
  lexeme : Lexeme
  line : Nat
  start : Nat
  stop : Nat
deriving Repr, DecidableEq, Inhabited

namespace Token

def isSymbol (token : Token) (text : String) : Bool :=
  token.lexeme == .symbol text

def isKeyword (token : Token) (word : String) : Bool :=
  token.lexeme == .keyword word

def isKeywordIn (token : Token) (words : List String) : Bool :=
  match token.lexeme with
  | .keyword word => words.contains word
  | _ => false

def isIdentifier (token : Token) : Bool := token.lexeme.isIdentifier

def isEnd (token : Token) : Bool := token.lexeme == .endOfFile

end Token

/-- All tokens of a text and the end-of-file token behind them. -/
structure TokenStream where
  tokens : List Token
  stop : Token
deriving Repr, Inhabited

def reservedWords : List String := [
  "abs", "access", "after", "alias", "all", "and", "architecture", "array", "assert", "attribute",
  "begin", "block", "body", "buffer", "bus", "case", "component", "configuration", "constant",
  "disconnect", "downto", "else", "elsif", "end", "entity", "exit", "file", "for", "function",
  "generate", "generic", "group", "guarded", "if", "impure", "in", "inertial", "inout", "is",
  "label", "library", "linkage", "literal", "loop", "map", "mod", "nand", "new", "next", "nor",
  "not", "null", "of", "on", "open", "or", "others", "out", "package", "port", "postponed",
  "procedure", "process", "pure", "range", "record", "register", "reject", "rem", "report",
  "return", "rol", "ror", "select", "severity", "shared", "signal", "sla", "sll", "sra", "srl",
  "subtype", "then", "to", "transport", "type", "unaffected", "units", "until", "use", "variable",
  "wait", "when", "while", "with", "xnor", "xor"]

/-- The symbols of the language; where one is the start of another, the longer one comes first. -/
def symbols : List String := [
  "**", "=>", ":=", "/=", ">=", "<=", "<>",
  "(", ")", ",", ";", ":", "&", "+", "-", "*", "/", "=", "<", ">", "|", "."]

end RtlBridge

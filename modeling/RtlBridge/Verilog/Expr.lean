/-! Verilog expressions as they are written: parentheses are part of the tree, so the text of an
expression follows its structure. -/

namespace RtlBridge.Verilog

inductive UnaryOp where
  | complement
  | negate
deriving Repr, DecidableEq, Inhabited

def UnaryOp.text : UnaryOp → String
  | .complement => "~"
  | .negate => "-"

inductive BinaryOp where
  | eq | ne | lt | le | gt | ge
  | and | or | xor
  | add | sub | mul | div | rem
  | shiftLeft | shiftRight | shiftLeftSigned | shiftRightSigned
deriving Repr, DecidableEq, Inhabited

def BinaryOp.text : BinaryOp → String
  | .eq => "==" | .ne => "!=" | .lt => "<" | .le => "<=" | .gt => ">" | .ge => ">="
  | .and => "&" | .or => "|" | .xor => "^"
  | .add => "+" | .sub => "-" | .mul => "*" | .div => "/" | .rem => "%"
  | .shiftLeft => "<<" | .shiftRight => ">>" | .shiftLeftSigned => "<<<"
  | .shiftRightSigned => ">>>"

inductive Base where
  | binary
  | hex
deriving Repr, DecidableEq, Inhabited

def Base.letter : Base → Char
  | .binary => 'b'
  | .hex => 'h'

inductive Expr where
  | name (text : String)
  | number (digits : String)
  | sized (width : Int) (base : Base) (digits : String)
  | fill (bit : Char)
  | unary (op : UnaryOp) (operand : Expr)
  | binary (op : BinaryOp) (lhs rhs : Expr)
  | paren (inner : Expr)
  | concat (parts : List Expr)
  | replicate (count : Int) (part : Expr)
  | index (base subscript : Expr)
  | slice (base left right : Expr)
  | choose (condition yes no : Expr)
deriving Repr, Inhabited

def Expr.text : Expr → String
  | .name text => text
  | .number digits => digits
  | .sized width base digits => s!"{width}'{base.letter}{digits}"
  | .fill bit => s!"'{bit}"
  | .unary op operand => op.text ++ operand.text
  | .binary op lhs rhs => s!"{lhs.text} {op.text} {rhs.text}"
  | .paren inner => s!"({inner.text})"
  | .concat parts => "\x7b" ++ ", ".intercalate (texts parts) ++ "\x7d"
  | .replicate count part => "\x7b" ++ toString count ++ "\x7b" ++ part.text ++ "\x7d\x7d"
  | .index base subscript => s!"{base.text}[{subscript.text}]"
  | .slice base left right => s!"{base.text}[{left.text}:{right.text}]"
  | .choose condition yes no => s!"{condition.text} ? {yes.text} : {no.text}"
where
  texts : List Expr → List String
    | [] => []
    | first :: rest => first.text :: texts rest

end RtlBridge.Verilog

/-! Expressions of the source language, as parsed and as lowered: lowering only respells names, turns
calls of declared names into subscripts and folds attributes, so both have this one type. -/

namespace RtlBridge.Vhdl

/-- Literals by form. A bit is the lower-case text of a character literal, hexadecimal digits keep
their case, binary digits are among `0 1 x z`, and a decimal is kept as written. -/
inductive Literal where
  | bit (value : String)
  | hex (digits : String)
  | binary (digits : String)
  | decimal (digits : String)
deriving Repr, DecidableEq, Inhabited

inductive BinaryOp where
  | and | or | nand | nor | xor | xnor
  | eq | ne | lt | le | gt | ge
  | sll | srl | sla | sra
  | add | sub | mul | div | mod | rem
deriving Repr, DecidableEq, Inhabited

namespace BinaryOp

def text : BinaryOp → String
  | .and => "and" | .or => "or" | .nand => "nand" | .nor => "nor" | .xor => "xor" | .xnor => "xnor"
  | .eq => "=" | .ne => "/=" | .lt => "<" | .le => "<=" | .gt => ">" | .ge => ">="
  | .sll => "sll" | .srl => "srl" | .sla => "sla" | .sra => "sra"
  | .add => "+" | .sub => "-" | .mul => "*" | .div => "/" | .mod => "mod" | .rem => "rem"

def isRelational : BinaryOp → Bool
  | .eq | .ne | .lt | .le | .gt | .ge => true
  | _ => false

def isShift : BinaryOp → Bool
  | .sll | .srl | .sla | .sra => true
  | _ => false

end BinaryOp

inductive UnaryOp where
  | not
  | minus
  | plus
deriving Repr, DecidableEq, Inhabited

def UnaryOp.text : UnaryOp → String
  | .not => "not"
  | .minus => "-"
  | .plus => "+"

/-- Identifies one aggregate of a design: the position of its opening parenthesis, and the name it
belongs to when several names declared together have it as their initial value. -/
structure Site where
  position : Nat
  owner : Option String
deriving Repr, DecidableEq, Inhabited

/-- Expressions, each with the line it is reported at. `call` is any name with arguments in
parentheses, and `aggregate` is `(others => fill)`. -/
inductive Expr where
  | name (spelling : String) (line : Nat)
  | literal (value : Literal) (line : Nat)
  | binary (op : BinaryOp) (lhs rhs : Expr) (line : Nat)
  | unary (op : UnaryOp) (operand : Expr) (line : Nat)
  | call (function : String) (arguments : List Expr) (line : Nat)
  | aggregate (fill : Expr) (site : Site) (line : Nat)
  | concat (parts : List Expr) (line : Nat)
  | index (base subscript : Expr) (line : Nat)
  | slice (base left right : Expr) (line : Nat)
  | tick (base : Expr) (attributeName : String) (line : Nat)
deriving Repr, Inhabited

inductive Part where
  | whole
  | element (subscript : Expr)
  | range (left right : Expr)
deriving Repr, Inhabited

structure Target where
  name : String
  part : Part
  line : Nat
deriving Repr, Inhabited

def Target.toExpr (target : Target) : Expr :=
  match target.part with
  | .whole => .name target.name target.line
  | .element subscript => .index (.name target.name target.line) subscript target.line
  | .range left right => .slice (.name target.name target.line) left right target.line

end RtlBridge.Vhdl

import RtlBridge.Dialect
import RtlBridge.Failure
import RtlBridge.Verilog.Expr
import RtlBridge.Vhdl.Width

/-! Writing source expressions in Verilog. Conversions carry no bits of their own and vanish; operands
that are operations stand in parentheses. An aggregate needs a width: that of the target it is given
to, or, where operands lend it, that of the other operand. -/

namespace RtlBridge.Emission

open Vhdl (NameTable)

inductive Refusal where
  | unsupported (construct : Construct) (line : Nat)
  | lacking (lack : Lack)
  | run (fault : Text.RunFault)
deriving Repr, DecidableEq

def Refusal.failure : Refusal → Failure
  | .unsupported construct line => .source (.unsupported line construct)
  | .lacking lack => .lacking lack
  | .run fault => .run fault

/-- The operator for a binary operation; `negated` operators have no form of their own. -/
structure Operator where
  op : Verilog.BinaryOp
  negated : Bool

def operator : Vhdl.BinaryOp → Operator
  | .and => ⟨.and, false⟩
  | .or => ⟨.or, false⟩
  | .xor => ⟨.xor, false⟩
  | .nand => ⟨.and, true⟩
  | .nor => ⟨.or, true⟩
  | .xnor => ⟨.xor, true⟩
  | .eq => ⟨.eq, false⟩
  | .ne => ⟨.ne, false⟩
  | .lt => ⟨.lt, false⟩
  | .le => ⟨.le, false⟩
  | .gt => ⟨.gt, false⟩
  | .ge => ⟨.ge, false⟩
  | .sll => ⟨.shiftLeft, false⟩
  | .srl => ⟨.shiftRight, false⟩
  | .sla => ⟨.shiftLeftSigned, false⟩
  | .sra => ⟨.shiftRightSigned, false⟩
  | .add => ⟨.add, false⟩
  | .sub => ⟨.sub, false⟩
  | .mul => ⟨.mul, false⟩
  | .div => ⟨.div, false⟩
  | .mod => ⟨.rem, false⟩
  | .rem => ⟨.rem, false⟩

/-- A bit that Verilog can write; all others are unknown. -/
def bitDigit (value : String) : Char :=
  match value.toList with
  | [c] => if c = '0' || c = '1' || c = 'x' || c = 'z' then c else 'x'
  | _ => 'x'

def literal : Vhdl.Literal → Verilog.Expr
  | .bit value => .sized 1 .binary (bitDigit value).toString
  | .hex digits => .sized (4 * digits.length) .hex (String.ofList (digits.toList.map Char.toUpper))
  | .binary digits => .sized digits.length .binary digits
  | .decimal digits => .number digits

/-- Whether an operand stands in parentheses: it is an operation or a shift, perhaps inside
conversions. -/
def isOperation : Vhdl.Expr → Bool
  | .binary _ _ _ _ => true
  | .call function arguments _ =>
      if (Vhdl.Builtin.shift? function).isSome then true
      else
        match arguments with
        | first :: _ => isOperation first
        | [] => true
  | _ => false

def grouped (source : Vhdl.Expr) (written : Verilog.Expr) : Verilog.Expr :=
  if isOperation source then .paren written else written

/-- A sign in front of an operand. Signs in a row are kept apart by parentheses, and a plus sign is
not written. -/
def signed (op : Vhdl.UnaryOp) (source : Vhdl.Expr) (operand : Verilog.Expr) : Verilog.Expr :=
  let operand := match source with
    | .unary _ _ _ => .paren operand
    | _ => operand
  match op with
  | .not => .unary .complement operand
  | .minus => .unary .negate operand
  | .plus => operand

/-- The width that an operand which is an aggregate takes from the other operand. -/
def lentWidth (names : NameTable) (lend : Bool) (operand other : Vhdl.Expr) : Option Int :=
  match operand with
  | .aggregate _ _ _ => if lend then other.width? names else none
  | _ => none

/-- An aggregate of bits: an unsized fill, or the bit as often as the width says. -/
def filled (profile : Profile) (bit : String) (width : Option Int) (line : Nat) :
    Except Refusal Verilog.Expr :=
  if profile.fillAggregates then .ok (.fill (bitDigit bit))
  else
    match width with
    | some width => do
        let digits ← (Text.run (bitDigit bit) width).mapError .run
        return .sized width .binary digits
    | none => .error (.unsupported .unsizedAggregate line)

/-- The operator of a shift function: a right shift of a signed value keeps the sign. -/
def shiftOperator (names : NameTable) (shift : Vhdl.Builtin.Shift) (value : Vhdl.Expr) :
    Verilog.BinaryOp :=
  match shift with
  | .left => .shiftLeft
  | .right => if value.isSigned names then .shiftRightSigned else .shiftRight

/-- Writes an expression for a place of the given width. With `lend`, the operands of the operations
at its root lend their widths to aggregates. -/
def expr (names : NameTable) (profile : Profile) (lend : Bool) (width : Option Int) :
    Vhdl.Expr → Except Refusal Verilog.Expr
  | .name spelling _ => .ok (.name spelling)
  | .literal value _ => .ok (literal value)
  | .binary op lhs rhs _ => do
      let left ← expr names profile lend (lentWidth names lend lhs rhs) lhs
      let right ← expr names profile lend (lentWidth names lend rhs lhs) rhs
      let written := Verilog.Expr.binary (operator op).op (grouped lhs left) (grouped rhs right)
      return if (operator op).negated then .unary .complement (.paren written) else written
  | .unary op operand _ => do
      let written ← expr names profile lend none operand
      return signed op operand (grouped operand written)
  | .call function arguments line =>
      match Vhdl.Builtin.shift? function, arguments with
      | some shift, value :: amount :: _ => do
          let left ← expr names profile false none value
          let right ← expr names profile false none amount
          return .binary (shiftOperator names shift value) (grouped value left)
            (grouped amount right)
      | some _, [value] => do
          let _ ← expr names profile false none value
          .error (.lacking .argument)
      | _, first :: _ =>
          if (Vhdl.Builtin.edge? function).isSome then
            .error (.unsupported (.edgeOutsideIf function) line)
          else expr names profile false width first
      | _, [] => .error (.lacking .argument)
  | .aggregate fill _ line =>
      match fill with
      | .literal (.bit bit) _ => filled profile bit width line
      | fill =>
          match width with
          | some width => do
              return .replicate width (← expr names profile false none fill)
          | none => .error (.unsupported .unsizedAggregate line)
  | .concat parts _ => do
      return .concat (← exprs parts)
  | .index base subscript _ => do
      return .index (← expr names profile false none base) (← expr names profile false none subscript)
  | .slice base left right _ => do
      return .slice (← expr names profile false none base) (← expr names profile false none left)
        (← expr names profile false none right)
  | .tick _ property line => .error (.unsupported (.attributeInExpression property) line)
where
  exprs : List Vhdl.Expr → Except Refusal (List Verilog.Expr)
    | [] => .ok []
    | first :: rest => do
        return (← expr names profile false none first) :: (← exprs rest)

variable {names : NameTable} {profile : Profile}

theorem expr_shift (found : Vhdl.Builtin.shift? function = some shift) (lend : Bool) (width : Option Int)
    (value amount : Vhdl.Expr) (rest : List Vhdl.Expr) (line : Nat) :
    expr names profile lend width (.call function (value :: amount :: rest) line) = (do
      let left ← expr names profile false none value
      let right ← expr names profile false none amount
      return .binary (shiftOperator names shift value) (grouped value left) (grouped amount right)) := by
  rw [expr.eq_def]
  simp only [found]

theorem expr_conversion (notShift : Vhdl.Builtin.shift? function = none) (lend : Bool) (width : Option Int)
    (first : Vhdl.Expr) (rest : List Vhdl.Expr) (line : Nat) :
    expr names profile lend width (.call function (first :: rest) line) =
      if (Vhdl.Builtin.edge? function).isSome then .error (.unsupported (.edgeOutsideIf function) line)
      else expr names profile false width first := by
  rw [expr.eq_def]
  simp only [notShift]

theorem expr_aggregate (notBit : ∀ bit place, fill ≠ .literal (.bit bit) place) (lend : Bool) (width : Option Int)
    (site : Vhdl.Site) (line : Nat) :
    expr names profile lend width (.aggregate fill site line) =
      match width with
      | some count => do return .replicate count (← expr names profile false none fill)
      | none => .error (.unsupported .unsizedAggregate line) := by
  rw [expr.eq_def]
  dsimp only
  split
  · exact absurd rfl (notBit _ _)
  · rfl

theorem exprs_eq_mapM (parts : List Vhdl.Expr) :
    expr.exprs names profile parts = parts.mapM (expr names profile false none) := by
  induction parts with
  | nil => rfl
  | cons first rest ih => rw [expr.exprs, List.mapM_cons, ih]

end RtlBridge.Emission

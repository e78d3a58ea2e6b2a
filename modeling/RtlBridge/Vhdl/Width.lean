import RtlBridge.Fault
import RtlBridge.Table
import RtlBridge.Text.Numeral
import RtlBridge.Vhdl.Builtin
import RtlBridge.Vhdl.DesignUnit

/-! The width and the signedness of expressions, over a table of declared names. -/

namespace RtlBridge.Vhdl

structure NameInfo where
  role : Role
  type : Option DataType
deriving Inhabited

abbrev NameTable := Table String NameInfo

namespace NameTable

def role? (names : NameTable) (name : String) : Option Role :=
  (names.find? name).map (·.role)

def type? (names : NameTable) (name : String) : Option DataType :=
  (names.find? name).bind (·.type)

def constants (names : NameTable) : List String :=
  names.entries.filterMap fun (name, info) =>
    if info.role = .constant || info.role = .enumLiteral then some name else none

end NameTable

/-- Every declaration of a design: ports, enumeration literals, constants, signals, variables. -/
def names (design : Design) : NameTable :=
  let ports := design.entity.ports.map fun port => (port.name, ⟨.port, some port.type⟩)
  let declared : List (String × NameInfo) := match design.architecture with
    | none => []
    | some body =>
        body.enums.flatMap (fun decl => decl.type.literals.map fun literal =>
          (literal, ⟨.enumLiteral, some (.enum decl.type)⟩)) ++
        body.constants.map (fun decl => (decl.name, ⟨.constant, some decl.type⟩)) ++
        body.signals.map (fun decl => (decl.name, ⟨.signal, some decl.type⟩)) ++
        body.processes.flatMap fun block => block.vars.map fun decl =>
          (decl.name, ⟨.var, some decl.type⟩)
  Table.ofList (ports ++ declared)

namespace Literal

/-- The number of bits of a literal; a plain number has none. -/
def width? : Literal → Option Nat
  | .bit _ => some 1
  | .hex digits => some (4 * digits.length)
  | .binary digits => some digits.length
  | .decimal _ => none

/-- Bits as a number reads them: `x` and `z` count as zero. -/
def zeroed (bits : String) : String :=
  String.ofList (bits.toList.map fun c => if c = 'x' || c = 'z' then '0' else c)

/-- The value of a literal; a character other than `0 1 x z` has none. -/
def value? : Literal → Option Int
  | .bit value => (Text.Numeral.read? 2 (zeroed value).toList).map Int.ofNat
  | .hex digits => (Text.Numeral.read? 16 digits.toList).map Int.ofNat
  | .binary digits => (Text.Numeral.read? 2 (zeroed digits).toList).map Int.ofNat
  | .decimal digits => Text.Numeral.decimal? digits

end Literal

namespace Expr

/-- The value of a number with minus signs in front of it. -/
def static? : Expr → Option Int
  | .literal (.decimal digits) _ => Text.Numeral.decimal? digits
  | .unary .minus operand _ => operand.static?.map fun n => -n
  | _ => none

def maxKnown : Option Int → Option Int → Option Int
  | some a, some b => some (max a b)
  | some a, none => some a
  | none, b => b

def binaryWidth (op : BinaryOp) (lhs rhs : Option Int) : Option Int :=
  if op.isRelational then some 1
  else if op.isShift then lhs
  else
    match op with
    | .mul => do return (← lhs) + (← rhs)
    | .div => lhs
    | .mod | .rem => rhs
    | _ => maxKnown lhs rhs

/-- The width of an expression in bits, or none if it has no size of its own. -/
def width? (names : NameTable) : Expr → Option Int
  | .name spelling _ => (names.type? spelling).map DataType.width
  | .literal value _ => value.width?.map Int.ofNat
  | .binary op lhs rhs _ => binaryWidth op (lhs.width? names) (rhs.width? names)
  | .unary _ operand _ => operand.width? names
  | .call function arguments _ =>
      if (Builtin.edge? function).isSome then some 1
      else if Builtin.isToInteger function then none
      else if (Builtin.sizedConversion? function).isSome then
        match arguments with
        | _ :: size :: _ => size.static?
        | _ => none
      else
        match arguments with
        | first :: _ => first.width? names
        | [] => none
  | .aggregate _ _ _ => none
  | .concat parts _ => sumWidths names parts
  | .index _ _ _ => some 1
  | .slice _ left right _ => do
      return ((← left.static?) - (← right.static?)).natAbs + 1
  | .tick _ _ _ => some 1
where
  sumWidths (names : NameTable) : List Expr → Option Int
    | [] => some 0
    | part :: rest => do return (← part.width? names) + (← sumWidths names rest)

def isSigned (names : NameTable) : Expr → Bool
  | .name spelling _ => (names.type? spelling).any DataType.signed
  | .call function arguments _ =>
      match (Builtin.conversion? function).or (Builtin.sizedConversion? function) with
      | some .signed => true
      | some .unsigned => false
      | _ =>
          match arguments with
          | first :: _ => first.isSigned names
          | [] => false
  | .binary _ lhs rhs _ => lhs.isSigned names || rhs.isSigned names
  | .unary _ operand _ => operand.isSigned names
  | _ => false

/-- Whether an expression is made of literals and the given names only; conversions do not count. -/
def isConstant (constants : List String) : Expr → Bool
  | .literal _ _ => true
  | .aggregate fill _ _ => fill.isConstant constants
  | .name spelling _ => constants.contains spelling
  | .call function arguments _ =>
      ((Builtin.conversion? function).isSome || (Builtin.sizedConversion? function).isSome) &&
        areConstant constants arguments
  | _ => false
where
  areConstant (constants : List String) : List Expr → Bool
    | [] => true
    | first :: rest => first.isConstant constants && areConstant constants rest

end Expr

def Target.width? (names : NameTable) (target : Target) : Option Int :=
  target.toExpr.width? names

end RtlBridge.Vhdl

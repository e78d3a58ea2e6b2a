import Mathlib.Algebra.Group.Nat.Defs
import RtlBridge.Proofs.Verilog.Reader
import RtlBridge.Text.Numeral
import RtlBridge.Verilog.Module

/-! The values of Verilog expressions. An expression has a width and a signedness of its own, and is evaluated at
the width and with the signedness of its surroundings: the operands of a comparison at the greater of their
two widths, and parts of concatenations, subscripts and shift amounts on their own.

Bits are zero or one; unknown bits of literals count as zero. Operators that are never written have no
meaning here.
-/

namespace RtlBridge.Verilog

def Dimension.width (dimension : Dimension) : Nat := (dimension.high - dimension.low).natAbs + 1

/-- What the names in an expression stand for: the ranges they are declared with, if any, and the values of
parameters. -/
structure Scope where
  dimension : String → Option Dimension
  parameter : String → Option Int

namespace Scope

def width (scope : Scope) (name : String) : Nat := (scope.dimension name).elim 1 Dimension.width

def isSigned (scope : Scope) (name : String) : Bool := (scope.dimension name).any (·.signed)

def low (scope : Scope) (name : String) : Int := (scope.dimension name).elim 0 (·.low)

end Scope

/-! ### Literals -/

def decimalValue (digits : String) : Nat := (Text.Numeral.read? 10 digits.toList).getD 0

def basedValue (base : Char) (digits : String) : Nat :=
  let known := digits.toList.map fun c => if c ∈ ['x', 'X', 'z', 'Z', '?'] then '0' else c
  (Text.Numeral.read? (if base = 'h' then 16 else 2) known).getD 0

/-! ### Operators -/

def isComparison (op : String) : Bool := op ∈ ["==", "!=", "<", "<=", ">", ">="]

def isShift (op : String) : Bool := op ∈ ["<<", ">>", "<<<", ">>>"]

def compareBits (signed : Bool) (op : String) {width : Nat} (a b : BitVec width) : Bool :=
  let less (a b : BitVec width) := if signed then a.slt b else a.ult b
  match op with
  | "==" => a == b
  | "!=" => a != b
  | "<" => less a b
  | "<=" => !less b a
  | ">" => less b a
  | ">=" => !less a b
  | _ => false

def shiftBits (signed : Bool) (op : String) {width : Nat} (a : BitVec width) (amount : Nat) : BitVec width :=
  match op with
  | "<<" | "<<<" => a <<< amount
  | ">>>" => if signed then a.sshiftRight amount else a >>> amount
  | _ => a >>> amount

def combineBits (signed : Bool) (op : String) {width : Nat} (a b : BitVec width) : BitVec width :=
  match op with
  | "&" => a &&& b
  | "|" => a ||| b
  | "^" => a ^^^ b
  | "+" => a + b
  | "-" => a - b
  | "*" => a * b
  | "/" => if signed then a.sdiv b else a.udiv b
  | "%" => if signed then a.srem b else a.umod b
  | _ => 0

def signBits (op : String) {width : Nat} (a : BitVec width) : BitVec width :=
  match op with
  | "~" => ~~~a
  | "-" => -a
  | _ => a

def extendBits (signed : Bool) {width : Nat} (a : BitVec width) (wider : Nat) : BitVec wider :=
  if signed then a.signExtend wider else a.setWidth wider

namespace Tree

def nodes : Tree → List Tree
  | .name text => [.name text]
  | .number digits => [.number digits]
  | .based size base digits => [.based size base digits]
  | .fill bit => [.fill bit]
  | .unary op operand => .unary op operand :: operand.nodes
  | .binary op lhs rhs => .binary op lhs rhs :: (lhs.nodes ++ rhs.nodes)
  | .concat parts => .concat parts :: nodesAll parts
  | .replicate count parts => .replicate count parts :: (count.nodes ++ nodesAll parts)
  | .index base subscript => .index base subscript :: (base.nodes ++ subscript.nodes)
  | .slice base left right => .slice base left right :: (base.nodes ++ left.nodes ++ right.nodes)
  | .choose condition yes no => .choose condition yes no :: (condition.nodes ++ yes.nodes ++ no.nodes)
where
  nodesAll : List Tree → List Tree
    | [] => []
    | first :: rest => first.nodes ++ nodesAll rest

/-- The value of an expression that is made of numbers and parameters. -/
def constant? (scope : Scope) : Tree → Option Int
  | .name text => scope.parameter text
  | .number digits => (Text.Numeral.read? 10 digits.toList).map Int.ofNat
  | .unary op operand => if op = "-" then (operand.constant? scope).map (-·) else none
  | .binary op lhs rhs => do
    let a ← lhs.constant? scope
    let b ← rhs.constant? scope
    match op with
    | "+" => some (a + b)
    | "-" => some (a - b)
    | "*" => some (a * b)
    | _ => none
  | _ => none

def span (scope : Scope) (left right : Tree) : Nat :=
  match left.constant? scope, right.constant? scope with
  | some a, some b => (a - b).natAbs + 1
  | _, _ => 0

def width (scope : Scope) : Tree → Nat
  | .name text => scope.width text
  | .number _ => 32
  | .based size _ _ => decimalValue size
  | .fill _ => 1
  | .unary _ operand => operand.width scope
  | .binary op lhs rhs =>
    if isComparison op then 1
    else if isShift op then lhs.width scope
    else max (lhs.width scope) (rhs.width scope)
  | .concat parts => widths parts
  | .replicate count parts => ((count.constant? scope).getD 0).toNat * widths parts
  | .index _ _ => 1
  | .slice _ left right => span scope left right
  | .choose _ yes no => max (yes.width scope) (no.width scope)
where
  widths : List Tree → Nat
    | [] => 0
    | first :: rest => first.width scope + widths rest

def isSigned (scope : Scope) : Tree → Bool
  | .name text => scope.isSigned text
  | .number _ => true
  | .unary _ operand => operand.isSigned scope
  | .binary op lhs rhs =>
    if isComparison op then false
    else if isShift op then lhs.isSigned scope
    else lhs.isSigned scope && rhs.isSigned scope
  | .choose _ yes no => yes.isSigned scope && no.isSigned scope
  | _ => false

def offset (scope : Scope) : Tree → Int → Int
  | .name text, position => position - scope.low text
  | _, position => position

/-- The bits of an expression in surroundings of the given width and signedness. -/
def bits (scope : Scope) (store : String → Nat) (size : Nat) (signed : Bool) : Tree → BitVec size
  | .name text => extendBits signed (BitVec.ofNat (scope.width text) (store text)) size
  | .number digits => extendBits signed (BitVec.ofNat 32 (decimalValue digits)) size
  | .based count base digits => extendBits signed (BitVec.ofNat (decimalValue count) (basedValue base digits)) size
  | .fill bit => if bit = '1' then BitVec.allOnes size else 0
  | .unary op operand => signBits op (operand.bits scope store size signed)
  | .binary op lhs rhs =>
    if isComparison op then
      let common := max (lhs.width scope) (rhs.width scope)
      let both := lhs.isSigned scope && rhs.isSigned scope
      BitVec.ofNat size (compareBits both op (lhs.bits scope store common both)
        (rhs.bits scope store common both)).toNat
    else if isShift op then
      shiftBits signed op (lhs.bits scope store size signed)
        (rhs.bits scope store (rhs.width scope) (rhs.isSigned scope)).toNat
    else combineBits signed op (lhs.bits scope store size signed) (rhs.bits scope store size signed)
  | .concat parts => BitVec.ofNat size (joined parts)
  | .replicate count parts =>
    let copies := List.replicate ((count.constant? scope).getD 0).toNat (joined parts)
    BitVec.ofNat size (copies.foldl (fun high copy => high * 2 ^ width.widths scope parts + copy) 0)
  | .index base subscript =>
    let place := base.offset scope
      (if subscript.isSigned scope then (subscript.bits scope store (subscript.width scope) true).toInt
      else (subscript.bits scope store (subscript.width scope) false).toNat)
    let whole := base.bits scope store (base.width scope) false
    BitVec.ofNat size (if 0 ≤ place then (whole.getLsbD place.toNat).toNat else 0)
  | .slice base left right =>
    let last := base.offset scope (min ((left.constant? scope).getD 0) ((right.constant? scope).getD 0))
    let whole := base.bits scope store (base.width scope) false
    BitVec.ofNat size (whole.toNat / 2 ^ last.toNat % 2 ^ span scope left right)
  | .choose condition yes no =>
    if condition.bits scope store (condition.width scope) (condition.isSigned scope) = 0 then
      no.bits scope store size signed
    else yes.bits scope store size signed
where
  joined : List Tree → Nat
    | [] => 0
    | first :: rest =>
      (first.bits scope store (first.width scope) (first.isSigned scope)).toNat *
        2 ^ width.widths scope rest + joined rest

/-- Whether an expression counts as true: it has a bit that is one. -/
def truth (scope : Scope) (store : String → Nat) (tree : Tree) : Bool :=
  tree.bits scope store (tree.width scope) (tree.isSigned scope) != 0

end Tree

end RtlBridge.Verilog

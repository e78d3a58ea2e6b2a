import RtlBridge.Failure
import RtlBridge.Vhdl.Width

/-! The width of expressions that lowering has not checked. Such an expression may convert to a size that
is not there, and its names may have types that no source declares. Where there is a measure, it is the
width. -/

namespace RtlBridge.Vhdl

def DataType.measure : DataType → Except Lack Int
  | .enum ⟨_, []⟩ => .error .literals
  | type => .ok type.width

namespace Expr

/-- The width of an expression, or what it lacks, the first from the left. -/
def measure (names : NameTable) : Expr → Except Lack (Option Int)
  | .name spelling _ =>
      match names.type? spelling with
      | some type => type.measure.map some
      | none => .ok none
  | .binary op lhs rhs _ => do
      let left ← lhs.measure names
      let right ← rhs.measure names
      return binaryWidth op left right
  | .unary _ operand _ => operand.measure names
  | .call function arguments _ =>
      if (Builtin.edge? function).isSome then .ok (some 1)
      else if Builtin.isToInteger function then .ok none
      else if (Builtin.sizedConversion? function).isSome then
        match arguments with
        | _ :: size :: _ => .ok size.static?
        | _ => .error .argument
      else
        match arguments with
        | first :: _ => first.measure names
        | [] => .error .argument
  | .concat parts _ => sumMeasures names parts
  | .literal value _ => .ok (value.width?.map Int.ofNat)
  | .aggregate _ _ _ => .ok none
  | .index _ _ _ => .ok (some 1)
  | .slice _ left right _ => .ok do return ((← left.static?) - (← right.static?)).natAbs + 1
  | .tick _ _ _ => .ok (some 1)
where
  sumMeasures (names : NameTable) : List Expr → Except Lack (Option Int)
    | [] => .ok (some 0)
    | part :: rest => do
        let first ← part.measure names
        let others ← sumMeasures names rest
        return do return (← first) + (← others)

end Expr

end RtlBridge.Vhdl

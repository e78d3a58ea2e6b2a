import RtlBridge.Text.LetterCase
import RtlBridge.Text.Numeral
import RtlBridge.Traced
import RtlBridge.Vhdl.DesignUnit

/-! Declared names. Names are the same if they agree up to letter case; a design has one declaration of
each name, apart from the variables, which belong to one process each. -/

namespace RtlBridge.Vhdl

/-- A declared name in its declared spelling. Of a constant, `static` is its value if that can be
computed from numbers and earlier constants. -/
structure Symbol where
  name : String
  role : Role
  type : Option DataType
  static : Option Int
deriving Inhabited

structure Symbols where
  entries : List (String × Symbol)
  keyed : ∀ entry ∈ entries, entry.1 = Text.lower entry.2.name

namespace Symbols

def empty : Symbols := ⟨[], fun _ member => absurd member List.not_mem_nil⟩

def find? (symbols : Symbols) (key : String) : Option Symbol := symbols.entries.lookup key

def insert (symbols : Symbols) (symbol : Symbol) : Symbols :=
  ⟨(Text.lower symbol.name, symbol) :: symbols.entries, List.forall_mem_cons.mpr ⟨rfl, symbols.keyed⟩⟩

end Symbols

/-- What is declared at a point of a design, by lower-case names: the design's names, the variables of
the process at hand, the enumeration types, and the variables of all processes so far. -/
structure Scope where
  globals : Symbols
  locals : Symbols
  enums : List (String × EnumType)
  variableKeys : List String

namespace Scope

def empty : Scope := ⟨.empty, .empty, [], []⟩

/-- Variables hide nothing: they never share a name with the rest of a design. -/
def lookup (scope : Scope) (name : String) : Option Symbol :=
  let key := Text.lower name
  (scope.locals.find? key).or (scope.globals.find? key)

def declare (scope : Scope) (line : Nat) (symbol : Symbol) : Except Fault Scope :=
  let key := Text.lower symbol.name
  match (scope.globals.find? key).or (scope.locals.find? key) with
  | some other =>
      .error (.misnamed line (.collision symbol.role symbol.name other.role other.name))
  | none => .ok { scope with globals := scope.globals.insert symbol }

def declareVariable (scope : Scope) (name : String) (type : DataType) : Scope :=
  { scope with locals := scope.locals.insert ⟨name, .var, some type, none⟩ }

/-- The value of a range bound: numbers, constants with a value, minus signs, sums, differences and
products. -/
def static? (scope : Scope) : Expr → Option Int
  | .literal (.decimal digits) _ => Text.Numeral.decimal? digits
  | .unary .minus operand _ => (static? scope operand).map fun n => -n
  | .binary .add lhs rhs _ => do return (← static? scope lhs) + (← static? scope rhs)
  | .binary .sub lhs rhs _ => do return (← static? scope lhs) - (← static? scope rhs)
  | .binary .mul lhs rhs _ => do return (← static? scope lhs) * (← static? scope rhs)
  | .name spelling _ =>
      match scope.lookup spelling with
      | some symbol => if symbol.role = .constant then symbol.static else none
      | none => none
  | _ => none

def staticBound (scope : Scope) (line : Nat) (bound : Expr) : Except Fault Int :=
  match scope.static? bound with
  | some n => .ok n
  | none => .error (.misnamed line .boundNotStatic)

def isBitMark (key : String) : Bool := ["std_logic", "std_ulogic", "bit", "boolean"].contains key

def vectorMark? (key : String) : Option Bool :=
  if ["std_logic_vector", "std_ulogic_vector", "bit_vector", "unsigned"].contains key then some false
  else if key = "signed" then some true
  else none

/-- The type that a type mark stands for. A vector needs bounds, which may come in either order; for
all other types the bounds do not matter. -/
def resolve (scope : Scope) (mark : TypeMark) : Traced Fault DataType :=
  let key := Text.lower mark.name
  if isBitMark key then return .bit
  else if key = "integer" then return .integer
  else if key = "natural" || key = "positive" then return .natural
  else
    match vectorMark? key, mark.bounds with
    | some _, none => throw (.unsupported mark.line (.unconstrained mark.name))
    | some signed, some bounds => do
        let left ← scope.staticBound mark.line bounds.left
        let right ← scope.staticBound mark.line bounds.right
        let vector := VectorType.between left right signed
        if bounds.ascending then
          Traced.note (.rangeReversed mark.line mark.name vector.high vector.low)
        return .vector vector
    | none, _ =>
        match scope.enums.lookup key with
        | some enum => return .enum enum
        | none => throw (.unsupported mark.line (.unknownType mark.name))

end Scope

end RtlBridge.Vhdl

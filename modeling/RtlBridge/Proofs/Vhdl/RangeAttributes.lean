import Mathlib.Logic.Relation
import RtlBridge.Proofs.Text.Numeral
import RtlBridge.Proofs.Vhdl.TypedObjects

/-! Attributes of vectors. The type of a vector has its greater bound on the left, in whatever order the bounds are
written, and attributes are numbers of the type. Such a number has its value again where a later bound names it. -/

namespace RtlBridge.Vhdl

open Relation (ReflTransGen)

namespace Scope

/-- An object is declared by its name and its type mark. -/
inductive Declares : String → TypeMark → Scope → Scope → Prop where
  | port (ok : (Lowering.port port before).result = .ok (lowered, after)) : Declares port.name port.type before after
  | constant (ok : (Lowering.constant decl before).result = .ok (lowered, after)) :
      Declares decl.name decl.type before after
  | signal (ok : (Lowering.signal decl before).result = .ok (lowered, after)) :
      Declares decl.name decl.type before after
  | variableDecl (ok : (Lowering.variableDecl decl before).result = .ok (lowered, after)) :
      Declares decl.name decl.type before after

/-- How scopes follow each other while an object can be named: a process is left only by names that are not its
variables. -/
inductive Step (key : String) : Scope → Scope → Prop where
  | declares (declares : Declares name mark before after) : Step key before after
  | enum (ok : (Lowering.enum decl before).result = .ok (value, after)) : Step key before after
  | keys (keys : List String) : Step key before { before with variableKeys := keys }
  | leave (outside : before.locals.find? key = none) : Step key before { before with locals := .empty }

/-- A declaration resolves its mark, and it hides no name. -/
theorem Declares.lookup (declares : Declares name mark before after) :
    (∃ type symbol, (before.resolve mark).result = .ok type ∧ after.lookup name = some symbol ∧
      symbol.type = some type) ∧
    ∀ other symbol, before.lookup other = some symbol → after.lookup other = some symbol := by
  have resolved {type : DataType} {symbol : Symbol} (isNamed : symbol.name = name) (isTyped : symbol.type = some type)
      (typeOk : (before.resolve mark).result = .ok type) (adds : before.Adds symbol after) :
      (∃ type symbol, (before.resolve mark).result = .ok type ∧ after.lookup name = some symbol ∧
        symbol.type = some type) ∧
      ∀ other symbol, before.lookup other = some symbol → after.lookup other = some symbol := by
    refine ⟨⟨type, symbol, typeOk, ?_, isTyped⟩, fun _ _ => adds.found⟩
    rw [adds.lookup, isNamed, if_pos rfl]
  cases declares with
  | port ok => exact resolved rfl rfl (Adds.port ok).2.1 (Adds.port ok).2.2
  | constant ok => exact resolved rfl rfl (Adds.constant ok).2.1 (Adds.constant ok).2.2
  | signal ok => exact resolved rfl rfl (Adds.signal ok).2.1 (Adds.signal ok).2.2
  | variableDecl ok => exact resolved rfl rfl (Adds.variableDecl ok).2.1 (Adds.variableDecl ok).2.2

theorem Step.lookup (step : Step (Text.lower name) earlier later) (found : earlier.lookup name = some symbol) :
    later.lookup name = some symbol := by
  cases step with
  | declares declares => exact declares.lookup.2 name symbol found
  | enum ok =>
    exact forM_run (motive := fun _ scope => scope.lookup name = some symbol)
      (fun _ _ _ _ found ok => (Adds.of_declare ok).found found) found (Lowering.enum_eq_ok ok)
  | keys => exact found
  | leave outside =>
    rw [Scope.lookup, outside] at found
    exact found

theorem lookup_of_steps (steps : ReflTransGen (Step (Text.lower name)) earlier later)
    (found : earlier.lookup name = some symbol) : later.lookup name = some symbol := by
  induction steps with
  | refl => exact found
  | tail _ step inMiddle => exact step.lookup inMiddle

theorem static?_number (scope : Scope) (n : Int) (line : Nat) :
    scope.static? (.literal (.decimal (toString n)) line) = some n := Text.Numeral.decimal?_toString n

/-- A constant stands for the value that its lowered expression has where it is declared. -/
theorem static?_constant (ok : (Lowering.constant decl before).result = .ok (lowered, after))
    (steps : ReflTransGen (Step (Text.lower decl.name)) after later)
    (same : Text.lower spelling = Text.lower decl.name) (line : Nat) :
    later.static? (.name spelling line) = before.static? lowered.value := by
  have found := (Adds.constant ok).2.2.lookup decl.name
  rw [if_pos rfl] at found
  simp [static?, lookup_congr later same, lookup_of_steps steps found]

end Scope

theorem lower_tick {vector : VectorType} (found : scope.lookup spelling = some symbol)
    (isVector : symbol.type = some (.vector vector)) (isNumber : vector.attribute? property = some n)
    (owner : Option String) (place line : Nat) :
    (Expr.tick (.name spelling place) property line).lower scope owner =
      .ok (.literal (.decimal (toString n)) line) := by
  have notEvent : property ≠ "event" := by
    rintro rfl
    simp [VectorType.attribute?] at isNumber
  have lowered : (Expr.name spelling place).lower scope owner = .ok (.name symbol.name place) := by
    rw [Expr.lower, Scope.spell, found]
    rfl
  rw [Expr.lower, lowered]
  simp [bind, Except.bind, lowerTick, notEvent, Scope.lookup_declared found, isVector, isNumber]

/-- The attributes of a vector, and their numbers if it has two bounds in either order. -/
def rangeAttributes (left right : Int) : List (String × Int) :=
  [("left", max left right), ("right", min left right), ("high", max left right), ("low", min left right),
    ("length", |left - right| + 1)]

theorem attribute?_between (signed : Bool) :
    ∀ entry ∈ rangeAttributes left right, (VectorType.between left right signed).attribute? entry.1 = some entry.2 := by
  simp only [rangeAttributes, List.forall_mem_cons]
  refine ⟨rfl, rfl, rfl, rfl, ?_, List.forall_mem_nil _⟩
  rw [abs_sub_comm, ← max_sub_min_eq_abs]
  rfl

/-- Wherever an object that is declared as a vector can be named, its attributes are numbers: `left` is the greater
bound and `right` the lesser one. As a bound such a number has its value, and so has a constant made of it. -/
theorem range_attributes_fold (declared : Scope.Declares name mark before after)
    (isVector : Scope.vectorMark? (Text.lower mark.name) = some signed) (isBounds : mark.bounds = some bounds)
    (isLeft : before.static? bounds.left = some left) (isRight : before.static? bounds.right = some right)
    (steps : ReflTransGen (Scope.Step (Text.lower name)) after scope)
    (same : Text.lower spelling = Text.lower name) :
    (∀ entry ∈ rangeAttributes left right, ∀ owner place line,
      (Expr.tick (.name spelling place) entry.1 line).lower scope owner =
        .ok (.literal (.decimal (toString entry.2)) line) ∧
      ∀ anywhere : Scope, anywhere.static? (.literal (.decimal (toString entry.2)) line) = some entry.2) ∧
    ∀ decl lowered next later other line, (Lowering.constant decl scope).result = .ok (lowered, next) →
      ReflTransGen (Scope.Step (Text.lower decl.name)) next later → Text.lower other = Text.lower decl.name →
      decl.value.lower scope decl.name = .ok lowered.value ∧
        later.static? (.name other line) = scope.static? lowered.value := by
  obtain ⟨type, symbol, typeOk, found, hasType⟩ := declared.lookup.1
  have isType : type = .vector (.between left right signed) := by
    cases Scope.resolve_eq_ok typeOk with
    | plain _ notVector => simp [notVector] at isVector
    | enum notVector => simp [notVector] at isVector
    | vector isVector' isBounds' isLeft' isRight' =>
      cases isVector'.symm.trans isVector
      cases isBounds'.symm.trans isBounds
      cases isLeft'.symm.trans isLeft
      cases isRight'.symm.trans isRight
      rfl
  have known : scope.lookup spelling = some symbol := by
    rw [Scope.lookup_congr scope same]
    exact Scope.lookup_of_steps steps found
  refine ⟨fun entry member owner place line => ⟨?_, fun anywhere => anywhere.static?_number entry.2 line⟩, ?_⟩
  · exact lower_tick known (isType ▸ hasType) (attribute?_between signed entry member) owner place line
  · intro decl lowered next later other line ok steps same
    refine ⟨?_, Scope.static?_constant ok steps same line⟩
    obtain ⟨_, value, _, valueOk, rfl, _⟩ := Lowering.constant_eq_ok ok
    exact valueOk

/-- A scope with one constant. -/
def sampleScope : Scope := { Scope.empty with globals := Symbols.empty.insert ⟨"N", .constant, some .natural, some 4⟩ }

/-- `v : unsigned(-2 to n - 1)` -/
def sampleVector : ObjectDecl TypeMark where
  name := "v"
  type := ⟨"unsigned", some ⟨.unary .minus (.literal (.decimal "2") 1) 1,
    .binary .sub (.name "n" 1) (.literal (.decimal "1") 1) 1, true⟩, 1⟩
  init := none
  line := 1

def vectorScope : Scope :=
  { sampleScope with
    globals := sampleScope.globals.insert ⟨"v", .signal, some (.vector (.between (-2) 3 false)), none⟩ }

theorem attributes_of_sampleVector :
    (Lowering.signal sampleVector sampleScope).result =
        .ok (⟨"v", .vector (.between (-2) 3 false), none, 1⟩, vectorScope) ∧
      ∀ entry ∈ rangeAttributes (-2) 3, ∀ owner place line,
        (Expr.tick (.name "V" place) entry.1 line).lower vectorScope owner =
          .ok (.literal (.decimal (toString entry.2)) line) := by
  have declared : (Lowering.signal sampleVector sampleScope).result =
      .ok (⟨"v", .vector (.between (-2) 3 false), none, 1⟩, vectorScope) := rfl
  have same : Text.lower "V" = Text.lower "v" := rfl
  have folds := range_attributes_fold (.signal declared) rfl rfl rfl rfl .refl same
  exact ⟨declared, fun entry member owner place line => (folds.1 entry member owner place line).1⟩

/-- The left bound of `v` is `-2` as it is written, and its attribute is the other bound. -/
theorem ascending_left_is_greater :
    sampleScope.static? (.unary .minus (.literal (.decimal "2") 1) 1) = some (-2) ∧
      (Expr.tick (.name "v" 1) "left" 1).lower vectorScope none = .ok (.literal (.decimal "3") 1) := ⟨rfl, rfl⟩

end RtlBridge.Vhdl

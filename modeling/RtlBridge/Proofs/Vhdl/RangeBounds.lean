import RtlBridge.Proofs.Vhdl.TypedObjects

/-! Bounds of ranges. A scope keeps the numbers of its constants. They are what one gets by putting the values of
constants in the place of their names, which leads to earlier constants only and so comes to an end. -/

namespace RtlBridge.Vhdl

/-- The number of an expression whose names have numbers. -/
def Expr.arithmetic (number : String → Option Int) : Expr → Option Int
  | .literal (.decimal digits) _ => Text.Numeral.decimal? digits
  | .unary .minus operand _ => (operand.arithmetic number).map fun n => -n
  | .binary .add lhs rhs _ => do return (← lhs.arithmetic number) + (← rhs.arithmetic number)
  | .binary .sub lhs rhs _ => do return (← lhs.arithmetic number) - (← rhs.arithmetic number)
  | .binary .mul lhs rhs _ => do return (← lhs.arithmetic number) * (← rhs.arithmetic number)
  | .name spelling _ => number spelling
  | _ => none

/-- The number of a name among constants, the last one first: the value of the constant, with earlier constants in it. -/
def numberAmong : List (ConstantDecl DataType) → String → Option Int
  | [], _ => none
  | decl :: earlier, spelling =>
    if Text.lower spelling = Text.lower decl.name then decl.value.arithmetic (numberAmong earlier)
    else numberAmong earlier spelling

/-- The number of a name where the value of each constant is looked up when it is met, so many times at most. -/
def numberBy (constants : List (ConstantDecl DataType)) : Nat → String → Option Int
  | 0, _ => none
  | steps + 1, spelling =>
    (constants.find? fun decl => Text.lower spelling = Text.lower decl.name).bind fun decl =>
      decl.value.arithmetic (numberBy constants steps)

theorem Expr.arithmetic_congr {expr : Expr} {number other : String → Option Int}
    (same : ∀ spelling line, .name spelling line ∈ expr.nodes → number spelling = other spelling) :
    expr.arithmetic number = expr.arithmetic other := by
  induction expr using Expr.induction with
  | name spelling line => exact same spelling line (mem_nodes_self _)
  | literal digits line => cases digits <;> rfl
  | binary op lhs rhs line inLeft inRight =>
    have left := inLeft fun spelling line member => same spelling line (by simp [nodes, member])
    have right := inRight fun spelling line member => same spelling line (by simp [nodes, member])
    cases op <;> simp [arithmetic, left, right]
  | unary op operand line inOperand =>
    have inside := inOperand fun spelling line member => same spelling line (by simp [nodes, member])
    cases op <;> simp [arithmetic, inside]
  | _ => rfl

/-- Following values ends at the number of a name, if the value of a constant names no constant but earlier ones. -/
theorem numberBy_eq {constants later earlier : List (ConstantDecl DataType)}
    (inOrder : ∀ later decl earlier, constants = later ++ decl :: earlier →
      ∀ spelling line, .name spelling line ∈ decl.value.nodes →
        ∀ other ∈ decl :: later, Text.lower spelling ≠ Text.lower other.name)
    (split : constants = later ++ earlier) (enough : earlier.length ≤ steps)
    (free : ∀ decl ∈ later, Text.lower spelling ≠ Text.lower decl.name) :
    numberBy constants steps spelling = numberAmong earlier spelling := by
  induction earlier generalizing later spelling steps with
  | nil =>
    cases steps with
    | zero => rfl
    | succ steps =>
      have absent : constants.find? (fun decl => Text.lower spelling = Text.lower decl.name) = none := by
        simpa [split] using free
      rw [numberBy, absent, numberAmong, Option.bind_none]
  | cons decl earlier ih =>
    have next : constants = later ++ [decl] ++ earlier := split.trans (List.append_cons ..)
    rw [numberAmong]
    by_cases isName : Text.lower spelling = Text.lower decl.name
    · obtain ⟨steps, rfl⟩ := Nat.exists_eq_add_of_lt enough
      have found : constants.find? (fun decl => Text.lower spelling = Text.lower decl.name) = some decl := by
        rw [split, List.find?_append, List.find?_eq_none.mpr (by simpa using free)]
        simp [isName]
      rw [if_pos isName, numberBy, found, Option.bind_some]
      refine Expr.arithmetic_congr fun name line member => ih next (by omega) fun other isLater => ?_
      exact inOrder later decl earlier split name line member other (by simpa [or_comm] using isLater)
    · rw [if_neg isName]
      refine ih next (by simp at enough; omega) fun other isLater => ?_
      obtain inLater | isDecl := List.mem_append.mp isLater
      · exact free other inLater
      · exact List.mem_singleton.mp isDecl ▸ isName

def Symbol.number (symbol : Symbol) : Option Int := if symbol.role = .constant then symbol.static else none

/-- The names of a scope have the numbers that they have among some constants. -/
def Scope.Counts (scope : Scope) (constants : List (ConstantDecl DataType)) : Prop :=
  ∀ spelling, (scope.lookup spelling).bind Symbol.number = numberAmong constants spelling

namespace Scope.Counts

variable {scope before after : Scope} {constants : List (ConstantDecl DataType)}

theorem static?_eq (counts : scope.Counts constants) (expr : Expr) :
    scope.static? expr = expr.arithmetic (numberAmong constants) := by
  induction expr using Expr.induction with
  | name spelling line =>
    rw [Scope.static?, Expr.arithmetic, ← counts]
    cases scope.lookup spelling <;> rfl
  | literal digits line => cases digits <;> rfl
  | binary op lhs rhs line inLeft inRight => cases op <;> simp [Scope.static?, Expr.arithmetic, inLeft, inRight]
  | unary op operand line inOperand => cases op <;> simp [Scope.static?, Expr.arithmetic, inOperand]
  | _ => rfl

theorem add (counts : before.Counts constants) (adds : before.Adds symbol after) (other : symbol.role ≠ .constant) :
    after.Counts constants := by
  intro spelling
  rw [adds.lookup, ← counts]
  split
  · rename_i same
    rw [Scope.lookup_congr before same, adds.new, Option.bind_some, Symbol.number, if_neg other]
    rfl
  · rfl

theorem constant (counts : before.Counts constants)
    (ok : (Lowering.constant decl before).result = .ok (lowered, after)) : after.Counts (lowered :: constants) := by
  obtain ⟨sameName, _, adds⟩ := Adds.constant ok
  intro spelling
  rw [adds.lookup, numberAmong, sameName, ← counts, ← counts.static?_eq]
  split <;> rfl

theorem run {α β : Type} {step : α → Lowering β} {items : List α} {values : List β}
    {symbol : α → β → Scope → Symbol}
    (adds : ∀ item value before after, (step item before).result = .ok (value, after) →
      before.Adds (symbol item value before) after)
    (other : ∀ item value before, (symbol item value before).role ≠ .constant) (counts : before.Counts constants)
    (ok : (items.mapM step before).result = .ok (values, after)) : after.Counts constants :=
  mapM_run (motive := fun _ _ scope => scope.Counts constants)
    (fun _ _ item value _ _ counts ok => counts.add (adds item value _ _ ok) (other item value _)) counts ok

theorem enum (counts : before.Counts constants) (ok : (Lowering.enum decl before).result = .ok (⟨⟩, after)) :
    after.Counts constants :=
  forM_run (motive := fun _ scope => scope.Counts constants)
    (fun _ _ _ _ counts ok => counts.add (.of_declare ok) (by simp)) (fun spelling => counts spelling)
    (Lowering.enum_eq_ok ok)

end Scope.Counts

/-- A statement leaves the names of its design as they are. -/
theorem Lowering.concurrent_globals (ok : (Lowering.concurrent stmt before).result = .ok (lowered, after)) :
    after.globals = before.globals := by
  cases concurrent_eq_ok ok with
  | process blockOk =>
    obtain ⟨inside, varsOk, _, _, _, rfl⟩ := processBlock_eq_ok blockOk
    refine mapM_run (motive := fun _ _ scope => scope.globals = before.globals) ?_ rfl varsOk
    intro _ _ decl lowered state after same ok
    obtain ⟨_, _, _, _, _, _, _, _, rfl⟩ := variableDecl_eq_ok ok
    exact same
  | _ => rfl

theorem Symbols.eq_empty {symbols : Symbols} (none : symbols.declared = []) : symbols = .empty := by
  obtain ⟨entries, keyed⟩ := symbols
  have none : entries = [] := by simpa [declared] using none
  subst none
  rfl

/-- The scopes of a run are those after some of the declarations of a unit, some of its statements and some variables
of a process. In each of them an expression has the number that it has among the constants so far, and looking up the
values of constants in that scope ends there; the value of a constant names no constant but earlier ones, and a vector
lies between two such numbers, the lesser one below. -/
theorem static_bounds_evaluate {entity : Entity TypeMark} {body : Architecture TypeMark} {block : ProcessBlock TypeMark}
    {scope : Scope} (portsOk : (entity.ports.mapM Lowering.port .empty).result = .ok (ports, first))
    (enumsOk : (body.enums.forM Lowering.enum first).result = .ok (⟨⟩, second))
    (constantsOk : (body.constants.mapM Lowering.constant second).result = .ok (constants, third))
    (signalsOk : (body.signals.mapM Lowering.signal third).result = .ok (signals, fourth))
    (statementsOk : (body.statements.mapM Lowering.concurrent fourth).result = .ok (statements, fifth))
    (varsOk : (block.vars.mapM Lowering.variableDecl { fifth with locals := .empty }).result = .ok (vars, scope)) :
    (∀ expr, scope.static? expr = expr.arithmetic (numberAmong constants.reverse)) ∧
    (∀ expr steps, constants.length ≤ steps →
      scope.static? expr = expr.arithmetic (numberBy constants.reverse steps)) ∧
    (∀ before decl later, constants = before ++ decl :: later → ∀ spelling line, .name spelling line ∈ decl.value.nodes →
      ∀ other ∈ decl :: later, Text.lower spelling ≠ Text.lower other.name) ∧
    ∀ mark vector, (scope.resolve mark).result = .ok (.vector vector) → vector.low ≤ vector.high ∧
      ∀ signed, Scope.vectorMark? (Text.lower mark.name) = some signed → ∃ bounds left right, mark.bounds = some bounds ∧
        bounds.left.arithmetic (numberAmong constants.reverse) = some left ∧
        bounds.right.arithmetic (numberAmong constants.reverse) = some right ∧
        vector = .between left right signed := by
  have withEnums := enums_run (ports_run portsOk) enumsOk
  obtain ⟨withConstants, inOrder⟩ := constants_run withEnums constantsOk
  have withSignals := (signals_run withConstants signalsOk).1
  have ofPorts : first.Counts [] := .run (fun _ _ _ _ ok => (Scope.Adds.port ok).2.2) (by simp) (fun _ => rfl) portsOk
  have ofEnums : second.Counts [] :=
    forM_run (motive := fun _ scope => scope.Counts []) (fun _ _ _ _ counts ok => counts.enum ok) ofPorts enumsOk
  have ofConstants : third.Counts constants.reverse := by
    refine mapM_run (motive := fun _ constants scope => scope.Counts constants.reverse) ?_ ofEnums constantsOk
    intro _ constants _ _ _ _ counts ok
    rw [List.reverse_append]
    exact counts.constant ok
  have ofSignals : fourth.Counts constants.reverse :=
    .run (fun _ _ _ _ ok => (Scope.Adds.signal ok).2.2) (by simp) ofConstants signalsOk
  have inProcess : Scope.Counts { fifth with locals := .empty } constants.reverse := by
    have same := mapM_run (motive := fun _ _ scope => scope.globals = fourth.globals)
      (fun _ _ _ _ _ _ same ok => (Lowering.concurrent_globals ok).trans same) rfl statementsOk
    intro spelling
    rw [← ofSignals, Scope.lookup, Scope.lookup, same, Symbols.eq_empty withSignals.inner]
  have counts : scope.Counts constants.reverse :=
    .run (fun _ _ _ _ ok => (Scope.Adds.variableDecl ok).2.2) (by simp) inProcess varsOk
  have onlyEarlier : ∀ before decl later, constants = before ++ decl :: later →
      ∀ spelling line, .name spelling line ∈ decl.value.nodes →
        ∀ other ∈ decl :: later, Text.lower spelling ≠ Text.lower other.name := by
    intro before decl later split spelling line member other isLater same
    obtain ⟨info, declared⟩ := ((inOrder before decl later split).of_mem_nodes member).self
    have distinct := withConstants.distinct
    rw [List.append_nil, split, constantInfos, List.map_append, ← List.append_assoc, keys_append] at distinct
    refine (List.nodup_append.mp distinct).2.2 _ (List.mem_map_of_mem declared) _ ?_ same
    exact List.mem_map.mpr ⟨_, List.mem_map_of_mem isLater, rfl⟩
  refine ⟨counts.static?_eq, fun expr steps enough => ?_, onlyEarlier,
    fun mark vector ok => ⟨vector.ordered, fun signed isVector => ?_⟩⟩
  · have all : constants.reverse = [] ++ constants.reverse := rfl
    rw [counts.static?_eq]
    refine Expr.arithmetic_congr fun spelling line _ => (numberBy_eq ?_ all (by simpa) (by simp)).symm
    intro later decl earlier split spelling line member other isLater
    refine onlyEarlier earlier.reverse decl later.reverse ?_ spelling line member other (by simpa using isLater)
    rw [← List.reverse_reverse constants, split]
    simp
  · cases Scope.resolve_eq_ok ok with
    | plain _ notVector => simp [notVector] at isVector
    | vector same isBounds isLeft isRight =>
      cases same.symm.trans isVector
      rw [counts.static?_eq] at isLeft isRight
      exact ⟨_, _, _, isBounds, isLeft, isRight, rfl⟩

def boundsEntity : Entity TypeMark := ⟨"e", [], 1⟩

/-- `constant n : natural := 4` and `constant m : natural := 2 * N - 1` -/
def boundsBody : Architecture TypeMark where
  name := "a"
  entityName := "e"
  signals := []
  constants := [⟨"n", ⟨"natural", none, 1⟩, .literal (.decimal "4") 1, 1⟩,
    ⟨"m", ⟨"natural", none, 2⟩, .binary .sub (.binary .mul (.literal (.decimal "2") 2) (.name "N" 2) 2)
      (.literal (.decimal "1") 2) 2, 2⟩]
  enums := []
  statements := []
  line := 1

def boundsProcess : ProcessBlock TypeMark := ⟨none, .all, [], [], 3⟩

theorem bounds_of_boundsBody :
    ∃ constants scope, (boundsBody.constants.mapM Lowering.constant .empty).result = .ok (constants, scope) ∧
      (∀ expr, scope.static? expr = expr.arithmetic (numberAmong constants.reverse)) ∧
      (Expr.name "M" 3).arithmetic (numberAmong constants.reverse) = some 7 := by
  have portsOk : (boundsEntity.ports.mapM Lowering.port .empty).result = .ok ([], .empty) := rfl
  have enumsOk : (boundsBody.enums.forM Lowering.enum .empty).result = .ok (⟨⟩, .empty) := rfl
  have varsOk (scope : Scope) : (boundsProcess.vars.mapM Lowering.variableDecl scope).result = .ok ([], scope) := rfl
  exact ⟨_, _, rfl, (static_bounds_evaluate portsOk enumsOk rfl rfl rfl (varsOk _)).1, rfl⟩

end RtlBridge.Vhdl

import RtlBridge.Proofs.Vhdl.Drivers
import RtlBridge.Proofs.Vhdl.LoweringSteps

/-! What a lowered design declares, and which names stand where. Every name is declared once, whatever its
letter case, and is used only where its declaration is in scope; assignments are to names that take
them. -/

namespace RtlBridge

open List (append_assoc append_nil forall_mem_append forall_mem_flatMap forall_mem_nil map_append map_map map_nil mem_append
  mem_append_left mem_flatMap mem_map mem_singleton nil_append not_mem_nil)

/-- Whether a name is assigned at once, as variables are, or later, as ports and signals are. -/
def Role.takes : Role → Bool → Bool
  | .var, immediate => immediate
  | .port, immediate => !immediate
  | .signal, immediate => !immediate
  | .constant, _ => false
  | .enumLiteral, _ => false

def EachAfter {α : Type} (fits : List α → α → Prop) (list : List α) : Prop :=
  ∀ before element after, list = before ++ element :: after → fits before element

namespace EachAfter

variable {α : Type} {fits : List α → α → Prop} {list : List α}

theorem nil : EachAfter fits [] := by
  intro before element after split
  cases before <;> cases split

theorem snoc (all : EachAfter fits list) (fit : fits list last) : EachAfter fits (list ++ [last]) := by
  intro before element after split
  rcases List.eq_nil_or_concat after with rfl | ⟨rest, final, rfl⟩
  · obtain ⟨rfl, same⟩ := List.append_inj' split rfl
    cases same
    exact fit
  · have regrouped : list ++ [last] = (before ++ element :: rest) ++ [final] := by
      rw [split]
      simp
    obtain ⟨same, _⟩ := List.append_inj' regrouped rfl
    exact all before element rest same

theorem of_mem (all : EachAfter fits list) (member : element ∈ list) :
    ∃ before after, list = before ++ element :: after ∧ fits before element := by
  obtain ⟨before, after, split⟩ := List.append_of_mem member
  exact ⟨before, after, split, all before element after split⟩

end EachAfter

theorem Table.entries_ofList {κ α : Type} [DecidableEq κ] {entries : List (κ × α)}
    (distinct : (entries.map Prod.fst).Nodup) : (Table.ofList entries).entries = entries := by
  have added (key : κ) (value : α) {done : List (κ × α)} (new : key ∉ done.map Prod.fst) :
      Table.insertInto key value done = done ++ [(key, value)] := by
    induction done with
    | nil => rfl
    | cons first rest ih =>
      obtain ⟨other, later⟩ := not_or.mp (List.mem_cons.not.mp new)
      rw [insertInto, if_neg other, ih later, List.cons_append]
  have gathered (rest : List (κ × α)) (table : Table κ α)
      (distinct : ((table.entries ++ rest).map Prod.fst).Nodup) :
      (rest.foldl (fun table entry => table.insert entry.1 entry.2) table).entries = table.entries ++ rest := by
    induction rest generalizing table with
    | nil => simp
    | cons first others ih =>
      have new : first.1 ∉ table.entries.map Prod.fst := by
        rw [map_append, List.nodup_append] at distinct
        exact fun member => distinct.2.2 _ member _ (List.mem_cons_self ..) rfl
      have inserted : (table.insert first.1 first.2).entries = table.entries ++ [first] := added _ _ new
      rw [List.foldl_cons, ih, inserted, append_assoc, List.singleton_append]
      rwa [inserted, append_assoc, List.singleton_append]
  exact gathered entries .empty (by simpa [Table.empty] using distinct)

namespace Vhdl

/-! ### Declarations -/

def portInfos (ports : List (Port DataType)) : List (String × NameInfo) :=
  ports.map fun port => (port.name, ⟨.port, some port.type⟩)

def literalInfos (enums : List EnumDecl) : List (String × NameInfo) :=
  enums.flatMap fun decl => decl.type.literals.map fun literal => (literal, ⟨.enumLiteral, some (.enum decl.type)⟩)

def constantInfos (decls : List (ConstantDecl DataType)) : List (String × NameInfo) :=
  decls.map fun decl => (decl.name, ⟨.constant, some decl.type⟩)

def objectInfos (role : Role) (decls : List (ObjectDecl DataType)) : List (String × NameInfo) :=
  decls.map fun decl => (decl.name, ⟨role, some decl.type⟩)

/-- What a design declares outside its processes: ports, enumeration literals, constants, signals. -/
def Design.globals (design : Design) : List (String × NameInfo) :=
  portInfos design.entity.ports ++ match design.architecture with
    | none => []
    | some body => literalInfos body.enums ++ constantInfos body.constants ++ objectInfos .signal body.signals

def variableInfos (statements : List (Concurrent DataType)) : List (String × NameInfo) :=
  (statements.filterMap Concurrent.process?).flatMap fun block => objectInfos .var block.vars

theorem Design.globals_of_architecture {design : Design} (is : design.architecture = some body) :
    design.globals = portInfos design.entity.ports ++ literalInfos body.enums ++ constantInfos body.constants ++
      objectInfos .signal body.signals := by
  rw [Design.globals, is]
  simp only [append_assoc]

theorem Design.literal_mem_globals {design : Design} (is : design.architecture = some body) (isDecl : decl ∈ body.enums)
    (isLiteral : name ∈ decl.type.literals) : (name, ⟨.enumLiteral, some (.enum decl.type)⟩) ∈ design.globals := by
  rw [globals, is]
  apply List.mem_append_right
  exact mem_append_left _ (mem_append_left _ (mem_flatMap.mpr ⟨decl, isDecl, List.mem_map_of_mem isLiteral⟩))

theorem variableInfos_of_none (none : stmt.process? = none) : variableInfos [stmt] = [] := by simp [variableInfos, none]

theorem variableInfos_subset (member : stmt ∈ statements) : variableInfos [stmt] ⊆ variableInfos statements := by
  intro entry inside
  simp only [variableInfos, mem_flatMap, List.mem_filterMap, mem_singleton] at inside ⊢
  obtain ⟨block, ⟨_, rfl, isBlock⟩, declared⟩ := inside
  exact ⟨block, ⟨_, member, isBlock⟩, declared⟩

/-- Everything that a design declares, its ports first and its variables last. -/
def Design.declarations (design : Design) : List (String × NameInfo) :=
  design.globals ++ variableInfos design.statements

theorem Design.visible_subset {design : Design} (inDesign : .process block ∈ design.statements) :
    design.globals ++ objectInfos .var block.vars ⊆ design.declarations := by
  intro entry inVisible
  apply mem_append.mpr
  apply (mem_append.mp inVisible).imp_right
  intro own
  apply variableInfos_subset inDesign
  simpa [variableInfos, Concurrent.process?] using own

theorem names_eq_ofList (design : Design) : names design = Table.ofList design.declarations := by
  rw [names, Design.declarations, Design.globals, DesignUnit.statements]
  cases design.architecture with
  | none => simp [portInfos, variableInfos]
  | some body => simp [portInfos, literalInfos, constantInfos, objectInfos, variableInfos, Architecture.processes]

theorem role_of_mem_globals {design : Design} (member : entry ∈ design.globals) : entry.2.role ≠ .var := by
  rw [Design.globals] at member
  cases is : design.architecture with
  | none =>
    simp only [is, append_nil, portInfos, mem_map] at member
    obtain ⟨port, _, rfl⟩ := member
    nofun
  | some body =>
    simp only [is, portInfos, literalInfos, constantInfos, objectInfos, mem_append, mem_map, mem_flatMap] at member
    obtain ⟨_, _, rfl⟩ | (⟨_, _, _, _, rfl⟩ | ⟨_, _, rfl⟩) | ⟨_, _, rfl⟩ := member <;> nofun

def keys (entries : List (String × NameInfo)) : List String := entries.map fun entry => Text.lower entry.1

theorem keys_append (first second : List (String × NameInfo)) : keys (first ++ second) = keys first ++ keys second :=
  map_append

/-! ### Names in expressions and statements -/

/-- A node of an expression that sees some declarations: names are declared, calls are of functions by
their lower-case names with all arguments, an edge is that of a name, and so is an event. -/
def Expr.ScopedNode (visible : List (String × NameInfo)) : Expr → Prop
  | .name spelling _ => ∃ info, (spelling, info) ∈ visible
  | .call function arguments _ =>
    Text.lower function = function ∧ Builtin.arity? function = some arguments.length ∧
      ((Builtin.edge? function).isSome = true → ∃ spelling line, arguments = [.name spelling line])
  | .tick base property _ => property = "event" ∧ base.isName = true
  | _ => True

def Expr.IsScoped (visible : List (String × NameInfo)) : Expr → Prop := All (ScopedNode visible)

theorem Expr.IsScoped.mono {expr : Expr} (isScoped : expr.IsScoped visible) (inside : visible ⊆ more) :
    expr.IsScoped more := by
  refine All.mono (fun node here => ?_) isScoped
  cases node with
  | name spelling line => exact here.imp fun info declared => inside declared
  | _ => exact here

def Target.IsScoped (visible : List (String × NameInfo)) (immediate : Bool) (target : Target) : Prop :=
  (∃ info, (target.name, info) ∈ visible ∧ info.role.takes immediate = true) ∧ target.part.All (Expr.IsScoped visible)

def Stmt.ScopedNode (visible : List (String × NameInfo)) : Stmt → Prop
  | .assign target value immediate _ => target.IsScoped visible immediate ∧ value.IsScoped visible
  | .conditional branches _ _ => ∀ branch ∈ branches, branch.1.IsScoped visible
  | .selection selector arms _ _ => selector.IsScoped visible ∧ ∀ arm ∈ arms, ∀ choice ∈ arm.1, choice.IsScoped visible
  | .captured _ => True

def Stmt.IsScoped (visible : List (String × NameInfo)) : Stmt → Prop := All (ScopedNode visible)

/-- A process sees the names of its design and its own variables; its initial values see the variables
before them. -/
structure ProcessBlock.IsScoped (globals : List (String × NameInfo)) (block : ProcessBlock DataType) : Prop where
  vars : EachAfter (fun before decl =>
    ∀ value ∈ decl.init, value.IsScoped (globals ++ objectInfos .var before)) block.vars
  sensitivity : ∀ listed, block.sensitivity = .listed listed → listed.Nodup ∧
    ∀ name ∈ listed, ∃ info, (name, info) ∈ globals ∧ (info.role = .port ∨ info.role = .signal)
  body : ∀ stmt ∈ block.body, stmt.IsScoped (globals ++ objectInfos .var block.vars)

theorem ProcessBlock.IsScoped.init {block : ProcessBlock DataType} (isScoped : block.IsScoped globals)
    (isVar : decl ∈ block.vars) : ∀ value ∈ decl.init, value.IsScoped (globals ++ objectInfos .var block.vars) := by
  intro value isInit
  obtain ⟨before, after, split, fits⟩ := isScoped.vars.of_mem isVar
  apply (fits value isInit).mono
  simp only [split, objectInfos, map_append, ← append_assoc]
  exact List.subset_append_left ..

def Concurrent.IsScoped (globals : List (String × NameInfo)) : Concurrent DataType → Prop
  | .process block => block.IsScoped globals
  | .assign assignment => assignment.target.IsScoped globals false ∧ assignment.value.IsScoped globals
  | .conditional assignment =>
    assignment.target.IsScoped globals false ∧
      (∀ choice ∈ assignment.choices, choice.1.IsScoped globals ∧ choice.2.IsScoped globals) ∧
      assignment.default.IsScoped globals
  | .captured _ => True

/-- Names are declared once in a design. The value of a constant sees the ports, the enumeration literals
and the constants before it; that of a signal sees all constants and the signals before it. -/
structure Design.IsScoped (design : Design) : Prop where
  distinct : (keys design.declarations).Nodup
  constants : ∀ body ∈ design.architecture, EachAfter (fun before decl => decl.value.IsScoped
    (portInfos design.entity.ports ++ literalInfos body.enums ++ constantInfos before)) body.constants
  signals : ∀ body ∈ design.architecture, EachAfter (fun before decl => ∀ value ∈ decl.init, value.IsScoped
    (portInfos design.entity.ports ++ literalInfos body.enums ++ constantInfos body.constants ++
      objectInfos .signal before)) body.signals
  statements : ∀ stmt ∈ design.statements, stmt.IsScoped design.globals

section

variable {design : Design} {body : Architecture DataType} (isScoped : design.IsScoped)
  (is : design.architecture = some body)

include isScoped is

theorem Design.IsScoped.constant (isConstant : decl ∈ body.constants) : decl.value.IsScoped design.globals := by
  obtain ⟨before, after, split, fits⟩ := (isScoped.constants body is).of_mem isConstant
  apply fits.mono
  simp only [globals_of_architecture is, split, constantInfos, map_append, ← append_assoc]
  exact fun entry inside => mem_append_left _ (mem_append_left _ inside)

theorem Design.IsScoped.signal (isSignal : decl ∈ body.signals) : ∀ value ∈ decl.init, value.IsScoped design.globals := by
  intro value isInit
  obtain ⟨before, after, split, fits⟩ := (isScoped.signals body is).of_mem isSignal
  apply (fits value isInit).mono
  simp only [globals_of_architecture is, split, objectInfos, map_append, ← append_assoc]
  exact List.subset_append_left ..

theorem Design.IsScoped.object (member : decl ∈ body.signals ++ body.processes.flatMap (·.vars)) :
    ∀ value ∈ decl.init, value.IsScoped design.declarations := by
  intro value isInit
  rcases mem_append.mp member with isSignal | isVar
  · exact (isScoped.signal is isSignal value isInit).mono (List.subset_append_left ..)
  · obtain ⟨block, isProcess, isVar⟩ := mem_flatMap.mp isVar
    have inDesign := DesignUnit.mem_statements.mpr ⟨body, is, Architecture.mem_processes.mp isProcess⟩
    have blockScoped : block.IsScoped design.globals := isScoped.statements _ inDesign
    exact (blockScoped.init isVar value isInit).mono (visible_subset inDesign)

end

/-! ### Lowering expressions and statements -/

def Symbol.entry (symbol : Symbol) : String × NameInfo := (symbol.name, ⟨symbol.role, symbol.type⟩)

def Scope.Sees (scope : Scope) (visible : List (String × NameInfo)) : Prop :=
  ∀ name symbol, scope.lookup name = some symbol → symbol.entry ∈ visible

theorem Builtin.lower_of_arity? (is : arity? function = some arity) : Text.lower function = function := by
  have lowercase : ∀ name ∈ ["rising_edge", "falling_edge", "std_logic_vector", "std_ulogic_vector", "unsigned",
      "signed", "to_integer", "conv_integer", "to_stdlogicvector", "to_unsigned", "to_signed", "resize",
      "conv_std_logic_vector", "shift_left", "shift_right"], Text.lower name = name := by decide +kernel
  by_contra other
  have none : arity? function = none := by
    have differs {name : String} (same : Text.lower name = name) : function ≠ name := fun is => other (is ▸ same)
    simp only [List.forall_mem_cons] at lowercase
    simp [arity?, sizedConversion?, shift?, edge?, conversion?, differs, lowercase]
  rw [none] at is
  cases is

theorem edge_of_checkCall (ok : checkCall function arguments line = .ok ⟨⟩)
    (isEdge : (Builtin.edge? (Text.lower function)).isSome = true) :
    ∃ spelling place, arguments = [.name spelling place] := by
  unfold checkCall at ok
  dsimp only at ok
  split at ok
  · cases ok
  · split at ok
    · cases ok
    · rw [isEdge] at ok
      split at ok
      · exact ⟨_, _, rfl⟩
      · cases ok
      · rename_i impossible _
        cases impossible

section

variable {scope : Scope} {owner : Option String} {visible : List (String × NameInfo)}

theorem Expr.lower_isScoped (sees : scope.Sees visible) (expr : Expr) (ok : expr.lower scope owner = .ok lowered)
    : lowered.IsScoped visible := by
  refine all_of_lower (fun _ _ _ found => ⟨_, sees _ _ found⟩) (fun expr lowered _ lowers => ?_) expr
    (all_of_forall (fun _ => trivial) expr) ok
  cases lowers with
  | name found => exact ⟨_, sees _ _ found⟩
  | call checked resultOk =>
    have arity := arity?_of_checkCall checked
    rw [resultOk.length_eq] at arity
    refine ⟨Builtin.lower_of_arity? arity, arity, fun isEdge => ?_⟩
    obtain ⟨spelling, place, rfl⟩ := edge_of_checkCall checked isEdge
    cases resultOk with
    | cons nameOk none =>
      cases none
      cases lower_eq_ok nameOk with
      | name found => exact ⟨_, _, rfl⟩
  | event baseOk => exact ⟨rfl, rfl⟩
  | _ => trivial

theorem Target.lower_isScoped (sees : scope.Sees visible) {target : Target}
    (ok : target.lower scope = .ok (lowered, symbol)) :
    (lowered.name, symbol.entry.2) ∈ visible ∧ lowered.part.All (Expr.IsScoped visible) := by
  obtain ⟨found, same, inPart⟩ := Target.lower_eq_ok ok
  rw [same]
  exact ⟨sees _ _ found, inPart (fun expr _ _ => Expr.lower_isScoped sees expr) (Part.all_of_forall (fun _ => trivial) _)⟩

theorem takes_of_checkAssignment {symbol : Symbol} (ok : symbol.checkAssignment immediate line = .ok ⟨⟩)
    : symbol.role.takes immediate = true := by
  unfold Symbol.checkAssignment Symbol.checkAssignable at ok
  cases is : symbol.role <;> cases immediate <;>
    simp_all [Role.takes, bind, Except.bind, throw, throwThe, MonadExceptOf.throw]

theorem takes_of_checkAssignable {symbol : Symbol} (ok : symbol.checkAssignable line = .ok ⟨⟩)
    (outer : symbol.role ≠ .var) : symbol.role.takes false = true := by
  unfold Symbol.checkAssignable at ok
  cases is : symbol.role <;> simp_all [Role.takes]

theorem Stmt.lower_isScoped (sees : scope.Sees visible) (stmt : Stmt) (ok : stmt.lower scope = .ok lowered)
    : lowered.IsScoped visible := by
  have inExprs (expr : Expr) (_ : True) {lowered : Expr} (ok : expr.lower scope none = .ok lowered) :
      lowered.IsScoped visible := Expr.lower_isScoped sees expr ok
  refine Stmt.all_of_lower (fun stmt lowered _ lowers => ?_) stmt (Stmt.all_of_forall (fun _ => trivial) stmt) ok
  have uses := Stmt.usesNode_of_lower inExprs (Stmt.usesNode_of_forall (fun _ => trivial) stmt) lowers
  cases lowers with
  | assign placeOk innerOk checked =>
    exact ⟨⟨⟨_, (Target.lower_isScoped sees placeOk).1, takes_of_checkAssignment checked⟩, uses.1⟩, uses.2⟩
  | _ => exact uses

end

/-! ### Lowering declarations -/

def Symbols.declared (symbols : Symbols) : List (String × NameInfo) :=
  symbols.entries.reverse.map fun entry => entry.2.entry

theorem Symbols.declared_insert (symbols : Symbols) (symbol : Symbol) :
    (symbols.insert symbol).declared = symbols.declared ++ [symbol.entry] := by simp [declared, insert]

theorem Symbols.find?_eq_none {symbols : Symbols} (none : symbols.find? key = none) : key ∉ keys symbols.declared := by
  rw [find?, List.lookup_eq_none_iff] at none
  intro member
  simp only [keys, declared, map_map, mem_map, List.mem_reverse] at member
  obtain ⟨entry, inside, same⟩ := member
  have isKey := symbols.keyed entry inside
  have other := none entry inside
  simp_all [Symbol.entry]

/-- What a scope has come to: the names of the design and the variables of the process at hand, in the
order of their declarations, and the variables of all processes so far. -/
structure Scope.Models (scope : Scope) (globals locals vars : List (String × NameInfo)) : Prop where
  outer : scope.globals.declared = globals
  inner : scope.locals.declared = locals
  taken : ∀ key ∈ keys vars, key ∈ scope.variableKeys
  distinct : (keys (globals ++ vars)).Nodup

theorem nodup_keys_snoc (distinct : (keys entries).Nodup) (new : Text.lower entry.1 ∉ keys entries)
    : (keys (entries ++ [entry])).Nodup := by
  rw [keys_append]
  refine List.nodup_append.mpr ⟨distinct, List.nodup_singleton _, ?_⟩
  rintro key member _ isLast rfl
  rw [mem_singleton.mp isLast] at member
  exact new member

namespace Scope.Models

variable {scope after : Scope} {globals locals vars : List (String × NameInfo)}

theorem empty : Scope.empty.Models [] [] [] := ⟨rfl, rfl, nofun, .nil⟩

theorem sees (models : scope.Models globals locals vars) : scope.Sees (globals ++ locals) := by
  intro name symbol found
  rw [← models.outer, ← models.inner]
  simp only [Symbols.declared, mem_append, mem_map, List.mem_reverse]
  rcases mem_of_lookup found with inner | outer
  · exact .inr ⟨_, inner, rfl⟩
  · exact .inl ⟨_, outer, rfl⟩

theorem declare (models : scope.Models globals [] [])
    (ok : (Lowering.declare line symbol scope).result = .ok (value, after)) :
    after.Models (globals ++ [symbol.entry]) [] [] := by
  obtain ⟨new, _, rfl⟩ := Lowering.declare_eq_ok ok
  refine ⟨?_, models.inner, nofun, ?_⟩
  · rw [Symbols.declared_insert, models.outer]
  · have distinct := models.distinct
    have absent := Symbols.find?_eq_none new
    rw [append_nil] at distinct ⊢
    rw [models.outer] at absent
    exact nodup_keys_snoc distinct absent

theorem enum (models : scope.Models globals [] []) (ok : (Lowering.enum decl scope).result = .ok (value, after)) :
    after.Models (globals ++ literalInfos [decl]) [] [] := by
  have started : Scope.Models { scope with enums := (Text.lower decl.type.name, decl.type) :: scope.enums }
      (globals ++ []) [] [] := by
    rw [append_nil]
    exact ⟨models.outer, models.inner, models.taken, models.distinct⟩
  have run := forM_run (motive := fun literals state => state.Models (globals ++ literals.map fun literal =>
    (literal, ⟨.enumLiteral, some (.enum decl.type)⟩)) [] []) (fun literals literal state after models ok => by
      rw [map_append, ← append_assoc]
      exact models.declare ok) started (Lowering.enum_eq_ok ok)
  simpa [literalInfos] using run

theorem declareVariable (models : scope.Models globals locals vars)
    (ok : (Lowering.variableDecl decl scope).result = .ok (lowered, after)) :
    after.Models globals (locals ++ objectInfos .var [lowered]) (vars ++ objectInfos .var [lowered]) ∧
      ∀ value ∈ lowered.init, value.IsScoped (globals ++ locals) := by
  obtain ⟨type, init, _, newVariable, newName, _, initOk, rfl, rfl⟩ := Lowering.variableDecl_eq_ok ok
  refine ⟨⟨models.outer, ?_, ?_, ?_⟩, fun value member => ?_⟩
  · rw [Scope.declareVariable, Symbols.declared_insert, models.inner]
    rfl
  · intro key member
    rw [keys_append] at member
    rcases mem_append.mp member with before | here
    · exact List.mem_cons_of_mem _ (models.taken key before)
    · rw [mem_singleton.mp here]
      exact List.mem_cons_self ..
  · rw [← append_assoc]
    refine nodup_keys_snoc models.distinct fun member => ?_
    rw [keys_append] at member
    rcases mem_append.mp member with outer | inner
    · rw [← models.outer] at outer
      exact Symbols.find?_eq_none newName outer
    · exact newVariable (models.taken _ inner)
  · obtain ⟨source, _, sourceOk⟩ := initOk value member
    have sees : Scope.Sees { scope with variableKeys := Text.lower decl.name :: scope.variableKeys }
        (globals ++ locals) := models.sees
    exact Expr.lower_isScoped sees source sourceOk

theorem leave (models : scope.Models globals locals vars) :
    Scope.Models { scope with locals := .empty } globals [] vars := ⟨models.outer, rfl, models.taken, models.distinct⟩

theorem declareVariables (models : scope.Models globals [] vars) {decls : List (ObjectDecl TypeMark)}
    (ok : (decls.mapM Lowering.variableDecl scope).result = .ok (lowered, after)) :
    after.Models globals (objectInfos .var lowered) (vars ++ objectInfos .var lowered) ∧ EachAfter (fun before decl =>
        ∀ value ∈ decl.init, value.IsScoped (globals ++ objectInfos .var before)) lowered := by
  refine mapM_run ?_ ?_ ok
  · rintro _ done decl value state after ⟨models, each⟩ ok
    obtain ⟨further, isScoped⟩ := models.declareVariable ok
    rw [objectInfos, map_append, ← append_assoc]
    exact ⟨further, each.snoc isScoped⟩
  · rw [objectInfos, map_nil, append_nil]
    exact ⟨models, .nil⟩

theorem process (models : scope.Models globals [] vars)
    (ok : (Lowering.processBlock block scope).result = .ok (lowered, after)) :
    after.Models globals [] (vars ++ objectInfos .var lowered.vars) ∧ lowered.IsScoped globals := by
  obtain ⟨inside, varsOk, _, sensitivity, bodyOk, rfl⟩ := Lowering.processBlock_eq_ok ok
  obtain ⟨models, each⟩ := models.leave.declareVariables varsOk
  refine ⟨models.leave, each, fun listed is => ?_, fun stmt member => ?_⟩
  · obtain ⟨names, listedOk⟩ := sensitivity listed is
    refine (Lowering.sensitivity_eq_ok _ (fun name symbol found role => ?_) .nil nofun listedOk).1
    -- What is found with another role than that of a variable is a name of the design.
    rcases mem_append.mp (models.sees name symbol found) with outer | inner
    · exact ⟨_, outer, role⟩
    · obtain ⟨decl, _, same⟩ := mem_map.mp inner
      have isVar : symbol.role = .var := congrArg (fun entry => entry.2.role) same.symm
      rw [isVar] at role
      rcases role with impossible | impossible <;> cases impossible
  · obtain ⟨source, _, sourceOk⟩ := source_of_mem (lowerBody_eq_ok bodyOk) member
    exact Stmt.lower_isScoped models.sees source sourceOk

theorem concurrent (models : scope.Models globals [] vars) (outer : ∀ entry ∈ globals, entry.2.role ≠ .var)
    (ok : (Lowering.concurrent stmt scope).result = .ok (lowered, after)) :
    after.Models globals [] (vars ++ variableInfos [lowered]) ∧ lowered.IsScoped globals := by
  have sees : scope.Sees globals := by
    rw [← append_nil globals]
    exact models.sees
  have placed {target place : Target} {symbol : Symbol} {line : Nat}
      (placeOk : target.lower scope = .ok (place, symbol)) (checked : symbol.checkAssignable line = .ok ⟨⟩) :
      place.IsScoped globals false := by
    obtain ⟨declared, inPart⟩ := Target.lower_isScoped sees placeOk
    exact ⟨⟨_, declared, takes_of_checkAssignable checked (outer _ declared)⟩, inPart⟩
  cases Lowering.concurrent_eq_ok ok with
  | process blockOk => simpa [variableInfos, Concurrent.process?, Concurrent.IsScoped] using models.process blockOk
  | assign targetOk valueOk checked =>
    rw [variableInfos_of_none rfl, append_nil]
    exact ⟨models, placed targetOk checked, Expr.lower_isScoped sees _ valueOk⟩
  | conditional targetOk pairsOk defaultOk checked =>
    rw [variableInfos_of_none rfl, append_nil]
    refine ⟨models, placed targetOk checked, fun pair member => ?_, Expr.lower_isScoped sees _ defaultOk⟩
    obtain ⟨source, _, first, second⟩ := source_of_mem (Lowering.choices_eq_ok pairsOk) member
    exact ⟨Expr.lower_isScoped sees _ first, Expr.lower_isScoped sees _ second⟩
  | captured =>
    rw [variableInfos_of_none rfl, append_nil]
    exact ⟨models, trivial⟩

end Scope.Models

/-! ### Lowering designs -/

theorem variableInfos_snoc (statements : List (Concurrent DataType)) (stmt : Concurrent DataType) :
    variableInfos (statements ++ [stmt]) = variableInfos statements ++ variableInfos [stmt] := by
  rw [variableInfos, List.filterMap_append, List.flatMap_append]
  rfl

theorem ports_run {ports : List (Port TypeMark)}
    (ok : (ports.mapM Lowering.port Scope.empty).result = .ok (lowered, after)) :
    after.Models (portInfos lowered) [] [] := by
  refine mapM_run ?_ Scope.Models.empty ok
  intro _ done port value state after models ok
  obtain ⟨type, _, rfl, declared⟩ := Lowering.port_eq_ok ok
  rw [portInfos, map_append]
  exact models.declare declared

theorem enums_run (models : scope.Models globals [] []) {enums : List EnumDecl}
    (ok : (enums.forM Lowering.enum scope).result = .ok (value, after)) :
    after.Models (globals ++ literalInfos enums) [] [] := by
  refine forM_run ?_ ?_ ok
  · intro done decl state after models ok
    rw [literalInfos, List.flatMap_append, ← append_assoc]
    exact models.enum ok
  · rw [literalInfos, List.flatMap_nil, append_nil]
    exact models

theorem constants_run (models : scope.Models globals [] []) {decls : List (ConstantDecl TypeMark)}
    (ok : (decls.mapM Lowering.constant scope).result = .ok (lowered, after)) :
    after.Models (globals ++ constantInfos lowered) [] [] ∧
      EachAfter (fun before decl => decl.value.IsScoped (globals ++ constantInfos before)) lowered := by
  refine mapM_run ?_ ?_ ok
  · rintro _ done decl _ state after ⟨models, each⟩ ok
    obtain ⟨type, value, _, valueOk, rfl, declared⟩ := Lowering.constant_eq_ok ok
    have isScoped := Expr.lower_isScoped models.sees _ valueOk
    rw [append_nil] at isScoped
    rw [constantInfos, map_append, ← append_assoc]
    exact ⟨models.declare declared, each.snoc isScoped⟩
  · rw [constantInfos, map_nil, append_nil]
    exact ⟨models, .nil⟩

theorem signals_run (models : scope.Models globals [] []) {decls : List (ObjectDecl TypeMark)}
    (ok : (decls.mapM Lowering.signal scope).result = .ok (lowered, after)) :
    after.Models (globals ++ objectInfos .signal lowered) [] [] ∧ EachAfter (fun before decl =>
      ∀ value ∈ decl.init, value.IsScoped (globals ++ objectInfos .signal before)) lowered := by
  refine mapM_run ?_ ?_ ok
  · rintro _ done decl _ state after ⟨models, each⟩ ok
    obtain ⟨type, init, _, initOk, rfl, declared⟩ := Lowering.signal_eq_ok ok
    rw [objectInfos, map_append, ← append_assoc]
    refine ⟨models.declare declared, each.snoc fun value member => ?_⟩
    obtain ⟨source, _, sourceOk⟩ := initOk value member
    have isScoped := Expr.lower_isScoped models.sees _ sourceOk
    rwa [append_nil] at isScoped
  · rw [objectInfos, map_nil, append_nil]
    exact ⟨models, .nil⟩

theorem statements_run (models : scope.Models globals [] []) (outer : ∀ entry ∈ globals, entry.2.role ≠ .var)
    {stmts : List (Concurrent TypeMark)} (ok : (stmts.mapM Lowering.concurrent scope).result = .ok (lowered, after)) :
    after.Models globals [] (variableInfos lowered) ∧ ∀ stmt ∈ lowered, stmt.IsScoped globals := by
  refine mapM_run ?_ ⟨models, nofun⟩ ok
  rintro _ done stmt value state after ⟨models, each⟩ ok
  obtain ⟨further, isScoped⟩ := models.concurrent outer ok
  rw [variableInfos_snoc]
  refine ⟨further, fun stmt member => ?_⟩
  rcases mem_append.mp member with before | last
  · exact each stmt before
  · rwa [mem_singleton.mp last]

theorem isScoped_of_unit (ok : (Lowering.unit parsed Scope.empty).result = .ok (design, after)) : design.IsScoped := by
  obtain ⟨scope, portsOk, _, rest⟩ := Lowering.unit_eq_ok ok
  have withPorts := ports_run portsOk
  rcases rest with ⟨_, is, rfl⟩ | ⟨body, lowered, _, is, bodyOk⟩
  · constructor
    case distinct =>
      simpa [Design.declarations, Design.globals, DesignUnit.statements, variableInfos, is] using withPorts.distinct
    all_goals simp [DesignUnit.statements, is]
  · obtain ⟨_, _, _, enumsOk, constantsOk, signalsOk, stmtsOk, sameEnums⟩ := Lowering.architecture_eq_ok bodyOk
    have withEnums := enums_run withPorts enumsOk
    obtain ⟨withConstants, constantsEach⟩ := constants_run withEnums constantsOk
    obtain ⟨withSignals, signalsEach⟩ := signals_run withConstants signalsOk
    have isGlobals := Design.globals_of_architecture is
    rw [sameEnums] at isGlobals
    have isStatements : design.statements = lowered.statements := by
      rw [DesignUnit.statements, is]
      rfl
    rw [← isGlobals] at withSignals
    obtain ⟨withStatements, stmtsEach⟩ := statements_run withSignals (fun _ => role_of_mem_globals) stmtsOk
    rw [← isStatements] at withStatements stmtsEach
    refine ⟨withStatements.distinct, ?_, ?_, stmtsEach⟩
    · intro other same
      cases Option.some.inj (is.symm.trans same)
      rwa [sameEnums]
    · intro other same
      cases Option.some.inj (is.symm.trans same)
      rwa [sameEnums]

/-! ### Where names stand -/

/-- An expression that is a declared name, or none at all. -/
def Expr.IsVisible (visible : List (String × NameInfo)) (node : Expr) : Prop :=
  ∀ spelling line, node = .name spelling line → ∃ info, (spelling, info) ∈ visible

theorem Expr.IsScoped.areVisible {expr : Expr} (isScoped : expr.IsScoped visible) :
    ∀ node ∈ expr.nodes, node.IsVisible visible := by
  rintro _ member spelling line rfl
  exact (isScoped.of_mem_nodes member).self

theorem Target.IsScoped.areVisible {target : Target} (isScoped : target.IsScoped visible immediate) :
    ∀ node ∈ target.toExpr.nodes, node.IsVisible visible := by
  obtain ⟨⟨info, declared, _⟩, inPart⟩ := isScoped
  refine target.forall_mem_nodes (fun part spelling line same => ?_) (inPart.mono fun _ => Expr.IsScoped.areVisible)
  cases part with
  | whole =>
    cases same
    exact ⟨info, declared⟩
  | element subscript => cases same
  | range left right => cases same

theorem Stmt.IsScoped.areVisible {stmt : Stmt} (isScoped : stmt.IsScoped visible) :
    ∀ node ∈ stmt.nodes, node.IsVisible visible := by
  refine stmt.forall_mem_nodes_of_own (Stmt.All.mono (fun inner own => ?_) isScoped)
  cases inner with
  | assign target value immediate line =>
    rw [ownNodes, forall_mem_append]
    exact ⟨own.1.areVisible, own.2.areVisible⟩
  | conditional branches otherwise line =>
    rw [ownNodes, forall_mem_flatMap]
    exact fun branch member => (own branch member).areVisible
  | selection selector arms default line =>
    simp only [ownNodes, forall_mem_append, forall_mem_flatMap]
    exact ⟨own.1.areVisible, fun arm member choice inArm => (own.2 arm member choice inArm).areVisible⟩
  | captured statement => exact forall_mem_nil _

theorem Concurrent.IsScoped.areVisible {stmt : Concurrent DataType} (isScoped : stmt.IsScoped globals) :
    ∀ node ∈ stmt.nodes fun _ => [], node.IsVisible (globals ++ variableInfos [stmt]) := by
  cases stmt with
  | process block =>
    have own : variableInfos [.process block] = objectInfos .var block.vars := by
      simp [variableInfos, Concurrent.process?]
    simp only [own, nodes, ObjectDecl.nodes, nil_append, forall_mem_append, forall_mem_flatMap, Option.mem_toList]
    refine ⟨fun decl isVar value isInit => ?_, fun inner isInner => ?_⟩
    · exact (isScoped.init isVar value isInit).areVisible
    · exact (isScoped.body inner isInner).areVisible
  | assign assignment =>
    rw [variableInfos_of_none rfl, append_nil, nodes, forall_mem_append]
    exact ⟨isScoped.1.areVisible, isScoped.2.areVisible⟩
  | conditional assignment =>
    obtain ⟨target, choices, default⟩ := isScoped
    rw [variableInfos_of_none rfl, append_nil]
    simp only [nodes, forall_mem_append, forall_mem_flatMap]
    refine ⟨⟨target.areVisible, fun choice isChoice => ?_⟩, default.areVisible⟩
    exact ⟨(choices choice isChoice).1.areVisible, (choices choice isChoice).2.areVisible⟩
  | captured statement => exact forall_mem_nil _

namespace Design.IsScoped

variable {design : Design}

theorem entries_names (isScoped : design.IsScoped) : (names design).entries = design.declarations := by
  rw [names_eq_ofList]
  refine Table.entries_ofList (List.Nodup.of_map Text.lower ?_)
  rw [map_map]
  exact isScoped.distinct

theorem nodup_names (isScoped : design.IsScoped) : (names design).keys.Nodup := by
  rw [Table.keys, isScoped.entries_names]
  refine List.Nodup.of_map Text.lower ?_
  rw [map_map]
  exact isScoped.distinct

theorem find?_of_mem (isScoped : design.IsScoped) (member : (name, info) ∈ design.declarations)
    : (names design).find? name = some info := by
  refine Table.find?_of_mem_entries isScoped.nodup_names ?_
  rwa [isScoped.entries_names]

theorem visible_globals (isScoped : design.IsScoped) (is : body ∈ design.architecture) :
    ∀ node ∈ body.signals.flatMap (·.nodes fun _ => []) ++ body.constants.flatMap (·.nodes fun _ => []),
      node.IsVisible design.globals := by
  simp only [ObjectDecl.nodes, ConstantDecl.nodes, nil_append, forall_mem_append, forall_mem_flatMap,
    Option.mem_toList]
  constructor
  · intro decl isSignal value isInit
    exact (isScoped.signal is isSignal value isInit).areVisible
  · intro decl isConstant
    exact (isScoped.constant is isConstant).areVisible

theorem visible_declarations (isScoped : design.IsScoped) :
    ∀ node ∈ design.nodes fun _ => [], node.IsVisible design.declarations := by
  intro node member spelling line same
  simp only [DesignUnit.nodes, mem_append, mem_flatMap, not_mem_nil, and_false, exists_false, false_or] at member
  obtain ⟨body, inDesign, inBody⟩ := member
  have is := Option.mem_toList.mp inDesign
  rcases mem_append.mp inBody with inDecls | inStatements
  · exact (isScoped.visible_globals is node inDecls spelling line same).imp fun info => mem_append_left _
  · obtain ⟨stmt, isStmt, inStmt⟩ := mem_flatMap.mp inStatements
    have inDesign : stmt ∈ design.statements := by
      rw [DesignUnit.statements, Option.mem_def.mp is]
      exact isStmt
    obtain ⟨info, declared⟩ := (isScoped.statements stmt inDesign).areVisible node inStmt spelling line same
    refine ⟨info, mem_append.mpr ((mem_append.mp declared).imp_right fun own => ?_)⟩
    exact variableInfos_subset inDesign own

theorem role_of_globals (isScoped : design.IsScoped) (outer : (name, info) ∈ design.globals)
    : (names design).role? name ≠ some .var := by
  rw [NameTable.role?, isScoped.find?_of_mem (mem_append_left _ outer)]
  exact fun same => role_of_mem_globals outer (Option.some.inj same)

theorem process_of_variable (isScoped : design.IsScoped) (inDesign : stmt ∈ design.statements)
    (member : .name spelling line ∈ stmt.nodes fun _ => []) (isVar : (names design).role? spelling = some .var) :
    ∃ block, stmt = .process block ∧ ∃ decl ∈ block.vars, decl.name = spelling := by
  obtain ⟨info, declared⟩ := (isScoped.statements stmt inDesign).areVisible _ member spelling line rfl
  rcases mem_append.mp declared with outer | inner
  · exact absurd isVar (isScoped.role_of_globals outer)
  · cases stmt with
    | process block =>
      simp only [variableInfos, List.filterMap_cons, Concurrent.process?, List.filterMap_nil, List.flatMap_cons,
        List.flatMap_nil, append_nil] at inner
      obtain ⟨decl, isDecl, same⟩ := mem_map.mp inner
      exact ⟨block, rfl, decl, isDecl, congrArg Prod.fst same⟩
    | _ => nomatch inner

end Design.IsScoped

/-- A lowered design is in scope. Its table of names has one entry for each declaration, every name in it is
spelled as declared, and a variable is named only in the process that declares it. -/
theorem lower_yields_scoped_design {parsed : DesignUnit TypeMark} {design : Design}
    (ok : (lower parsed).result = .ok design) :
    design.IsScoped ∧ (names design).entries = design.declarations ∧
      (∀ spelling line, .name spelling line ∈ (design.nodes fun _ => []) → spelling ∈ (names design).keys) ∧
      (∀ body ∈ design.architecture, ∀ spelling line, .name spelling line ∈
        body.signals.flatMap (·.nodes fun _ => []) ++ body.constants.flatMap (·.nodes fun _ => []) →
        (names design).role? spelling ≠ some .var) ∧
      ∀ stmt ∈ design.statements, ∀ spelling line, .name spelling line ∈ (stmt.nodes fun _ => []) →
        (names design).role? spelling = some .var →
        ∃ block, stmt = .process block ∧ ∃ decl ∈ block.vars, decl.name = spelling := by
  simp only [lower, Traced.result_bind] at ok
  obtain ⟨⟨lowered, after⟩, unitOk, ok⟩ := bind_eq_ok.mp ok
  cases ok
  have isScoped := isScoped_of_unit unitOk
  refine ⟨isScoped, isScoped.entries_names, fun spelling line member => ?_, ?_, ?_⟩
  · obtain ⟨info, declared⟩ := isScoped.visible_declarations _ member spelling line rfl
    rw [Table.keys, isScoped.entries_names]
    exact List.mem_map_of_mem declared
  · intro body is spelling line member
    obtain ⟨info, outer⟩ := isScoped.visible_globals is _ member spelling line rfl
    exact isScoped.role_of_globals outer
  · intro stmt inDesign spelling line member isVar
    exact isScoped.process_of_variable inDesign member isVar

/-- A register with a variable, where no name is spelled as it is declared. -/
def sampleSpellings : DesignUnit TypeMark :=
  let bit : TypeMark := ⟨"BIT", none, 1⟩
  let body := [.assign ⟨"V", .whole, 5⟩ (.name "s" 5) true 5, .assign ⟨"q", .whole, 6⟩ (.name "v" 6) false 6]
  ⟨⟨"e", [⟨"clk", .input, bit, 1⟩, ⟨"Q", .output, bit, 1⟩], 1⟩,
    some ⟨"a", "e", [⟨"S", bit, some (.name "K" 2), 2⟩], [⟨"k", bit, .literal (.bit "0") 2, 2⟩],
      [⟨⟨"state", ["idle", "busy"]⟩, 2⟩],
      [.process ⟨none, .listed ["CLK", "clk"], [⟨"v", bit, none, 3⟩],
        [.conditional [(.call "Rising_Edge" [.name "CLK" 4] 4, body)] [] 4], 3⟩], 2⟩⟩

theorem lower_sampleSpellings : ∃ design, (lower sampleSpellings).result = .ok design ∧ design.IsScoped ∧
    (names design).keys = ["clk", "Q", "idle", "busy", "k", "S", "v"] := by
  obtain ⟨design, lowered, keys⟩ : ∃ design, (lower sampleSpellings).result = .ok design ∧
      (names design).keys = ["clk", "Q", "idle", "busy", "k", "S", "v"] := by decide +kernel
  exact ⟨design, lowered, (lower_yields_scoped_design lowered).1, keys⟩

end Vhdl

end RtlBridge

import RtlBridge.Proofs.Emission.Declarations
import RtlBridge.Proofs.Emission.Shadows
import RtlBridge.Proofs.Vhdl.WrittenNames

/-! Everything that a module declares: its ports, the constants, signals and variables of its design, and the
registers behind wires. No two declarations have one name. -/

namespace RtlBridge

open List

namespace Verilog

/-- A declared name, with the word or the name of its type and its range. -/
structure Declaration where
  name : String
  type : String
  dimension : Option Dimension

def Item.declaration? : Item → Option Declaration
  | .object type dimension name _ _ => some ⟨name, type, dimension⟩
  | .parameter type dimension name _ _ => some ⟨name, type, dimension⟩
  | _ => none

def Port.declaration (port : Port) : Declaration := ⟨port.name, port.type, port.dimension⟩

def Module.declarations (module : Module) : List Declaration :=
  module.ports.map Port.declaration ++ module.items.filterMap Item.declaration?

end Verilog

namespace Emission

open Verilog (Declaration Item Module)
open Vhdl (DataType Design Resolved ResolvedStmt DesignUnit Scope)

variable (context : Context)

def constantDeclaration (decl : Vhdl.ConstantDecl DataType) : Declaration :=
  ⟨decl.name, context.profile.parameterType, dimension? decl.type⟩

def objectDeclaration (decl : Vhdl.ObjectDecl DataType) : Declaration :=
  ⟨decl.name, (typed context decl.name decl.type).1, (typed context decl.name decl.type).2⟩

def shadowDeclaration (entry : String × String) : Declaration :=
  ⟨entry.2, context.profile.storageType, (context.names.type? entry.1).bind dimension?⟩

def writtenDeclarations : List Declaration :=
  context.resolved.design.entity.ports.map (fun source => (port context source).declaration) ++
    match context.resolved.design.architecture with
    | none => []
    | some body =>
      body.constants.map (constantDeclaration context) ++
        (body.signals ++ body.processes.flatMap (·.vars)).map (objectDeclaration context) ++
        context.shadows.map (shadowDeclaration context)

variable {context}

theorem filterMap_of_forall₂ {α β γ : Type} {relation : α → β → Prop} {view : β → Option γ} {image : α → γ}
    (views : ∀ source result, relation source result → view result = some (image source))
    {sources : List α} {results : List β} (related : Forall₂ relation sources results) :
    results.filterMap view = sources.map image := by
  induction related with
  | nil => rfl
  | cons here _ ih => rw [filterMap_cons, views _ _ here, ih, map_cons]

def isDeclaring : Item → Bool
  | .enumType .. | .enumNote .. | .parameter .. | .object .. => true
  | _ => false

theorem isDeclaring_of_itemFor (isItem : ItemFor context statement item) : isDeclaring item = false := by
  cases isItem with
  | always written =>
    obtain ⟨trigger, list, rfl, _⟩ := always_eq_ok written
    rfl
  | forward writes shadowed => rfl
  | assign written | conditional written =>
    obtain ⟨_, _, _, _, _, rfl⟩ := continuous_eq_ok written
    rfl
  | placeholder => rfl

theorem declaration?_of_statement (other : isDeclaring item = false) : item.declaration? = none := by
  cases item <;> first | rfl | cases other

theorem declarations_of_groups {body : Vhdl.Architecture DataType} {groups : List (List Item)}
    (written : GroupsFor context body groups) :
    groups.flatten.filterMap Item.declaration? =
      body.constants.map (constantDeclaration context) ++
        (body.signals ++ body.processes.flatMap (·.vars)).map (objectDeclaration context) ++
        context.shadows.map (shadowDeclaration context) := by
  have enums : (body.enums.map fun decl => enumeration context.profile decl.type).filterMap Item.declaration? = [] := by
    apply filterMap_eq_nil_iff.mpr
    intro item member
    obtain ⟨decl, _, rfl⟩ := mem_map.mp member
    rw [enumeration]
    split <;> rfl
  have constants : written.constants.filterMap Item.declaration? =
      body.constants.map (constantDeclaration context) := by
    apply filterMap_of_forall₂ _ (mapM_eq_ok_iff.mp written.constantsOk)
    intro decl item ok
    obtain ⟨value, _, ok⟩ := bind_eq_ok.mp ok
    cases ok
    rfl
  have objects : written.objects.filterMap Item.declaration? =
      (body.signals ++ body.processes.flatMap (·.vars)).map (objectDeclaration context) := by
    apply filterMap_of_forall₂ _ (mapM_eq_ok_iff.mp written.objectsOk)
    intro decl item ok
    obtain ⟨init, remarks, rfl⟩ := object_eq_ok ok
    rfl
  have shadows : (context.shadows.map fun entry => shadow context entry.1 entry.2).filterMap
      Item.declaration? = context.shadows.map (shadowDeclaration context) := by
    rw [filterMap_map, ← filterMap_eq_map]
    rfl
  have statements : written.statements.flatten.filterMap Item.declaration? = [] := by
    apply filterMap_eq_nil_iff.mpr
    intro item member
    obtain ⟨statement, _, isItem⟩ := mem_statementGroups written.statementsOk member
    exact declaration?_of_statement (isDeclaring_of_itemFor isItem)
  rw [written.isGroups]
  simp only [flatten_append, flatten_groupOf, filterMap_append, enums, constants, objects, shadows,
    statements, nil_append, append_nil, append_assoc]

theorem declarations_of_moduleOf (ok : (moduleOf profile resolved).result = .ok module) :
    module.declarations = writtenDeclarations (Context.of profile resolved) := by
  obtain ⟨_, _, ports, none, some⟩ := moduleOf_eq_ok ok
  have isResolved : (Context.of profile resolved).resolved = resolved := rfl
  rw [Module.declarations, writtenDeclarations, ports, map_map, isResolved, Module.items]
  congr 1
  cases is : resolved.design.architecture with
  | none => rw [none is]; rfl
  | some body =>
    obtain ⟨written⟩ := groups_eq_ok (some body is)
    exact declarations_of_groups written

theorem isDeclaring_declared (enums : List Vhdl.EnumDecl) (areConstants : ∀ item ∈ constants, isDeclaring item = true)
    (areObjects : ∀ item ∈ objects, isDeclaring item = true) :
    ∀ item ∈ (groupOf (enums.map fun decl => enumeration context.profile decl.type) ++ groupOf constants ++
      groupOf (objects ++ context.shadows.map fun entry => shadow context entry.1 entry.2)).flatten,
        isDeclaring item = true := by
  intro item member
  simp only [flatten_append, flatten_groupOf, mem_append, mem_map] at member
  obtain (⟨decl, _, rfl⟩ | isConstant) | isObject | ⟨entry, _, rfl⟩ := member
  · rw [enumeration]
    split <;> rfl
  · exact areConstants item isConstant
  · exact areObjects item isObject
  · rfl

def GroupsFor.declared {architecture : Vhdl.Architecture DataType} {groups : List (List Item)}
    (written : GroupsFor context architecture groups) : List (List Item) :=
  groupOf (architecture.enums.map fun decl => enumeration context.profile decl.type) ++ groupOf written.constants ++
    groupOf (written.objects ++ context.shadows.map fun entry => shadow context entry.1 entry.2)

theorem GroupsFor.isDeclaring_declared {groups : List (List Item)}
    (written : GroupsFor context architecture groups) : ∀ item ∈ written.declared.flatten, isDeclaring item = true := by
  refine Emission.isDeclaring_declared architecture.enums (fun item isConstant => ?_) fun item isObject => ?_
  · obtain ⟨decl, _, ok⟩ := (mapM_eq_ok written.constantsOk).2 item isConstant
    obtain ⟨_, _, ok⟩ := bind_eq_ok.mp ok
    cases ok
    rfl
  · obtain ⟨decl, _, ok⟩ := (mapM_eq_ok written.objectsOk).2 item isObject
    obtain ⟨_, _, rfl⟩ := object_eq_ok ok
    rfl

theorem GroupsFor.mem_cases {groups : List (List Item)} (written : GroupsFor context architecture groups)
    (member : item ∈ groups.flatten) :
    isDeclaring item = true ∨ ∃ statement ∈ context.resolved.statements, ItemFor context statement item := by
  rw [written.isGroups, flatten_append, mem_append] at member
  exact member.imp (written.isDeclaring_declared item) (mem_statementGroups written.statementsOk)

theorem statement_of_mem_items (ok : (moduleOf profile resolved).result = .ok module) (member : item ∈ module.items)
    (notDeclaring : isDeclaring item = false) :
    ∃ statement ∈ resolved.statements, ItemFor (Context.of profile resolved) statement item := by
  obtain ⟨_, _, _, none, some⟩ := moduleOf_eq_ok ok
  cases is : resolved.design.architecture with
  | none =>
    rw [Module.items, none is] at member
    cases member
  | some body =>
    obtain ⟨written⟩ := groups_eq_ok (some body is)
    apply (written.mem_cases member).resolve_left
    rw [notDeclaring]
    decide

theorem process_of_itemFor (isItem : ItemFor context statement (.always trigger label written)) :
    ∃ block kind, statement = .process block kind ∧
      (always context block kind).result = .ok (.always trigger label written) := by
  cases isItem with
  | always isAlways => exact ⟨_, _, rfl, isAlways⟩
  | assign isAssign | conditional isAssign =>
    obtain ⟨_, _, _, _, _, same⟩ := continuous_eq_ok isAssign
    cases same

/-! ### Shadow registers -/

theorem mem_shadowedNames (distinct : resolved.drivers.keys.Nodup) (name : String) :
    name ∈ shadowedNames resolved ↔
      resolved.drivers.Drives .combinational name ∧ resolved.names.role? name ≠ some .var := by
  rw [shadowedNames, mem_filterMap]
  constructor
  · intro shadowed
    obtain ⟨⟨other, driver⟩, member, isSome⟩ := shadowed
    dsimp only at isSome
    split at isSome
    · rename_i holds
      cases isSome
      simp only [Bool.and_eq_true, decide_eq_true_eq] at holds
      exact ⟨⟨driver, Table.find?_of_mem_entries distinct member, holds.1⟩, holds.2⟩
    · nomatch isSome
  · intro shadowed
    obtain ⟨⟨driver, found, isKind⟩, notVar⟩ := shadowed
    refine ⟨(name, driver), Scope.mem_of_lookup_eq_some found, ?_⟩
    simp [isKind, notVar]

theorem nodup_shadowedNames (distinct : resolved.drivers.keys.Nodup) : (shadowedNames resolved).Nodup := by
  refine (Table.filterMap_sublist_keys fun entry key isKey => ?_).nodup distinct
  dsimp only at isKey
  split at isKey
  · exact Option.some.inj isKey
  · nomatch isKey

theorem mem_shadows_of_lookup {shadow : String} (found : (shadows profile resolved).lookup name = some shadow) :
    profile.combinationalShadow = true ∧ (name, shadow) ∈ shadows profile resolved ∧ name ∈ shadowedNames resolved := by
  have member := Scope.mem_of_lookup_eq_some found
  rw [shadows] at member
  split at member
  · rename_i hasShadows
    exact ⟨hasShadows, Scope.mem_of_lookup_eq_some found, mem_shadowsFor member⟩
  · nomatch member

/-! ### Distinct names -/

theorem keys_objects_sublist (design : Design) :
    (design.objects.map fun object => Text.lower object.1).Sublist (Vhdl.keys design.declarations) := by
  rw [DesignUnit.objects, Design.declarations, Design.globals, DesignUnit.statements, Vhdl.keys]
  cases design.architecture with
  | none => simp [Vhdl.portInfos, Vhdl.variableInfos, Function.comp_def]
  | some body =>
    simp [Vhdl.portInfos, Vhdl.variableInfos, Vhdl.literalInfos, Vhdl.constantInfos, Vhdl.objectInfos,
      Vhdl.Architecture.processes, Function.comp_def, map_flatMap]

theorem names_writtenDeclarations_sublist (context : Context) :
    ((writtenDeclarations context).map (·.name)).Sublist
      (context.resolved.design.objects.map Prod.fst ++ context.shadows.map Prod.snd) := by
  rw [writtenDeclarations, DesignUnit.objects]
  have ports : (fun source => (port context source).declaration.name) = Vhdl.Port.name := by
    funext source
    rw [port]
    cases source.direction <;> rfl
  cases context.resolved.design.architecture with
  | none => simp [Function.comp_def, ports]
  | some body => simp [Function.comp_def, ports, constantDeclaration, objectDeclaration, shadowDeclaration, map_flatMap]

section

variable {parsed : DesignUnit Vhdl.TypeMark} {resolved : Resolved} (origin : Vhdl.ResolvedFrom parsed resolved)
  {profile : Profile}

include origin

theorem shadows_fresh (profile : Profile) :
    (∀ entry ∈ shadows profile resolved, Text.lower entry.2 ∉ Vhdl.keys resolved.design.declarations) ∧
      ((shadows profile resolved).map fun entry => Text.lower entry.2).Nodup := by
  rw [shadows]
  split
  · have taken : resolved.names.keys.map Text.lower = Vhdl.keys resolved.design.declarations := by
      rw [Table.keys, origin.entries_names, Vhdl.keys, map_map]
      rfl
    rw [taken]
    exact shadowsFor_fresh _ _
  · exact ⟨forall_mem_nil _, .nil⟩

theorem nodup_declarations (ok : (moduleOf profile resolved).result = .ok module) :
    (module.declarations.map fun decl => Text.lower decl.name).Nodup := by
  obtain ⟨fresh, distinct⟩ := shadows_fresh origin profile
  have sublist := (names_writtenDeclarations_sublist (Context.of profile resolved)).map Text.lower
  rw [declarations_of_moduleOf ok]
  rw [map_map] at sublist
  refine sublist.nodup ?_
  rw [map_append, map_map, map_map]
  have objects := keys_objects_sublist resolved.design
  refine nodup_append.mpr ⟨objects.nodup origin.isScoped.distinct, distinct, ?_⟩
  rintro key inObjects _ inShadows rfl
  obtain ⟨entry, member, rfl⟩ := mem_map.mp inShadows
  exact fresh entry member (objects.subset inObjects)

theorem shadowDeclaration_mem (ok : (moduleOf profile resolved).result = .ok module) {shadow : String}
    (found : (shadows profile resolved).lookup name = some shadow) :
    shadowDeclaration (Context.of profile resolved) (name, shadow) ∈ module.declarations := by
  obtain ⟨_, member, shadowed⟩ := mem_shadows_of_lookup found
  have hasBody : resolved.design.architecture ≠ none := by
    intro none
    obtain ⟨driver, inDrivers, _⟩ := ((mem_shadowedNames origin.nodup_drivers name).mp shadowed).1
    obtain ⟨strict, isResolved⟩ := origin.isResolved
    obtain ⟨_, same⟩ | ⟨body, is, _⟩ := Vhdl.resolve_eq_ok isResolved
    · rw [same] at inDrivers
      nomatch inDrivers
    · rw [none] at is
      nomatch is
  rw [declarations_of_moduleOf ok, writtenDeclarations]
  obtain ⟨body, is⟩ := Option.ne_none_iff_exists'.mp hasBody
  have is : (Context.of profile resolved).resolved.design.architecture = some body := is
  rw [is]
  apply mem_append_right
  apply mem_append_right
  exact mem_map_of_mem member

theorem declaration_unique (ok : (moduleOf profile resolved).result = .ok module)
    (isFirst : first ∈ module.declarations) (isSecond : second ∈ module.declarations) (same : first.name = second.name)
    : first = second := inj_on_of_nodup_map (nodup_declarations origin ok) isFirst isSecond (congrArg Text.lower same)

end

end Emission

end RtlBridge

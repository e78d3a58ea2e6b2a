import RtlBridge.Proofs.Conversion
import RtlBridge.Proofs.Emission.Clocked
import RtlBridge.Proofs.Emission.ReadNames

/-! What the assignments of a module are to. Always blocks write variables and continuous assignments drive
wires, with one exception: an inout port is a wire also where a process writes it. -/

namespace RtlBridge

open List

namespace Verilog

def Expr.root? : Expr → Option String
  | .name text => some text
  | .index base _ => base.root?
  | .slice base _ _ => base.root?
  | _ => none

def Stmt.target? : Stmt → Option Expr
  | .assign target _ _ _ => some target
  | _ => none

def bodyTargets (body : List Stmt) : List Expr := (bodyStmts body).filterMap Stmt.target?

namespace Module

def proceduralTargets (module : Module) : List Expr :=
  module.items.flatMap fun item =>
    match item with
    | .always _ _ body => bodyTargets body
    | _ => []

def continuousTargets (module : Module) : List Expr :=
  module.items.flatMap fun item =>
    match item with
    | .assign target _ _ => [target]
    | _ => []

def IsVariable (module : Module) (dialect : Dialect) (type : String) : Prop :=
  match dialect with
  | .legacy => type = "reg"
  | .strict => type = "logic" ∨ ∃ enum range, .enumType enum range ∈ module.items ∧ enum.name = type

end Module

end Verilog

namespace Emission

open Vhdl (DataType Design Resolved ResolvedStmt)

/-! ### What statements write -/

/-- A place of a name that has a property, or of the register behind that name. -/
def Context.Writes (context : Context) (property : String → Prop) (place : Verilog.Expr) : Prop :=
  ∃ name, property name ∧ place.root? = some ((context.shadows.lookup name).getD name)

section

variable {context : Context} {property : String → Prop}

theorem root?_target (ok : target context source = .ok place) :
    place.root? = some ((context.shadows.lookup source.name).getD source.name) := by
  have isPlace := isPlaceOf_target ok
  generalize source.part = part at isPlace
  cases isPlace <;> rfl

theorem writes_of_always (hasKind : Vhdl.HasKind constants block.sensitivity block.body kind)
    (all : ∀ write ∈ Vhdl.bodyWrites false block.body, property write.1)
    (ok : (always context block kind).result = .ok (.always trigger label written)) :
    ∀ place ∈ Verilog.bodyTargets written, context.Writes property place := by
  intro place isTarget
  obtain ⟨inner, member, isPlace⟩ := mem_filterMap.mp isTarget
  cases inner with
  | assign target blocking value remarks =>
    cases isPlace
    obtain ⟨origin, inBody, stands⟩ | ⟨_, _, same⟩ := source_of_always hasKind ok member
    · obtain ⟨source, given, line, rfl, placeOk⟩ := assign_of_standsFor stands
      refine ⟨source.name, all (source.name, line) ?_, root?_target placeOk⟩
      rw [Vhdl.bodyWrites_eq_filterMap]
      exact mem_filterMap.mpr ⟨_, inBody, rfl⟩
    · cases same
  | _ => cases isPlace

end

/-! ### How written names are declared -/

theorem not_mem_shadowedNames_of_lookup (unshadowed : (shadows Dialect.legacy.profile resolved).lookup name = none)
    : name ∉ shadowedNames resolved := by
  intro shadowed
  have found : ∃ shadow, (shadows Dialect.legacy.profile resolved).lookup name = some shadow :=
    lookup_shadowsFor_of_mem shadowed
  obtain ⟨shadow, isLookup⟩ := found
  rw [isLookup] at unshadowed
  nomatch unshadowed

theorem netType_of_storage (context : Context)
    (isStorage : context.resolved.drivers.Drives .sequential name ∨ context.names.role? name = some .var) :
    netType context name = context.profile.storageType := by
  rw [netType, if_pos]
  rcases isStorage with ⟨driver, found, isKind⟩ | isVar
  · simp [Vhdl.DriverTable.isStorage, found, isKind]
  · simp [isVar]

theorem netType_of_net (context : Context) (drives : context.resolved.drivers.Drives kind name)
    (isNet : kind ≠ .sequential) (notVar : context.names.role? name ≠ some .var)
    : netType context name = context.profile.netType := by
  obtain ⟨driver, found, rfl⟩ := drives
  rw [netType, if_neg]
  simp [Vhdl.DriverTable.isStorage, found, isNet, notVar]

theorem isVariable_storageType (module : Verilog.Module) (dialect : Dialect) :
    module.IsVariable dialect dialect.profile.storageType := by
  cases dialect with
  | legacy => rfl
  | strict => exact .inl rfl

def HasInout (design : Design) (name : String) : Prop :=
  ∃ port ∈ design.entity.ports, port.name = name ∧ port.direction = .inout

section

variable {parsed : Vhdl.DesignUnit Vhdl.TypeMark} {resolved : Resolved} (origin : Vhdl.ResolvedFrom parsed resolved)
  {profile : Profile} {module : Verilog.Module}

include origin

theorem port_unique (isFirst : first ∈ resolved.design.entity.ports) (isSecond : second ∈ resolved.design.entity.ports)
    (same : first.name = second.name) : first = second := by
  have distinct : (resolved.design.entity.ports.map fun port => Text.lower port.name).Nodup := by
    apply Sublist.nodup _ origin.isScoped.distinct
    rw [Vhdl.Design.declarations, Vhdl.Design.globals, append_assoc, Vhdl.keys_append, Vhdl.portInfos, Vhdl.keys,
      map_map]
    exact sublist_append_left ..
  exact inj_on_of_nodup_map distinct isFirst isSecond (congrArg Text.lower same)

theorem not_hasInout (found : resolved.names.find? name = some info) (notPort : info.role ≠ .port) :
    ¬ HasInout resolved.design name := by
  rintro ⟨port, isPort, rfl, _⟩
  have declared : (port.name, ⟨.port, some port.type⟩) ∈ resolved.design.declarations := by
    apply mem_append_left
    apply mem_append_left
    exact mem_map_of_mem isPort
  rw [origin.find?_names declared] at found
  cases found
  exact notPort rfl

theorem declaration_of_driven (ok : (moduleOf profile resolved).result = .ok module)
    (driven : name ∈ resolved.drivers.keys) :
    ∃ decl ∈ module.declarations, decl.name = name ∧ (HasInout resolved.design name → decl.type = "wire") ∧
      (¬ HasInout resolved.design name → ∃ type, (name, type) ∈ resolved.design.objects ∧
        decl.type = (typed (Context.of profile resolved) name type).1) := by
  obtain ⟨role, type, declared, inObjects, immediate, takes⟩ := origin.declares_driven driven
  have found := origin.find?_names declared
  rw [declarations_of_moduleOf ok, writtenDeclarations]
  have isDeclared := Vhdl.declaredBy_of_find? (origin.resolves.sameNames ▸ found)
  cases isDeclared with
  | port isPort =>
    rename_i source
    refine ⟨(port (Context.of profile resolved) source).declaration, ?_, ?_, ?_, ?_⟩
    · exact mem_append_left _ (mem_map_of_mem isPort)
    · rw [port]
      cases source.direction <;> rfl
    · rintro ⟨other, isOther, same, isInout⟩
      rw [port_unique origin isOther isPort same] at isInout
      rw [port, isInout]
      rfl
    · intro notInout
      refine ⟨source.type, inObjects, ?_⟩
      have direction : source.direction ≠ .inout := fun isInout => notInout ⟨source, isPort, rfl, isInout⟩
      rw [port]
      cases is : source.direction with
      | inout => exact absurd is direction
      | _ => rfl
  | literal is member inside => cases takes
  | constant is member => cases takes
  | object is member isObject =>
    rename_i body decl
    have notPort : role ≠ .port := by rcases isObject with rfl | rfl <;> decide
    refine ⟨objectDeclaration (Context.of profile resolved) decl, ?_, rfl, ?_, fun _ => ⟨_, inObjects, rfl⟩⟩
    · have is : (Context.of profile resolved).resolved.design.architecture = some body := is
      rw [is]
      apply mem_append_right
      apply mem_append_left
      apply mem_append_right
      exact mem_map_of_mem member
    · intro isInout
      exact absurd isInout (not_hasInout origin found notPort)

theorem declaration_of_shadow (ok : (moduleOf profile resolved).result = .ok module) {shadow : String}
    (found : (shadows profile resolved).lookup name = some shadow) :
    ∃ decl ∈ module.declarations, decl.name = shadow ∧ ¬ HasInout resolved.design shadow ∧
      decl.type = profile.storageType := by
  refine ⟨_, shadowDeclaration_mem origin ok found, rfl, ?_, rfl⟩
  rintro ⟨port, isPort, rfl, _⟩
  apply (shadows_fresh origin _).1 _ (mem_shadows_of_lookup found).2.1
  rw [Vhdl.Design.declarations, Vhdl.Design.globals, append_assoc, Vhdl.keys_append, Vhdl.portInfos, Vhdl.keys, map_map]
  apply mem_append_left
  exact mem_map_of_mem isPort

theorem variable_of_drives (ok : (moduleOf dialect.profile resolved).result = .ok module)
    (drives : resolved.drivers.Drives kind name) (byProcess : kind ≠ .continuous) :
    ∃ decl ∈ module.declarations, decl.name = ((shadows dialect.profile resolved).lookup name).getD name ∧
      (HasInout resolved.design decl.name → decl.type = "wire") ∧
      (¬ HasInout resolved.design decl.name → module.IsVariable dialect decl.type) := by
  cases found : (shadows dialect.profile resolved).lookup name with
  | some shadow =>
    obtain ⟨decl, member, rfl, notInout, isStorage⟩ := declaration_of_shadow origin ok found
    refine ⟨decl, member, rfl, fun isInout => absurd isInout notInout, fun _ => ?_⟩
    rw [isStorage]
    exact isVariable_storageType module dialect
  | none =>
    obtain ⟨decl, member, rfl, isWire, isTyped⟩ := declaration_of_driven origin ok drives.mem_keys
    refine ⟨decl, member, rfl, isWire, fun notInout => ?_⟩
    obtain ⟨type, inObjects, isType⟩ := isTyped notInout
    rw [isType]
    cases dialect with
    | legacy =>
      have typedByKind : (typed (Context.of Dialect.legacy.profile resolved) decl.name type).1 =
          netType (Context.of Dialect.legacy.profile resolved) decl.name := by cases type <;> rfl
      have unshadowed := not_mem_shadowedNames_of_lookup found
      rw [mem_shadowedNames origin.nodup_drivers, not_and_or, not_not] at unshadowed
      rw [typedByKind, netType_of_storage]
      · rfl
      · cases kind with
        | sequential => exact .inl drives
        | combinational => exact .inr (unshadowed.resolve_left fun other => other drives)
        | continuous => exact absurd rfl byProcess
    | strict =>
      have isLogic : netType (Context.of Dialect.strict.profile resolved) decl.name = "logic" := by
        rw [netType]
        split <;> rfl
      cases type with
      | enum enum =>
        obtain ⟨body, enumDecl, is, inBody, rfl⟩ := origin.declares_enum inObjects
        exact .inr ⟨_, _, (moduleOf_holds ok).enums body is enumDecl inBody, rfl⟩
      | bit | vector vector => exact .inl isLogic

theorem wire_of_net (ok : (moduleOf Dialect.legacy.profile resolved).result = .ok module)
    (drives : resolved.drivers.Drives kind name) (isNet : kind ≠ .sequential)
    (notVar : resolved.names.role? name ≠ some .var) :
    ∃ decl ∈ module.declarations, decl.name = name ∧ decl.type = "wire" := by
  obtain ⟨decl, member, rfl, isWire, isTyped⟩ := declaration_of_driven origin ok drives.mem_keys
  refine ⟨decl, member, rfl, ?_⟩
  by_cases isInout : HasInout resolved.design decl.name
  · exact isWire isInout
  · obtain ⟨type, _, isType⟩ := isTyped isInout
    have typedByKind : (typed (Context.of Dialect.legacy.profile resolved) decl.name type).1 =
        netType (Context.of Dialect.legacy.profile resolved) decl.name := by cases type <;> rfl
    rw [isType, typedByKind, netType_of_net (Context.of _ resolved) drives isNet notVar]
    rfl

theorem procedural_isVariable (ok : (moduleOf dialect.profile resolved).result = .ok module)
    (inDesign : statement ∈ resolved.statements)
    (isItem : ItemFor (Context.of dialect.profile resolved) statement (.always trigger label written))
    (inside : place ∈ Verilog.bodyTargets written) :
    ∃ decl ∈ module.declarations, place.root? = some decl.name ∧
      (HasInout resolved.design decl.name → decl.type = "wire") ∧
      (¬ HasInout resolved.design decl.name → module.IsVariable dialect decl.type) := by
  obtain ⟨block, kind, rfl, isAlways⟩ := process_of_itemFor isItem
  have hasKind : Vhdl.HasKind _ block.sensitivity block.body kind := (origin.resolves.classified inDesign).2
  have driven := origin.covers inDesign _ _ rfl
  obtain ⟨name, drives, isRoot⟩ := writes_of_always hasKind driven isAlways place inside
  have byProcess : (if kind.isSequential then DriverKind.sequential else .combinational) ≠ .continuous := by
    split <;> decide
  obtain ⟨decl, member, isName, kinds⟩ := variable_of_drives origin ok drives byProcess
  exact ⟨decl, member, isName ▸ isRoot, kinds⟩

theorem continuous_isWire (ok : (moduleOf Dialect.legacy.profile resolved).result = .ok module)
    (inDesign : statement ∈ resolved.statements)
    (isItem : ItemFor (Context.of Dialect.legacy.profile resolved) statement (.assign place value remarks)) :
    ∃ decl ∈ module.declarations, place.root? = some decl.name ∧ decl.type = "wire" := by
  have isScoped := origin.isScoped.statements _ (origin.resolves.classified inDesign).1
  have covers := origin.covers inDesign
  have assigned {source : Vhdl.Target} (declared : source.IsScoped resolved.design.globals false)
      (drives : resolved.drivers.Drives .continuous source.name)
      (placeOk : target (Context.of Dialect.legacy.profile resolved) source = .ok place) :
      ∃ decl ∈ module.declarations, place.root? = some decl.name ∧ decl.type = "wire" := by
    obtain ⟨⟨info, outer, _⟩, _⟩ := declared
    have notVar : resolved.names.role? source.name ≠ some .var := by
      rw [origin.resolves.sameNames]
      exact origin.isScoped.role_of_globals outer
    have unshadowed : (shadows Dialect.legacy.profile resolved).lookup source.name = none := by
      cases found : (shadows Dialect.legacy.profile resolved).lookup source.name with
      | none => rfl
      | some shadow =>
        obtain ⟨_, _, shadowed⟩ := mem_shadows_of_lookup found
        obtain ⟨⟨driver, isDriver, isKind⟩, _⟩ := (mem_shadowedNames origin.nodup_drivers _).mp shadowed
        obtain ⟨other, isOther, otherKind⟩ := drives
        rw [isDriver] at isOther
        cases isOther
        rw [isKind] at otherKind
        nomatch otherKind
    have isRoot := root?_target placeOk
    have sameShadows : (Context.of Dialect.legacy.profile resolved).shadows = shadows Dialect.legacy.profile resolved :=
      rfl
    rw [sameShadows, unshadowed] at isRoot
    obtain ⟨decl, member, isName, isWire⟩ := wire_of_net origin ok drives (by decide) notVar
    exact ⟨decl, member, isName ▸ isRoot, isWire⟩
  cases isItem with
  | always isAlways =>
    obtain ⟨_, _, same, _⟩ := always_eq_ok isAlways
    nomatch same
  | forward writes shadowed =>
    rename_i name shadow
    have shadowed : (shadows Dialect.legacy.profile resolved).lookup name = some shadow := shadowed
    obtain ⟨_, _, isShadowed⟩ := mem_shadows_of_lookup shadowed
    obtain ⟨drives, notVar⟩ := (mem_shadowedNames origin.nodup_drivers _).mp isShadowed
    obtain ⟨decl, member, rfl, isWire⟩ := wire_of_net origin ok drives (by decide) notVar
    exact ⟨decl, member, rfl, isWire⟩
  | assign written | conditional written =>
    obtain ⟨_, _, _, _, placeOk, ⟨⟩⟩ := continuous_eq_ok written
    exact assigned isScoped.1 (covers _ _ rfl _ (mem_singleton_self _)) placeOk

end

/-- Whatever an always block writes is declared once and as a variable, unless it is an inout port: that is
declared as a wire. In the older dialect whatever a continuous assignment drives is declared once and as a
wire. -/
theorem targets_have_declared_kinds {source : List Char} {strict : Bool} {resolved : Resolved}
    (loaded : (load source strict).result = .ok resolved) (dialect : Dialect) {module : Verilog.Module}
    (ok : (moduleOf dialect.profile resolved).result = .ok module) :
    (∀ place ∈ module.proceduralTargets, ∃ decl ∈ module.declarations, place.root? = some decl.name ∧
      (∀ other ∈ module.declarations, other.name = decl.name → other = decl) ∧
      (HasInout resolved.design decl.name → decl.type = "wire") ∧
      (¬ HasInout resolved.design decl.name → module.IsVariable dialect decl.type)) ∧
    (dialect = .legacy → ∀ place ∈ module.continuousTargets, ∃ decl ∈ module.declarations,
      place.root? = some decl.name ∧ (∀ other ∈ module.declarations, other.name = decl.name → other = decl) ∧
      decl.type = "wire") := by
  obtain ⟨parsed, _, origin⟩ := resolvedFrom_of_load loaded
  constructor
  · intro place isTarget
    obtain ⟨item, inItems, inside⟩ := mem_flatMap.mp isTarget
    cases item with
    | always trigger label body =>
      obtain ⟨statement, inDesign, isItem⟩ := statement_of_mem_items ok inItems rfl
      obtain ⟨decl, member, isRoot, kinds⟩ := procedural_isVariable origin ok inDesign isItem inside
      exact ⟨decl, member, isRoot, fun other isOther => declaration_unique origin ok isOther member, kinds⟩
    | _ => nomatch inside
  · rintro rfl place isTarget
    obtain ⟨item, inItems, inside⟩ := mem_flatMap.mp isTarget
    cases item with
    | assign target value remarks =>
      obtain rfl := mem_singleton.mp inside
      obtain ⟨statement, inDesign, isItem⟩ := statement_of_mem_items ok inItems rfl
      obtain ⟨decl, member, isRoot, isWire⟩ := continuous_isWire origin ok inDesign isItem
      exact ⟨decl, member, isRoot, fun other isOther => declaration_unique origin ok isOther member, isWire⟩
    | _ => nomatch inside

/-- An inout port that is a register, and a wire with a register behind it. -/
def sampleBus : List Char :=
  ("entity e is port (c : in bit; b : inout bit; y : out bit); end; architecture a of e is begin " ++
    "process (c) begin if rising_edge(c) then b <= c; end if; end process; " ++
    "process (c) begin y <= c; end process; end;").toList

theorem sampleBus_kinds : ∃ resolved, (load sampleBus true).result = .ok resolved ∧
    ∃ module, (moduleOf Dialect.legacy.profile resolved).result = .ok module ∧
      module.proceduralTargets.map Verilog.Expr.root? = [some "b", some "y_comb"] ∧
      module.continuousTargets.map Verilog.Expr.root? = [some "y"] ∧
      module.declarations.map (fun decl => (decl.name, decl.type)) =
        [("c", "wire"), ("b", "wire"), ("y", "wire"), ("y_comb", "reg")] := by decide +kernel

theorem targets_sampleBus : ∃ resolved module, (load sampleBus true).result = .ok resolved ∧
    (moduleOf Dialect.legacy.profile resolved).result = .ok module ∧
    module.proceduralTargets.map Verilog.Expr.root? = [some "b", some "y_comb"] ∧
    (∀ place ∈ module.proceduralTargets, ∃ decl ∈ module.declarations, place.root? = some decl.name ∧
      (HasInout resolved.design decl.name → decl.type = "wire") ∧
      (¬ HasInout resolved.design decl.name → decl.type = "reg")) ∧
    module.continuousTargets.map Verilog.Expr.root? = [some "y"] ∧
    ∀ place ∈ module.continuousTargets, ∃ decl ∈ module.declarations, place.root? = some decl.name ∧
      decl.type = "wire" := by
  obtain ⟨resolved, loaded, module, written, procedural, continuous, _⟩ := sampleBus_kinds
  obtain ⟨kinds, wires⟩ := targets_have_declared_kinds loaded .legacy written
  refine ⟨resolved, module, loaded, written, procedural, fun place isTarget => ?_, continuous, fun place isTarget => ?_⟩
  · obtain ⟨decl, member, isRoot, _, isKind⟩ := kinds place isTarget
    exact ⟨decl, member, isRoot, isKind⟩
  · obtain ⟨decl, member, isRoot, _, isWire⟩ := wires rfl place isTarget
    exact ⟨decl, member, isRoot, isWire⟩

/-- The inout port is written in an always block, and it is a wire. -/
theorem wire_written_in_sampleBus : ∃ resolved module, (load sampleBus true).result = .ok resolved ∧
    (moduleOf Dialect.legacy.profile resolved).result = .ok module ∧
    ∃ place ∈ module.proceduralTargets, ∃ decl ∈ module.declarations,
      place.root? = some decl.name ∧ decl.type = "wire" ∧ ¬ module.IsVariable .legacy decl.type := by
  obtain ⟨resolved, loaded, module, written, procedural, _, declarations⟩ := sampleBus_kinds
  have isTarget : some "b" ∈ module.proceduralTargets.map Verilog.Expr.root? := by
    rw [procedural]
    decide
  have isDeclared : ("b", "wire") ∈ module.declarations.map fun decl => (decl.name, decl.type) := by
    rw [declarations]
    decide
  obtain ⟨place, inTargets, isRoot⟩ := mem_map.mp isTarget
  obtain ⟨decl, inModule, same⟩ := mem_map.mp isDeclared
  obtain ⟨isName, isWire⟩ := Prod.mk.inj same
  refine ⟨resolved, module, loaded, written, place, inTargets, decl, inModule, isName ▸ isRoot, isWire, ?_⟩
  intro isVariable
  have isReg : decl.type = "reg" := isVariable
  rw [isWire] at isReg
  exact absurd isReg (by decide)

end Emission

end RtlBridge

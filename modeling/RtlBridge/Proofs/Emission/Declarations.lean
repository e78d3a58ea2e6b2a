import RtlBridge.Proofs.Emission.Reading
import RtlBridge.Proofs.Emission.StatementGroups
import RtlBridge.Proofs.Verilog.Evaluation
import RtlBridge.Proofs.Vhdl.Measured
import RtlBridge.Proofs.Vhdl.ResolvedShape

/-! The declarations of a module and those of its source: which ranges names have in a scope that follows the
module, by the types that the design gives them. -/

namespace RtlBridge

open List

namespace Verilog

def Module.items (module : Module) : List Item := module.groups.flatten

/-- The types that are words of the language; others are names of enumerations. -/
def isTypeWord (type : String) : Bool := type ∈ ["wire", "reg", "logic"]

/-- A name is as its declaration says: it has the range written there or that of an enumeration. -/
def Scope.Declared (scope : Scope) (module : Module) (type : String) (dimension : Option Dimension)
    (name : String) : Prop :=
  if isTypeWord type then scope.dimension name = dimension
  else ∀ enum range, .enumType enum range ∈ module.items → enum.name = type → scope.dimension name = range

/-- Every name is as the module declares it. A parameter without a type and a range is as wide and as signed as
its value. -/
structure Scope.Follows (scope : Scope) (module : Module) : Prop where
  port : ∀ port ∈ module.ports, scope.Declared module port.type port.dimension port.name
  object : ∀ type dimension name init remarks, .object type dimension name init remarks ∈ module.items →
    scope.Declared module type dimension name
  member : ∀ enum range, .enumType enum range ∈ module.items → ∀ entry ∈ enum.members, scope.dimension entry.1 = range
  parameter : ∀ type dimension name value remarks, .parameter type dimension name value remarks ∈ module.items →
    if type.isEmpty && dimension.isNone then
      scope.width name = value.tree.width scope ∧ scope.isSigned name = value.tree.isSigned scope
    else scope.dimension name = dimension

end Verilog

namespace Vhdl

/-- What gives a name its role and its type. -/
inductive DeclaredBy (design : Design) : String → NameInfo → Prop where
  | port {port : Port DataType} (member : port ∈ design.entity.ports) :
      DeclaredBy design port.name ⟨.port, some port.type⟩
  | literal {body : Architecture DataType} {decl : EnumDecl} {literal : String}
      (is : design.architecture = some body) (member : decl ∈ body.enums)
      (inside : literal ∈ decl.type.literals) :
      DeclaredBy design literal ⟨.enumLiteral, some (.enum decl.type)⟩
  | constant {body : Architecture DataType} {decl : ConstantDecl DataType}
      (is : design.architecture = some body) (member : decl ∈ body.constants) :
      DeclaredBy design decl.name ⟨.constant, some decl.type⟩
  | object {body : Architecture DataType} {decl : ObjectDecl DataType} {role : Role}
      (is : design.architecture = some body)
      (member : decl ∈ body.signals ++ body.processes.flatMap (·.vars))
      (isObject : role = .signal ∨ role = .var) :
      DeclaredBy design decl.name ⟨role, some decl.type⟩

theorem declaredBy_of_find? (found : (names design).find? name = some info) : DeclaredBy design name info := by
  have member := Table.mem_of_find?_ofList found
  rcases mem_append.mp member with isPort | declared
  · obtain ⟨port, inEntity, same⟩ := mem_map.mp isPort
    cases same
    exact .port inEntity
  · cases is : design.architecture with
    | none =>
      rw [is] at declared
      cases declared
    | some body =>
      rw [is] at declared
      simp only [mem_append, mem_flatMap, mem_map] at declared
      rcases declared with ((enums | constants) | signals) | vars
      · obtain ⟨decl, inBody, literal, inside, same⟩ := enums
        cases same
        exact .literal is inBody inside
      · obtain ⟨decl, inBody, same⟩ := constants
        cases same
        exact .constant is inBody
      · obtain ⟨decl, inBody, same⟩ := signals
        cases same
        exact .object is (mem_append_left _ inBody) (.inl rfl)
      · obtain ⟨block, isProcess, decl, inBlock, same⟩ := vars
        cases same
        have inBody := mem_flatMap.mpr ⟨block, isProcess, inBlock⟩
        exact .object is (mem_append_right _ inBody) (.inr rfl)

end Vhdl

namespace Emission

open Verilog (Scope Module isTypeWord)
open Vhdl (DataType NameTable Resolved)

/-! ### The items of a module -/

theorem isTypeWord_netType (dialect : Dialect) (profile : context.profile = dialect.profile) (name : String)
    : isTypeWord (netType context name) = true := by
  rw [netType, profile]
  cases dialect <;> split <;> rfl

/-- The ports and the declarations of a module that has been written. -/
structure Holds (profile : Profile) (resolved : Resolved) (module : Module) : Prop where
  ports : module.ports = resolved.design.entity.ports.map (port (Context.of profile resolved))
  enums : ∀ body, resolved.design.architecture = some body → ∀ decl ∈ body.enums,
    enumeration profile decl.type ∈ module.items
  constants : ∀ body, resolved.design.architecture = some body → ∀ decl ∈ body.constants,
    ∃ item ∈ module.items, constant (Context.of profile resolved) decl = .ok item
  objects : ∀ body, resolved.design.architecture = some body →
    ∀ decl ∈ body.signals ++ body.processes.flatMap (·.vars),
      ∃ item ∈ module.items, object (Context.of profile resolved) decl = .ok item
  statements : ∀ body, resolved.design.architecture = some body → ∀ statement ∈ resolved.statements,
    ∃ item ∈ module.items, (leading (Context.of profile resolved) statement).result = .ok item



theorem moduleOf_holds (ok : (moduleOf profile resolved).result = .ok module) : Holds profile resolved module := by
  obtain ⟨_, _, ports, _, isGroups⟩ := moduleOf_eq_ok ok
  refine ⟨ports, ?_, ?_, ?_, ?_⟩ <;> intro body is <;> obtain ⟨written⟩ := groups_eq_ok (isGroups body is) <;>
    simp only [Module.items, written.isGroups, flatten_append, flatten_groupOf, mem_append]
  · intro decl member
    exact .inl (.inl (.inl (mem_map_of_mem member)))
  · intro decl member
    obtain ⟨item, inList, itemOk⟩ := (mapM_eq_ok written.constantsOk).1 decl member
    exact ⟨item, .inl (.inl (.inr inList)), itemOk⟩
  · intro decl member
    obtain ⟨item, inList, itemOk⟩ := (mapM_eq_ok written.objectsOk).1 decl (mem_append.mpr member)
    exact ⟨item, .inl (.inr (.inl inList)), itemOk⟩
  · intro statement member
    obtain ⟨items, areItems, _⟩ := statementGroups_eq_ok _ written.statementsOk
    obtain ⟨item, _, itemOk⟩ := result_of_mem areItems member
    exact ⟨item, .inr ((mem_groups_iff written.statementsOk).mpr (.inl ⟨_, member, itemOk⟩)), itemOk⟩

theorem leading_of_mem (isResolved : (Vhdl.resolve design strict).result = .ok resolved)
    (ok : (moduleOf profile resolved).result = .ok module) (member : statement ∈ resolved.statements) :
    ∃ item ∈ module.items, (leading (Context.of profile resolved) statement).result = .ok item := by
  obtain ⟨_, same⟩ | ⟨body, is, _⟩ := Vhdl.resolve_eq_ok isResolved
  · rw [same] at member
    cases member
  · exact (moduleOf_holds ok).statements body ((Vhdl.resolve_resolves isResolved).sameDesign ▸ is) statement member

theorem object_eq_ok (ok : object context decl = .ok item) :
    ∃ init remarks, item = .object (typed context decl.name decl.type).1 (typed context decl.name decl.type).2
      decl.name init remarks := by
  cases init : decl.init with
  | none =>
    simp only [object, init] at ok
    cases ok
    exact ⟨_, _, rfl⟩
  | some value =>
    simp only [object, init] at ok
    obtain ⟨written, _, ok⟩ := bind_eq_ok.mp ok
    cases ok
    exact ⟨_, _, rfl⟩

/-! ### Ranges -/

/-- Whether the output gives a name the range of its type. It does not for literals of enumerations that are only
noted, and for constants that have neither a range nor a type there. -/
def IsRanged (dialect : Dialect) (design : Vhdl.Design) (role : Role) (type : DataType) : Prop :=
  match role, type with
  | .enumLiteral, _ => dialect = .strict
  | .constant, type => dialect = .strict ∨ (dimension? type).isSome = true
  | _, .enum enum => dialect = .strict → isTypeWord enum.name = false ∧
      ∃ body decl, design.architecture = some body ∧ decl ∈ body.enums ∧ decl.type = enum
  | _, _ => True

section Ranges

variable {dialect : Dialect} {design : Vhdl.Design} {resolved : Resolved} {module : Module}
  {scope : Scope} (resolves : Vhdl.Resolves design resolved) (holds : Holds dialect.profile resolved module)
  (follows : scope.Follows module)

include resolves holds

theorem dimension_of_typed (isObject : role ≠ .enumLiteral ∧ role ≠ .constant)
    (ranged : IsRanged dialect design role type)
    (declared : scope.Declared module (typed (Context.of dialect.profile resolved) name type).1
      (typed (Context.of dialect.profile resolved) name type).2 name) : scope.dimension name = dimension? type := by
  have word : isTypeWord (netType (Context.of dialect.profile resolved) name) = true :=
    isTypeWord_netType dialect rfl name
  have plain (same : typed (Context.of dialect.profile resolved) name type =
      (netType (Context.of dialect.profile resolved) name, dimension? type)) :
      scope.dimension name = dimension? type := by rwa [same, Scope.Declared, if_pos word] at declared
  cases type with
  | bit | vector vector => exact plain rfl
  | enum enum =>
    cases dialect with
    | legacy => exact plain rfl
    | strict =>
      have named : isTypeWord enum.name = false ∧
          ∃ body decl, design.architecture = some body ∧ decl ∈ body.enums ∧ decl.type = enum := by
        cases role with
        | enumLiteral => exact absurd rfl isObject.1
        | constant => exact absurd rfl isObject.2
        | _ => exact ranged rfl
      obtain ⟨notWord, body, decl, is, member, rfl⟩ := named
      have item := holds.enums body (resolves.sameDesign ▸ is) decl member
      have declared : scope.Declared module decl.type.name none name := declared
      rw [Scope.Declared, notWord, if_neg (by decide)] at declared
      exact declared _ _ item rfl

include follows

theorem dimension_of_declared (found : resolved.names.find? name = some ⟨role, some type⟩)
    (ranged : IsRanged dialect design role type) : scope.dimension name = dimension? type := by
  rw [resolves.sameNames] at found
  have declared := Vhdl.declaredBy_of_find? found
  cases declared with
  | @port port member =>
    have inModule : Emission.port (Context.of dialect.profile resolved) port ∈ module.ports := by
      rw [holds.ports, resolves.sameDesign]
      exact mem_map_of_mem member
    have declared := follows.port _ inModule
    have isPort : Role.port ≠ .enumLiteral ∧ Role.port ≠ .constant := by decide
    rcases port with ⟨name, direction, type, line⟩
    cases direction with
    | inout =>
      have wire : scope.Declared module "wire" (dimension? type) name := declared
      rwa [Scope.Declared, if_pos (by decide)] at wire
    | _ => exact dimension_of_typed resolves holds isPort ranged declared
  | @literal body decl _ is member inside =>
    have strict : dialect = .strict := ranged
    subst strict
    have item := holds.enums body (resolves.sameDesign ▸ is) decl member
    exact follows.member _ _ item (name, decl.type.code name) (mem_map_of_mem inside)
  | @constant body decl is member =>
    obtain ⟨item, inModule, written⟩ := holds.constants body (resolves.sameDesign ▸ is) decl member
    obtain ⟨value, _, written⟩ := bind_eq_ok.mp written
    cases written
    have declared := follows.parameter _ _ _ _ _ inModule
    rw [if_neg] at declared
    · exact declared
    · rcases ranged with rfl | some
      · simp [Context.of, Dialect.profile]
      · simp [Option.isSome_iff_ne_none.mp some]
  | @object body decl role is member isObject =>
    obtain ⟨item, inModule, written⟩ := holds.objects body (resolves.sameDesign ▸ is) decl member
    obtain ⟨init, remarks, rfl⟩ := object_eq_ok written
    have notOther : role ≠ .enumLiteral ∧ role ≠ .constant := by rcases isObject with rfl | rfl <;> decide
    exact dimension_of_typed resolves holds notOther ranged (follows.object _ _ _ _ _ inModule)

end Ranges

theorem width_of_dimension {scope : Scope} (ranged : scope.dimension name = dimension? type) :
    (scope.width name : Int) = type.width ∧ scope.isSigned name = type.signed := by
  rw [Scope.width, Scope.isSigned, ranged]
  cases type with
  | bit => exact ⟨rfl, rfl⟩
  | vector vector =>
    have ordered := vector.ordered
    refine ⟨?_, rfl⟩
    simp only [dimension?, Option.elim_some, Verilog.Dimension.width, DataType.width, Vhdl.VectorType.width]
    omega
  | enum enum =>
    have positive : 0 < enum.width := by
      unfold Vhdl.EnumType.width
      split <;> omega
    rw [dimension?]
    split
    · refine ⟨?_, rfl⟩
      simp only [Option.elim_some, Verilog.Dimension.width, DataType.width]
      omega
    · refine ⟨?_, rfl⟩
      simp only [Option.elim_none, DataType.width]
      omega

def Declares (names : NameTable) (scope : Scope) : Prop :=
  ∀ name type, names.type? name = some type → scope.dimension name = dimension? type

def scopeOf (names : NameTable) : Scope := ⟨fun name => (names.type? name).bind dimension?, fun _ => none⟩

theorem scopeOf_declares (names : NameTable) : Declares names (scopeOf names) := by
  intro name type typed
  simp [scopeOf, typed]

def isBare : Verilog.Item → Bool
  | .always _ _ _ | .assign _ _ _ | .placeholder _ => true
  | _ => false

theorem scopeOf_follows (dialect : Dialect) (isWritten : (moduleOf dialect.profile resolved).result = .ok module)
    (bare : module.items.all isBare = true) (isTyped : ∀ port ∈ resolved.design.entity.ports,
      resolved.names.type? port.name = some port.type ∧ ∀ enum, port.type ≠ .enum enum) :
    (scopeOf resolved.names).Follows module := by
  constructor
  case port =>
    intro port member
    rw [(moduleOf_holds isWritten).ports] at member
    obtain ⟨source, inEntity, rfl⟩ := mem_map.mp member
    obtain ⟨isType, notEnum⟩ := isTyped source inEntity
    have ranged := scopeOf_declares resolved.names source.name source.type isType
    have word : isTypeWord (netType (Context.of dialect.profile resolved) source.name) = true :=
      isTypeWord_netType dialect rfl source.name
    have plain : typed (Context.of dialect.profile resolved) source.name source.type =
        (netType (Context.of dialect.profile resolved) source.name, dimension? source.type) := by
      unfold typed
      split
      · rename_i isEnum _
        exact absurd isEnum (notEnum _)
      · rfl
    unfold Emission.port
    rw [plain]
    cases source.direction with
    | inout => exact (if_pos rfl).mpr ranged
    | _ => exact (if_pos word).mpr ranged
  case object =>
    intro type dimension name init remarks member
    cases all_eq_true.mp bare _ member
  case member =>
    intro enum range member
    cases all_eq_true.mp bare _ member
  case parameter =>
    intro type dimension name value remarks member
    cases all_eq_true.mp bare _ member

end Emission

end RtlBridge

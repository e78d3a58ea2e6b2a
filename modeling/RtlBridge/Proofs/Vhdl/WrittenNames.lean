import RtlBridge.Proofs.Vhdl.ParsedShape
import RtlBridge.Proofs.Vhdl.TypedObjects

/-! The names that statements write are names of objects, spelled as identifiers of the source. -/

namespace RtlBridge.Vhdl

open List

theorem object_or_literal {design : Design} (declared : (name, info) ∈ design.declarations) :
    (∃ type, info.type = some type ∧ (name, type) ∈ design.objects) ∨ info.role = .enumLiteral ∧
      ∃ body decl, design.architecture = some body ∧ decl ∈ body.enums ∧ name ∈ decl.type.literals := by
  rw [Design.declarations, Design.globals, DesignUnit.statements] at declared
  rw [DesignUnit.objects]
  cases is : design.architecture with
  | none =>
    simp only [is, portInfos, variableInfos, Option.elim_none, filterMap_nil, flatMap_nil,
      append_nil, mem_map] at declared ⊢
    obtain ⟨port, isPort, same⟩ := declared
    cases same
    exact .inl ⟨port.type, rfl, port, isPort, rfl⟩
  | some body =>
    simp only [is, Option.elim_some, variableInfos, portInfos, literalInfos, constantInfos, objectInfos,
      mem_append, mem_map, mem_flatMap] at declared
    simp only [mem_append, mem_map, mem_flatMap]
    obtain (⟨port, isPort, same⟩ | (⟨decl, isDecl, literal, inLiterals, same⟩ | ⟨decl, isDecl, same⟩) |
      ⟨decl, isDecl, same⟩) | ⟨block, isBlock, decl, isDecl, same⟩ := declared <;> cases same
    · exact .inl ⟨port.type, rfl, .inl ⟨port, isPort, rfl⟩⟩
    · exact .inr ⟨rfl, body, decl, rfl, isDecl, inLiterals⟩
    · exact .inl ⟨decl.type, rfl, .inr (.inl (.inl ⟨decl, isDecl, rfl⟩))⟩
    · exact .inl ⟨decl.type, rfl, .inr (.inl (.inr ⟨decl, isDecl, rfl⟩))⟩
    · exact .inl ⟨decl.type, rfl, .inr (.inr ⟨block, isBlock, decl, isDecl, rfl⟩)⟩

theorem declared_of_mem_objects {design : Design} (member : (name, type) ∈ design.objects) :
    ∃ role, role ≠ .enumLiteral ∧ (name, ⟨role, some type⟩) ∈ design.declarations := by
  rw [Design.declarations, Design.globals, DesignUnit.statements]
  rw [DesignUnit.objects] at member
  cases is : design.architecture with
  | none =>
    simp only [is, append_nil, mem_map] at member
    obtain ⟨port, isPort, same⟩ := member
    cases same
    refine ⟨.port, by decide, ?_⟩
    simp only [portInfos, mem_append, mem_map]
    exact .inl (.inl ⟨port, isPort, rfl⟩)
  | some body =>
    simp only [is, mem_append, mem_map, mem_flatMap] at member
    simp only [Option.elim_some, variableInfos, portInfos, literalInfos, constantInfos, objectInfos,
      mem_append, mem_map, mem_flatMap]
    obtain ⟨port, isPort, same⟩ | (⟨decl, isDecl, same⟩ | ⟨decl, isDecl, same⟩) |
      ⟨block, isBlock, decl, isDecl, same⟩ := member
    · cases same
      exact ⟨.port, by decide, .inl (.inl ⟨port, isPort, rfl⟩)⟩
    · cases same
      exact ⟨.constant, by decide, .inl (.inr (.inl (.inr ⟨decl, isDecl, rfl⟩)))⟩
    · cases same
      exact ⟨.signal, by decide, .inl (.inr (.inr ⟨decl, isDecl, rfl⟩))⟩
    · cases same
      exact ⟨.var, by decide, .inr ⟨block, isBlock, decl, isDecl, rfl⟩⟩

theorem DesignUnit.IsParsed.legal_objects {parsed : DesignUnit TypeMark} (isParsed : parsed.IsParsed) :
    ∀ object ∈ parsed.objects, isLegalName object.1 = true := by
  intro object member
  rcases mem_append.mp member with isPort | inBody
  · obtain ⟨port, inPorts, rfl⟩ := mem_map.mp isPort
    exact (isParsed.entity.ports port inPorts).name
  · cases is : parsed.architecture with
    | none =>
      rw [is] at inBody
      nomatch inBody
    | some body =>
      obtain ⟨bodyParsed, _⟩ := isParsed.architecture body is
      simp only [is, mem_append, mem_map, mem_flatMap] at inBody
      obtain (⟨decl, isDecl, rfl⟩ | ⟨decl, isDecl, rfl⟩) | ⟨block, isBlock, decl, isDecl, rfl⟩ := inBody
      · exact (bodyParsed.constants decl isDecl).name
      · exact (bodyParsed.signals decl isDecl).name
      · obtain ⟨stmt, inStatements, isProcess⟩ := mem_filterMap.mp isBlock
        have blockParsed := bodyParsed.statements stmt inStatements
        cases stmt with
        | process found =>
          cases isProcess
          exact (blockParsed.vars decl isDecl).name
        | _ => nomatch isProcess

theorem legal_objects_of_lower (isParsed : parsed.IsParsed) (ok : (lower parsed).result = .ok design)
    : ∀ object ∈ design.objects, isLegalName object.1 = true := by
  intro object member
  obtain ⟨source, inParsed, sameName, _⟩ := source_of_mem (objects_of_lower ok).1 member
  rw [sameName]
  exact isParsed.legal_objects source inParsed

theorem Design.IsScoped.declares_written (isScoped : design.IsScoped) (resolves : Resolves design resolved)
    (member : statement ∈ resolved.statements) (written : DriverTable.WrittenBy statement name) :
    ∃ info immediate, (name, info) ∈ design.declarations ∧ info.role.takes immediate = true := by
  obtain ⟨kind, writes, drives, inWrites⟩ := written
  have inDesign := (resolves.classified member).1
  have stmtScoped := isScoped.statements _ inDesign
  have outer {target : Target} (targetScoped : target.IsScoped design.globals false) :
      ∃ info immediate, (target.name, info) ∈ design.declarations ∧ info.role.takes immediate = true := by
    obtain ⟨⟨info, declared, takes⟩, _⟩ := targetScoped
    exact ⟨info, false, mem_append_left _ declared, takes⟩
  cases statement with
  | process block kind =>
    cases drives
    obtain ⟨write, isWrite, rfl⟩ := mem_map.mp inWrites
    have nodes : bodyAll (Stmt.WritesNode fun name => ∃ info immediate, (name, info) ∈ design.declarations ∧
        info.role.takes immediate = true) block.body := by
      rw [bodyAll_iff]
      intro stmt inBody
      apply Stmt.All.mono _ (stmtScoped.body stmt inBody)
      intro inner node
      cases inner with
      | assign target value immediate line =>
        obtain ⟨⟨info, declared, takes⟩, _⟩ := node.1
        exact ⟨info, immediate, Design.visible_subset inDesign declared, takes⟩
      | _ => trivial
    exact (bodyAll_writes_iff block.body).mp nodes write isWrite
  | assign assignment | conditional assignment =>
    cases drives
    cases mem_singleton.mp inWrites
    exact outer stmtScoped.1
  | captured statement => nomatch drives

structure ResolvedFrom (parsed : DesignUnit TypeMark) (resolved : Resolved) : Prop where
  isParsed : parsed.IsParsed
  isLowered : (lower parsed).result = .ok resolved.design
  isResolved : ∃ strict, (resolve resolved.design strict).result = .ok resolved

namespace ResolvedFrom

variable {parsed : DesignUnit TypeMark} {resolved : Resolved} (origin : ResolvedFrom parsed resolved)

include origin

theorem resolves : Resolves resolved.design resolved := by
  obtain ⟨strict, ok⟩ := origin.isResolved
  exact resolve_resolves ok

theorem isScoped : resolved.design.IsScoped := isScoped_of_unit (unit_of_lower origin.isLowered)

theorem entries_names : resolved.names.entries = resolved.design.declarations := by
  rw [origin.resolves.sameNames]
  exact origin.isScoped.entries_names

theorem find?_names (declared : (name, info) ∈ resolved.design.declarations) :
    resolved.names.find? name = some info := by
  rw [origin.resolves.sameNames]
  exact origin.isScoped.find?_of_mem declared

theorem role_of_literal (is : resolved.design.architecture = some body) (isDecl : decl ∈ body.enums)
    (isLiteral : name ∈ decl.type.literals) : resolved.names.role? name = some .enumLiteral := by
  have declared := mem_append_left (variableInfos resolved.design.statements) (Design.literal_mem_globals is isDecl isLiteral)
  rw [NameTable.role?, origin.find?_names declared]
  rfl

theorem covers (member : statement ∈ resolved.statements) : resolved.drivers.Covers statement := by
  obtain ⟨strict, ok⟩ := origin.isResolved
  exact (drivers_of_resolve ok).2 statement member

theorem nodup_drivers : resolved.drivers.keys.Nodup := by
  obtain ⟨strict, ok⟩ := origin.isResolved
  exact (drivers_of_resolve ok).1

theorem legal_of_mem_objects (member : object ∈ resolved.design.objects) : isLegalName object.1 = true :=
  legal_objects_of_lower origin.isParsed origin.isLowered object member

theorem type?_names (member : (name, type) ∈ resolved.design.objects) : resolved.names.type? name = some type := by
  obtain ⟨role, _, declared⟩ := declared_of_mem_objects member
  rw [NameTable.type?, origin.find?_names declared]
  rfl

theorem declares_enum (member : (name, .enum enum) ∈ resolved.design.objects) :
    ∃ body decl, resolved.design.architecture = some body ∧ decl ∈ body.enums ∧ decl.type = enum := by
  obtain ⟨objects, enums⟩ := objects_of_lower origin.isLowered
  obtain ⟨source, _, _, earlier, keeps, ok⟩ := source_of_mem objects member
  cases Scope.resolve_eq_ok ok with
  | plain isPlain _ => rcases isPlain with same | same | same <;> nomatch same
  | enum _ found => exact enums _ (keeps.enums found)

theorem declares_driven (driven : name ∈ resolved.drivers.keys) :
    ∃ role type, (name, ⟨role, some type⟩) ∈ resolved.design.declarations ∧ (name, type) ∈ resolved.design.objects ∧
      ∃ immediate, role.takes immediate = true := by
  obtain ⟨strict, ok⟩ := origin.isResolved
  obtain ⟨statement, member, writes⟩ := writtenBy_of_resolve ok driven
  obtain ⟨info, immediate, declared, takes⟩ := origin.isScoped.declares_written origin.resolves member writes
  have isObject : info.role ≠ .enumLiteral := by
    intro isLiteral
    rw [isLiteral] at takes
    nomatch takes
  obtain ⟨type, isType, inObjects⟩ := (object_or_literal declared).resolve_right fun literal => isObject literal.1
  refine ⟨info.role, type, ?_, inObjects, immediate, takes⟩
  rwa [← isType]

end ResolvedFrom

end RtlBridge.Vhdl

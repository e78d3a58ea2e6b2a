import RtlBridge.Proofs.Vhdl.WrittenNames

/-! Everything that a design has a name for: itself, what it declares, its types and its processes. All these
names are identifiers of the source. -/

namespace RtlBridge

open List

theorem source_of_mapM_run {σ ε α β : Type} {step : β → StateT σ (Traced ε) α} {items : List β} {values : List α}
    {state after : σ} (ok : (items.mapM step state).result = .ok (values, after)) :
    ∀ value ∈ values, ∃ item ∈ items, ∃ before next, (step item before).result = .ok (value, next) := by
  refine mapM_run ?_ nofun ok
  intro done yielded item value before next earlier itemOk
  rw [forall_mem_append, forall_mem_singleton]
  constructor
  · intro other inYielded
    obtain ⟨source, isSource, found⟩ := earlier other inYielded
    exact ⟨source, mem_append_left _ isSource, found⟩
  · exact ⟨item, mem_append_right _ (mem_singleton_self item), before, next, itemOk⟩

namespace Vhdl

def Design.ownNames (design : Design) : List String :=
  design.entity.name :: (design.declarations.map Prod.fst ++ match design.architecture with
    | none => []
    | some body => body.enums.map (fun decl => decl.type.name) ++ body.processes.filterMap ProcessBlock.label)

namespace Design

variable {design : Design} {body : Architecture DataType} (is : design.architecture = some body)

theorem declared_mem_ownNames (declared : entry ∈ design.declarations) : entry.1 ∈ design.ownNames :=
  mem_cons_of_mem _ (mem_append_left _ (mem_map_of_mem declared))

include is

theorem type_mem_ownNames (isDecl : decl ∈ body.enums) : decl.type.name ∈ design.ownNames := by
  rw [ownNames, is]
  apply mem_cons_of_mem
  exact mem_append_right _ (mem_append_left _ (mem_map_of_mem isDecl))

theorem label_mem_ownNames (isProcess : block ∈ body.processes) (isLabel : label ∈ block.label) : label ∈ design.ownNames := by
  rw [ownNames, is]
  apply mem_cons_of_mem
  exact mem_append_right _ (mem_append_right _ (mem_filterMap.mpr ⟨block, isProcess, isLabel⟩))

end Design

def Stmt.BranchedNode : Stmt → Prop
  | .conditional branches _ _ => branches ≠ []
  | _ => True

theorem Stmt.IsParsed.branched_of_lower {stmt : Stmt} (isParsed : stmt.IsParsed) (ok : stmt.lower scope = .ok lowered)
    : lowered.All BranchedNode := by
  refine Stmt.all_of_lower (fun inner result node lowers => ?_) stmt isParsed ok
  cases lowers with
  | conditional listOk _ =>
    rintro rfl
    exact node.1 (eq_nil_of_length_eq_zero (lowerBranches_eq_ok listOk).length_eq)
  | _ => trivial

namespace ResolvedFrom

variable {parsed : DesignUnit TypeMark} {resolved : Resolved} (origin : ResolvedFrom parsed resolved)

include origin

theorem name_entity : isIdentifier resolved.design.entity.name = true := by
  obtain ⟨_, _, sameName, _⟩ := Lowering.unit_eq_ok (unit_of_lower origin.isLowered)
  rw [sameName]
  exact isIdentifier_of_legal origin.isParsed.entity.name

theorem source_of_architecture (is : resolved.design.architecture = some body) :
    ∃ source : Architecture TypeMark, source.IsParsed ∧ body.enums = source.enums ∧
      ∀ stmt ∈ body.statements, ∃ origin ∈ source.statements, ∃ before next,
        Lowering.LowersTo before origin stmt next := by
  obtain ⟨_, _, _, rest⟩ := Lowering.unit_eq_ok (unit_of_lower origin.isLowered)
  rcases rest with ⟨_, absent, _⟩ | ⟨source, lowered, isSource, isLowered, bodyOk⟩
  · rw [absent] at is
    nomatch is
  · cases Option.some.inj (isLowered.symm.trans is)
    obtain ⟨_, _, _, _, _, _, statementsOk, sameEnums⟩ := Lowering.architecture_eq_ok bodyOk
    refine ⟨source, (origin.isParsed.architecture source isSource).1, sameEnums, ?_⟩
    intro stmt member
    obtain ⟨item, isItem, before, next, itemOk⟩ := source_of_mapM_run statementsOk stmt member
    exact ⟨item, isItem, before, next, Lowering.concurrent_eq_ok itemOk⟩

theorem parsed_enum (is : resolved.design.architecture = some body) (member : decl ∈ body.enums) : decl.IsParsed := by
  obtain ⟨source, isParsed, sameEnums, _⟩ := origin.source_of_architecture is
  exact isParsed.enums decl (sameEnums ▸ member)

theorem source_of_process (member : .process block ∈ resolved.design.statements) :
    ∃ (source : ProcessBlock TypeMark) (scope : Scope), source.IsParsed ∧ block.label = source.label ∧
      lowerBody scope source.body = .ok block.body := by
  obtain ⟨body, is, inBody⟩ := DesignUnit.mem_statements.mp member
  obtain ⟨_, isParsed, _, statements⟩ := origin.source_of_architecture is
  obtain ⟨stmt, isStmt, before, next, lowers⟩ := statements _ inBody
  have stmtParsed := isParsed.statements stmt isStmt
  cases lowers with
  | process blockOk =>
    obtain ⟨inside, _, sameLabel, _, bodyOk, _⟩ := Lowering.processBlock_eq_ok blockOk
    exact ⟨_, inside, stmtParsed, sameLabel, bodyOk⟩

theorem process_of_statement (member : .process block ∈ resolved.design.statements) :
    (∀ label ∈ block.label, isLegalName label = true) ∧ ∀ inner ∈ block.body, inner.All Stmt.BranchedNode := by
  obtain ⟨source, scope, isParsed, sameLabel, bodyOk⟩ := origin.source_of_process member
  refine ⟨sameLabel ▸ isParsed.label, fun inner isInner => ?_⟩
  obtain ⟨first, isFirst, firstOk⟩ := source_of_mem (lowerBody_eq_ok bodyOk) isInner
  exact (isParsed.body first isFirst).branched_of_lower firstOk

theorem isIdentifier_declared (declared : (name, info) ∈ resolved.design.declarations) : isIdentifier name = true := by
  apply isIdentifier_of_legal
  obtain ⟨type, _, inObjects⟩ | ⟨_, body, decl, is, isDecl, inLiterals⟩ := object_or_literal declared
  · exact origin.legal_of_mem_objects inObjects
  · exact (origin.parsed_enum is isDecl).literals name inLiterals

theorem isIdentifier_ownNames : ∀ name ∈ resolved.design.ownNames, isIdentifier name = true := by
  rw [Design.ownNames, forall_mem_cons, forall_mem_append, forall_mem_map]
  refine ⟨origin.name_entity, fun entry declared => origin.isIdentifier_declared declared, ?_⟩
  cases is : resolved.design.architecture with
  | none => nofun
  | some body =>
    simp only [forall_mem_append, forall_mem_map]
    constructor
    · intro decl member
      exact isIdentifier_of_legal (origin.parsed_enum is member).name
    · intro name isLabel
      obtain ⟨block, isProcess, label⟩ := mem_filterMap.mp isLabel
      have inDesign : .process block ∈ resolved.design.statements :=
        DesignUnit.mem_statements.mpr ⟨body, is, Architecture.mem_processes.mp isProcess⟩
      exact isIdentifier_of_legal ((origin.process_of_statement inDesign).1 name label)

end ResolvedFrom

end Vhdl

end RtlBridge

import RtlBridge.Proofs.Emission.ClosedText

/-! The names at the scope of a module in the older dialect: declared names and the names of labelled blocks. All of
them differ but for one case. The registers behind wires avoid the names of the design, and not the labels of its
processes. -/

namespace RtlBridge

open List

namespace Verilog

def introduced (fragments : List Fragment) : List String := named .declares fragments ++ named .labels fragments

end Verilog

def Vhdl.ResolvedStmt.label? : Vhdl.ResolvedStmt → Option String
  | .process block _ => block.label
  | _ => none

def Vhdl.Resolved.labels (resolved : Vhdl.Resolved) : List String := resolved.statements.filterMap (·.label?)

namespace Emission

open Verilog (Item)
open Vhdl (DataType Resolved ResolvedStmt)

/-! ### Labels -/

theorem labels_of_leading (ok : (leading context statement).result = .ok item) : item.labels = statement.label?.toList := by
  have ofContinuous {line : Nat} {source : Vhdl.Target} {choices : List (Vhdl.Expr × Vhdl.Expr)} {last : Vhdl.Expr}
      (ok : (orPlaceholder context line (continuous context source choices last)).result = .ok item) :
      item.labels = [] := by
    obtain written | ⟨comment, rfl⟩ := orPlaceholder_eq_ok ok
    · obtain ⟨_, _, _, _, _, rfl⟩ := continuous_eq_ok written
      rfl
    · rfl
  cases statement with
  | process block kind =>
    obtain ⟨trigger, list, rfl, _⟩ := always_eq_ok ok
    rfl
  | assign assignment | conditional assignment => exact ofContinuous ok
  | captured statement =>
    cases ok
    rfl

theorem labels_of_forwards (statement : ResolvedStmt) :
    ((forwardsBehind context forwarded statement).map Prod.snd).flatMap Item.labels = [] := by
  rw [flatMap_eq_nil_iff]
  intro item member
  obtain ⟨entry, isForward, rfl⟩ := mem_map.mp member
  cases statement with
  | process block kind =>
    obtain ⟨_, _, register, _, isAssign⟩ := mem_forwards.mp isForward
    rw [isAssign]
    rfl
  | _ => cases isForward

theorem labels_of_statements
    (written : Forall₂ (fun statement item => (leading context statement).result = .ok item) statements items)
    (forwarded : List String) :
    (zipWith cons items (forwardings context forwarded statements)).flatten.flatMap Item.labels =
      statements.filterMap (·.label?) := by
  induction written generalizing forwarded with
  | nil => rfl
  | cons here _ ih =>
    rename_i statement item rest items _
    rw [forwardings, zipWith_cons_cons, flatten_cons, flatMap_append, flatMap_cons,
      labels_of_leading here, labels_of_forwards, ih, append_nil, filterMap_cons]
    cases statement.label? <;> rfl

theorem labels_of_declaring (declaring : isDeclaring item = true) : item.labels = [] := by
  cases item with
  | always trigger label body => cases declaring
  | _ => rfl

section

variable {parsed : Vhdl.DesignUnit Vhdl.TypeMark} {resolved : Resolved} (origin : Vhdl.ResolvedFrom parsed resolved)
  {module : Verilog.Module}

include origin in
theorem labels_of_moduleOf {profile : Profile} (ok : (moduleOf profile resolved).result = .ok module) :
    module.items.flatMap Item.labels = resolved.labels := by
  obtain ⟨_, _, _, none, some⟩ := moduleOf_eq_ok ok
  rw [Verilog.Module.items]
  cases is : resolved.design.architecture with
  | none =>
    have noStatements : resolved.statements = [] := by
      refine eq_nil_iff_forall_not_mem.mpr fun statement member => ?_
      simpa [Vhdl.DesignUnit.statements, is] using (origin.resolves.classified member).1
    rw [none is, Vhdl.Resolved.labels, noStatements]
    rfl
  | some body =>
    obtain ⟨written⟩ := groups_eq_ok (some body is)
    obtain ⟨items, areItems, statements⟩ := statementGroups_eq_ok _ written.statementsOk
    have declared : written.declared.flatten.flatMap Item.labels = [] :=
      flatMap_eq_nil_iff.mpr fun item member => labels_of_declaring (written.isDeclaring_declared item member)
    have groups : module.groups = written.declared ++ written.statements := written.isGroups
    rw [groups, flatten_append, flatMap_append, declared, statements, labels_of_statements areItems]
    rfl

/-! ### Declared names -/

theorem declares_of_moduleOf (ok : (moduleOf profile resolved).result = .ok module)
    (untyped : profile.typedEnums = false) (unit : String) :
    Verilog.named .declares (module.fragments unit) = module.declarations.map (·.name) := by
  have declares {item : Item} (member : item ∈ module.items) :
      item.declares = (item.declaration?.map (·.name)).toList := by
    cases item with
    | enumType enum dimension =>
      refine eq_nil_iff_forall_not_mem.mpr fun name isMember => ?_
      obtain ⟨_, _, decl, _, _, same⟩ | ⟨decl, isDecl, _⟩ := binder_cases ok member (mem_append_left _ isMember)
      · rw [enumeration, untyped] at same
        cases same
      · cases isDecl
    | _ => rfl
  have items : (module.items.flatMap fun item => item.named .declares) =
      (module.items.filterMap Item.declaration?).map (·.name) := by
    rw [map_filterMap, filterMap_eq_flatMap_toList]
    apply flatMap_congr
    intro item member
    rw [← declares member]
    simp [Item.named, Verilog.Mark.only]
  rw [Verilog.Module.named_fragments rfl, Verilog.Mark.only_self, ← Verilog.Module.items, items,
    Verilog.Module.declarations, map_append, map_map]
  rfl

include origin in
theorem introduced_of_moduleOf (ok : (moduleOf profile resolved).result = .ok module)
    (untyped : profile.typedEnums = false) (unit : String) :
    Verilog.introduced (module.fragments unit) = module.declarations.map (·.name) ++ resolved.labels := by
  have labels : (module.items.flatMap fun item => item.named .labels) = module.items.flatMap Item.labels := by
    apply flatMap_congr
    intro item _
    simp [Item.named, Verilog.Mark.only]
  rw [Verilog.introduced, declares_of_moduleOf ok untyped, Verilog.Module.named_fragments rfl,
    ← Verilog.Module.items, labels, labels_of_moduleOf origin ok]
  rfl

/-! ### Distinct names -/

theorem key_of_declaration (ok : (moduleOf profile resolved).result = .ok module) (member : decl ∈ module.declarations) :
    Text.lower decl.name ∈ Vhdl.keys resolved.design.declarations ∨ ∃ pair ∈ shadows profile resolved, pair.2 = decl.name := by
  have isName := (names_writtenDeclarations_sublist (Context.of profile resolved)).subset
    (declarations_of_moduleOf ok ▸ mem_map_of_mem member)
  obtain isObject | isShadow := mem_append.mp isName
  · left
    apply (keys_objects_sublist resolved.design).subset
    obtain ⟨object, inObjects, same⟩ := mem_map.mp isObject
    exact mem_map.mpr ⟨object, inObjects, congrArg Text.lower same⟩
  · obtain ⟨pair, isPair, same⟩ := mem_map.mp isShadow
    exact .inr ⟨pair, isPair, same⟩

end

/-- Let the names of a design and the labels of its processes differ, whatever their letter case. Then so do all
names at the scope of its module in the older dialect, exactly if no register behind a wire has the name of a label. -/
theorem module_scope_is_clear_iff {source : List Char} {strict : Bool} {resolved : Resolved}
    (loaded : (load source strict).result = .ok resolved) {indent : Int} {text : String}
    (rendered : (render resolved .legacy indent).result = .ok text)
    (distinct : (Vhdl.keys resolved.design.declarations ++ resolved.labels.map Text.lower).Nodup) :
    ∃ unit module, Text.run ' ' indent = .ok unit ∧ (moduleOf Dialect.legacy.profile resolved).result = .ok module ∧
      Verilog.textOf (module.fragments unit) = text ∧
      (((Verilog.introduced (module.fragments unit)).map Text.lower).Nodup ↔
        ∀ pair ∈ shadows Dialect.legacy.profile resolved, ∀ label ∈ resolved.labels,
          Text.lower pair.2 ≠ Text.lower label) := by
  obtain ⟨parsed, _, origin⟩ := resolvedFrom_of_load loaded
  obtain ⟨unit, module, isUnit, ok, rfl⟩ := render_eq_ok rendered
  refine ⟨unit, module, isUnit, ok, module.textOf_fragments unit, ?_⟩
  obtain ⟨_, labelsDiffer, apart⟩ := nodup_append.mp distinct
  have declarationsDiffer := nodup_declarations origin ok
  rw [introduced_of_moduleOf origin ok rfl, map_append, map_map, nodup_append]
  constructor
  · rintro ⟨_, _, differ⟩ pair isPair label isLabel
    have found := lookup_of_mem (nodup_shadows origin) isPair
    exact differ _ (mem_map_of_mem (shadowDeclaration_mem origin ok found)) _ (mem_map_of_mem isLabel)
  · intro clear
    refine ⟨declarationsDiffer, labelsDiffer, fun key isDeclared _ isLabel same => ?_⟩
    obtain ⟨decl, member, rfl⟩ := mem_map.mp isDeclared
    obtain ⟨label, inLabels, rfl⟩ := mem_map.mp isLabel
    obtain inDesign | ⟨pair, isPair, isName⟩ := key_of_declaration ok member
    · exact apart _ inDesign _ isLabel same
    · exact clear pair isPair label inLabels (isName ▸ same)

/-- A process whose label is the name that the register behind its output takes. -/
def sampleLabel : List Char :=
  ("entity e is port (a : in bit; y : out bit); end; architecture r of e is begin " ++
    "y_comb : process (a) begin y <= a; end process; end;").toList

theorem sampleLabel_names : ∃ resolved, (load sampleLabel true).result = .ok resolved ∧
    ∃ module, (moduleOf Dialect.legacy.profile resolved).result = .ok module ∧
      (∃ text, (render resolved .legacy 2).result = .ok text ∧ text = module.text "  ") ∧
      (Vhdl.keys resolved.design.declarations ++ resolved.labels.map Text.lower).Nodup ∧
      Verilog.introduced (module.fragments "  ") = ["a", "y", "y_comb", "y_comb"] := by decide +kernel

theorem module_scope_of_sampleLabel : ∃ resolved text, (load sampleLabel true).result = .ok resolved ∧
    (render resolved .legacy 2).result = .ok text ∧
    (Vhdl.keys resolved.design.declarations ++ resolved.labels.map Text.lower).Nodup ∧
    ∃ unit module, Text.run ' ' 2 = .ok unit ∧ (moduleOf Dialect.legacy.profile resolved).result = .ok module ∧
      Verilog.textOf (module.fragments unit) = text ∧
      (((Verilog.introduced (module.fragments unit)).map Text.lower).Nodup ↔
        ∀ pair ∈ shadows Dialect.legacy.profile resolved, ∀ label ∈ resolved.labels,
          Text.lower pair.2 ≠ Text.lower label) := by
  obtain ⟨resolved, loaded, module, _, ⟨_, rendered, _⟩, distinct, _⟩ := sampleLabel_names
  exact ⟨resolved, _, loaded, rendered, distinct, module_scope_is_clear_iff loaded rendered distinct⟩

/-- The register and the block of the process have one name. -/
theorem names_clash_in_sampleLabel : ∃ resolved module, (load sampleLabel true).result = .ok resolved ∧
    (moduleOf Dialect.legacy.profile resolved).result = .ok module ∧
    (render resolved .legacy 2).result = .ok (Verilog.textOf (module.fragments "  ")) ∧
    (Vhdl.keys resolved.design.declarations ++ resolved.labels.map Text.lower).Nodup ∧
    ¬ ((Verilog.introduced (module.fragments "  ")).map Text.lower).Nodup := by
  obtain ⟨resolved, loaded, module, written, ⟨_, rendered, rfl⟩, distinct, introduced⟩ := sampleLabel_names
  refine ⟨resolved, module, loaded, written, module.textOf_fragments _ ▸ rendered, distinct, ?_⟩
  rw [introduced]
  simp

end Emission

end RtlBridge

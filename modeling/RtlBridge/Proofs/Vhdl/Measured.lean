import RtlBridge.Proofs.Vhdl.LoweredShape
import RtlBridge.Proofs.Vhdl.Nodes
import RtlBridge.Vhdl.Resolution

/-! Whatever stands in a design can be read and measured: literals have values, calls have their arguments,
and every expression has a measure. -/

namespace RtlBridge

open List

theorem Table.mem_of_find?_ofList {κ α : Type} [DecidableEq κ] {entries : List (κ × α)} {key : κ} {value : α}
    (found : (Table.ofList entries).find? key = some value) : (key, value) ∈ entries := by
  have gathered (list : List (κ × α)) (table : Table κ α)
      (found : (list.foldl (fun table entry => table.insert entry.1 entry.2) table).find? key = some value) :
      (key, value) ∈ list ∨ table.find? key = some value := by
    induction list generalizing table with
    | nil => exact .inr found
    | cons first rest ih =>
      rcases ih (table.insert first.1 first.2) found with later | here
      · exact .inl (mem_cons_of_mem first later)
      · rw [Table.find?_insert] at here
        split at here
        · rename_i same
          cases here
          exact .inl (same ▸ mem_cons_self ..)
        · exact .inr here
  rcases gathered entries .empty found with member | none
  · exact member
  · cases none

namespace Vhdl

theorem names_isPresent (sound : design.IsSound) (found : (names design).type? name = some type) : type.IsPresent := by
  obtain ⟨info, infoFound, isType⟩ := Option.bind_eq_some_iff.mp found
  have member := Table.mem_of_find?_ofList infoFound
  rcases mem_append.mp member with isPort | declared
  · obtain ⟨port, inEntity, same⟩ := mem_map.mp isPort
    cases same
    cases isType
    exact sound.ports port inEntity
  · cases is : design.architecture with
    | none =>
      rw [is] at declared
      cases declared
    | some body =>
      rw [is] at declared
      have inside := sound.architecture body is
      simp only [mem_append, mem_flatMap, mem_map] at declared
      rcases declared with ((⟨decl, isEnum, literal, _, same⟩ | ⟨decl, isConstant, same⟩) |
        ⟨decl, isSignal, same⟩) | ⟨block, isProcess, decl, isVar, same⟩
      · cases same
        cases isType
        exact inside.enums decl isEnum
      · cases same
        cases isType
        exact (inside.constants decl isConstant).1
      · cases same
        cases isType
        exact (inside.signals decl isSignal).1
      · cases same
        cases isType
        exact ((inside.statements _ (Architecture.mem_processes.mp isProcess)).1 decl isVar).1

theorem DataType.measure_isOk {type : DataType} (present : type.IsPresent) : type.measure = .ok type.width := by
  unfold DataType.measure
  split
  · exact absurd rfl present
  · rfl

theorem Builtin.arity?_eq_some (is : arity? function = some arity) :
    (arity = 2 ∧ ((sizedConversion? function).isSome = true ∨ (shift? function).isSome = true)) ∨
      (arity = 1 ∧ (sizedConversion? function).isSome = false ∧ (shift? function).isSome = false) := by
  rw [arity?] at is
  split at is
  · rename_i two
    cases is
    exact .inl ⟨rfl, by simpa using two⟩
  · rename_i notTwo
    split at is
    · cases is
      exact .inr ⟨rfl, by simpa using notTwo⟩
    · cases is

namespace Expr

variable {names : NameTable}

theorem sumMeasures_isOk (each : ∀ part ∈ parts, ∃ width, part.measure names = .ok width) :
    ∃ width, measure.sumMeasures names parts = .ok width := by
  induction parts with
  | nil => exact ⟨_, rfl⟩
  | cons part rest ih =>
    obtain ⟨first, firstOk⟩ := each part (mem_cons_self ..)
    obtain ⟨others, othersOk⟩ := ih fun other member => each other (mem_cons_of_mem part member)
    exact ⟨_, by rw [measure.sumMeasures, firstOk, othersOk]; rfl⟩

theorem measure_name_isOk (present : ∀ name type, names.type? name = some type → type.IsPresent)
    (spelling : String) (line : Nat) : ∃ width, (Expr.name spelling line).measure names = .ok width := by
  rw [measure]
  cases found : names.type? spelling with
  | none => exact ⟨_, rfl⟩
  | some type =>
    dsimp only
    rw [DataType.measure_isOk (present spelling type found)]
    exact ⟨_, rfl⟩

theorem measure_isOk (present : ∀ name type, names.type? name = some type → type.IsPresent) (expr : Expr)
    (lowered : expr.IsLowered) : ∃ width, expr.measure names = .ok width := by
  induction expr using Expr.induction with
  | name spelling line => exact measure_name_isOk present spelling line
  | binary op lhs rhs line inLeft inRight =>
    obtain ⟨left, leftOk⟩ := inLeft lowered.2.1
    obtain ⟨right, rightOk⟩ := inRight lowered.2.2
    exact ⟨_, by rw [measure, leftOk, rightOk]; rfl⟩
  | unary op operand line inOperand =>
    rw [measure]
    exact inOperand lowered.2
  | call function arguments line inArguments =>
    have areLowered := (areAll_iff _).mp lowered.2
    have arity := Builtin.arity?_eq_some lowered.1
    unfold measure
    split
    · exact ⟨_, rfl⟩
    · split
      · exact ⟨_, rfl⟩
      · split
        · rename_i sized
          match arguments, arity with
          | _ :: _ :: _, _ => exact ⟨_, rfl⟩
          | [], arity => simp at arity
          | [_], arity => simp [sized] at arity
        · match arguments, arity, inArguments, areLowered with
          | first :: rest, _, inArguments, areLowered =>
            exact inArguments first (mem_cons_self ..) (areLowered first (mem_cons_self ..))
          | [], arity, _, _ => simp at arity
  | concat parts line inParts =>
    have areLowered := (areAll_iff _).mp lowered.2
    rw [measure]
    exact sumMeasures_isOk fun part member => inParts part member (areLowered part member)
  | literal value line
  | aggregate fill site line inFill
  | index base subscript line inBase inSubscript
  | slice base left right line inBase inLeft inRight
  | tick base property line inBase => exact ⟨_, rfl⟩

end Expr

theorem Expr.width_of_measure {names : NameTable} (expr : Expr) (measured : expr.measure names = .ok width) :
    width = expr.width? names := by
  induction expr using Expr.induction generalizing width with
  | name spelling line =>
    rw [measure] at measured
    rw [width?]
    cases found : names.type? spelling with
    | none =>
      rw [found] at measured
      cases measured
      rfl
    | some type =>
      simp only [found, DataType.measure] at measured
      split at measured <;> cases measured
      rfl
  | binary op lhs rhs line inLeft inRight =>
    simp only [measure, bind_eq_ok] at measured
    obtain ⟨left, leftOk, right, rightOk, ⟨⟩⟩ := measured
    rw [width?, inLeft leftOk, inRight rightOk]
  | unary op operand line inOperand =>
    rw [width?]
    exact inOperand measured
  | call function arguments line inArguments =>
    rw [measure.eq_def] at measured
    rw [width?.eq_def]
    dsimp only at measured ⊢
    split at measured
    · cases measured
      rw [if_pos ‹_›]
    · rw [if_neg ‹_›]
      split at measured
      · cases measured
        rw [if_pos ‹_›]
      · rw [if_neg ‹_›]
        split at measured
        · rw [if_pos ‹_›]
          split at measured <;> cases measured
          rfl
        · rw [if_neg ‹_›]
          cases arguments with
          | nil => cases measured
          | cons first rest => exact inArguments first (mem_cons_self ..) measured
  | concat parts line inParts =>
    rw [measure] at measured
    rw [width?]
    induction parts generalizing width with
    | nil =>
      cases measured
      rfl
    | cons part rest ih =>
      obtain ⟨here, later⟩ := forall_mem_cons.mp inParts
      simp only [measure.sumMeasures, bind_eq_ok] at measured
      obtain ⟨first, firstOk, others, othersOk, ⟨⟩⟩ := measured
      rw [width?.sumWidths, here firstOk, ih later othersOk]
  | _ =>
    cases measured
    rfl

/-! ### Parsed and lowered designs -/

section Parsed

theorem Expr.IsParsed.readable {expr : Expr} (parsed : expr.IsParsed) : ∀ node ∈ expr.nodes, node.ReadableNode := by
  intro node member
  have isParsed := (All.of_mem_nodes parsed member).self
  cases node with
  | literal value line => exact isParsed.isReadable
  | _ => trivial

theorem Target.readableNode_toExpr (target : Target) : target.toExpr.ReadableNode := by
  unfold toExpr
  cases target.part <;> trivial

theorem Target.IsParsed.readable {target : Target} (parsed : target.IsParsed) :
    ∀ node ∈ target.toExpr.nodes, node.ReadableNode :=
  target.forall_mem_nodes (fun _ => readableNode_toExpr _) (parsed.2.mono fun _ => Expr.IsParsed.readable)

theorem Stmt.IsParsed.readable {stmt : Stmt} (parsed : stmt.IsParsed) : ∀ node ∈ stmt.nodes, node.ReadableNode :=
  stmt.forall_mem_nodes Target.readableNode_toExpr (parsed.uses.mono fun _ => Expr.IsParsed.readable)

theorem TypeMark.IsParsed.readable {mark : TypeMark} (parsed : mark.IsParsed) :
    ∀ node ∈ mark.nodes, node.ReadableNode := by
  simp only [TypeMark.nodes, forall_mem_flatMap, Option.mem_toList, forall_mem_append]
  intro bounds isBounds
  obtain ⟨left, right⟩ := parsed.bounds bounds isBounds
  exact ⟨left.readable, right.readable⟩

theorem ObjectDecl.IsParsed.readable {decl : ObjectDecl TypeMark} (parsed : decl.IsParsed) :
    ∀ node ∈ decl.nodes TypeMark.nodes, node.ReadableNode := by
  simp only [ObjectDecl.nodes, forall_mem_flatMap, Option.mem_toList, forall_mem_append]
  exact ⟨parsed.type.readable, fun value isInit => (parsed.init value isInit).readable⟩

theorem Concurrent.IsParsed.readable {stmt : Concurrent TypeMark} (parsed : stmt.IsParsed) :
    ∀ node ∈ stmt.nodes TypeMark.nodes, node.ReadableNode := by
  cases stmt with
  | process block =>
    simp only [Concurrent.nodes, forall_mem_flatMap, forall_mem_append]
    exact ⟨fun decl member => (parsed.vars decl member).readable,
      fun inner member => (parsed.body inner member).readable⟩
  | assign assignment =>
    simp only [Concurrent.nodes, forall_mem_append]
    exact ⟨parsed.1.readable, parsed.2.readable⟩
  | conditional assignment =>
    obtain ⟨target, _, choices, default⟩ := parsed
    simp only [Concurrent.nodes, forall_mem_flatMap, forall_mem_append]
    refine ⟨⟨target.readable, fun choice member => ?_⟩, default.readable⟩
    exact ⟨(choices choice member).1.readable, (choices choice member).2.readable⟩
  | captured statement => simp [Concurrent.nodes]

theorem DesignUnit.IsParsed.readable {unit : DesignUnit TypeMark} (parsed : unit.IsParsed) :
    ∀ node ∈ unit.nodes TypeMark.nodes, node.ReadableNode := by
  simp only [DesignUnit.nodes, Architecture.nodes, forall_mem_flatMap, forall_mem_append, Option.mem_toList]
  refine ⟨fun port member => (parsed.entity.ports port member).type.readable, fun body isBody => ?_⟩
  have inside := (parsed.architecture body isBody).1
  refine ⟨⟨fun decl member => (inside.signals decl member).readable, fun decl member => ?_⟩,
    fun stmt member => (inside.statements stmt member).readable⟩
  have isConstant := inside.constants decl member
  simp only [ConstantDecl.nodes, forall_mem_append]
  exact ⟨isConstant.type.readable, isConstant.value.readable⟩

end Parsed

/-- A literal that is read has a value, a call has its arguments, and the expression has a measure. -/
structure Expr.LacksNothing (names : NameTable) (node : Expr) : Prop where
  readable : node.ReadableNode
  arguments : ∀ function arguments line, node = .call function arguments line →
    Builtin.arity? function = some arguments.length
  measured : node.measure names = .ok (node.width? names)

section Lowered

variable {names : NameTable} (present : ∀ name type, names.type? name = some type → type.IsPresent)
include present

theorem Expr.IsSound.lacksNothing {expr : Expr} (sound : expr.IsSound) :
    ∀ node ∈ expr.nodes, node.LacksNothing names := by
  intro node member
  have isSound : node.IsSound := All.of_mem_nodes sound member
  obtain ⟨width, measured⟩ := measure_isOk present node isSound.isLowered
  refine ⟨isSound.self.2, ?_, node.width_of_measure measured ▸ measured⟩
  rintro function arguments line rfl
  exact isSound.self.1

theorem Target.lacksNothing_toExpr (target : Target) : target.toExpr.LacksNothing names := by
  obtain ⟨width, measured⟩ : ∃ width, target.toExpr.measure names = .ok width := by
    unfold toExpr
    cases target.part with
    | whole => exact Expr.measure_name_isOk present target.name target.line
    | element subscript | range left right => exact ⟨_, rfl⟩
  refine ⟨target.readableNode_toExpr, ?_, target.toExpr.width_of_measure measured ▸ measured⟩
  intro function arguments line isCall
  unfold toExpr at isCall
  cases is : target.part <;> simp [is] at isCall

theorem Target.lacksNothing {target : Target} (sound : target.part.All Expr.IsSound) :
    ∀ node ∈ target.toExpr.nodes, node.LacksNothing names :=
  target.forall_mem_nodes (fun _ => lacksNothing_toExpr present _) (sound.mono fun _ => (·.lacksNothing present))

theorem Stmt.lacksNothing {stmt : Stmt} (sound : stmt.Uses Expr.IsSound) :
    ∀ node ∈ stmt.nodes, node.LacksNothing names :=
  stmt.forall_mem_nodes (Target.lacksNothing_toExpr present) (sound.mono fun _ => (·.lacksNothing present))

theorem Concurrent.IsSound.lacksNothing {stmt : Concurrent DataType} (sound : stmt.IsSound) :
    ∀ node ∈ stmt.nodes (fun _ => []), node.LacksNothing names := by
  cases stmt with
  | process block =>
    simp only [Concurrent.nodes, ObjectDecl.nodes, nil_append, forall_mem_flatMap, forall_mem_append, Option.mem_toList]
    exact ⟨fun decl member value isInit => ((sound.1 decl member).2 value isInit).lacksNothing present,
      fun inner member => Stmt.lacksNothing present (sound.2 inner member)⟩
  | assign assignment =>
    simp only [Concurrent.nodes, forall_mem_append]
    exact ⟨Target.lacksNothing present sound.1, sound.2.lacksNothing present⟩
  | conditional assignment =>
    obtain ⟨target, choices, default⟩ := sound
    simp only [Concurrent.nodes, forall_mem_flatMap, forall_mem_append]
    refine ⟨⟨Target.lacksNothing present target, fun choice member => ?_⟩, default.lacksNothing present⟩
    exact ⟨(choices choice member).1.lacksNothing present, (choices choice member).2.lacksNothing present⟩
  | captured statement => simp [Concurrent.nodes]

end Lowered

theorem Design.IsSound.lacksNothing {design : Design} (sound : design.IsSound) :
    ∀ node ∈ design.nodes (fun _ => []), node.LacksNothing (names design) := by
  have present (name type) (found : (names design).type? name = some type) := names_isPresent sound found
  simp only [DesignUnit.nodes, Architecture.nodes, ObjectDecl.nodes, ConstantDecl.nodes, nil_append,
    forall_mem_flatMap, forall_mem_append, Option.mem_toList]
  refine ⟨nofun, fun body isBody => ?_⟩
  have inside := sound.architecture body isBody
  exact ⟨⟨fun decl member value isInit => ((inside.signals decl member).2 value isInit).lacksNothing present,
    fun decl member => (inside.constants decl member).2.lacksNothing present⟩,
    fun stmt member => (inside.statements stmt member).lacksNothing present⟩

/-- A width of something that stands in a design, or of something that it declares. -/
def Design.HasWidth (design : Design) (width : Int) : Prop :=
  (∃ node ∈ design.nodes (fun _ => []), node.width? (names design) = some width) ∨
    ∃ body ∈ design.architecture,
      (∃ decl ∈ body.constants, decl.type.width = width) ∨ (∃ decl ∈ body.signals, decl.type.width = width) ∨
        ∃ block ∈ body.processes, ∃ decl ∈ block.vars, decl.type.width = width

end Vhdl

end RtlBridge

import RtlBridge.Proofs.Emission.TidyModule
import RtlBridge.Proofs.Vhdl.OwnNames

/-! A design is tidy if none of its own names is a word of structure. -/

namespace RtlBridge.Vhdl

open List

open Verilog (IsPlainName)

theorem isPlainName_of_identifier (identifier : isIdentifier name = true) (other : name ∉ Verilog.keywords)
    : IsPlainName name := by
  rw [isIdentifier] at identifier
  cases spelled : name.toList with
  | nil =>
    rw [spelled] at identifier
    cases identifier
  | cons c rest =>
    simp only [spelled, Bool.and_eq_true, all_eq_true] at identifier
    refine ⟨by simp [spelled], ?_, other⟩
    rw [spelled, forall_mem_cons]
    constructor
    · simp [Verilog.inWord, Char.isAlphanum, identifier.1]
    · intro letter member
      have isWord : letter.isAlphanum = true ∨ letter = '_' := by
        simpa [Piece.isWordChar] using identifier.2 letter member
      rcases isWord with isLetter | same
      · simp [Verilog.inWord, isLetter]
      · simp [Verilog.inWord, same]

/-! ### Expressions and statements -/

section

variable {visible : List (String × NameInfo)} (plain : ∀ entry ∈ visible, IsPlainName entry.1)

include plain

theorem Expr.IsSound.isTidy {expr : Expr} (sound : expr.IsSound) (isScoped : expr.IsScoped visible) : expr.IsTidy := by
  apply Expr.All.mono _ (Expr.All.and sound isScoped)
  intro node holds
  cases node with
  | name spelling line =>
    obtain ⟨info, declared⟩ := holds.2
    exact plain _ declared
  | literal value line => exact holds.1.2
  | tick base property line => exact holds.2.1
  | _ => trivial

theorem Target.IsScoped.isTidy {target : Target} (isScoped : target.IsScoped visible immediate)
    (sound : target.part.All Expr.IsSound) : target.IsTidy := by
  obtain ⟨⟨info, declared, _⟩, inPart⟩ := isScoped
  refine ⟨plain _ declared, ?_⟩
  cases is : target.part with
  | whole => trivial
  | element subscript =>
    rw [is] at sound inPart
    exact Expr.IsSound.isTidy plain sound inPart
  | range left right =>
    rw [is] at sound inPart
    exact ⟨Expr.IsSound.isTidy plain sound.1 inPart.1, Expr.IsSound.isTidy plain sound.2 inPart.2⟩

theorem Stmt.IsScoped.isTidy {stmt : Stmt} (isScoped : stmt.IsScoped visible) (sound : stmt.Uses Expr.IsSound)
    (branched : stmt.All BranchedNode) : stmt.IsTidy := by
  rw [Stmt.IsScoped, Stmt.all_iff_forall_stmts] at isScoped
  rw [Stmt.Uses, Stmt.all_iff_forall_stmts] at sound
  rw [Stmt.all_iff_forall_stmts] at branched
  rw [Stmt.IsTidy, Stmt.all_iff_forall_stmts]
  intro inner member
  have names := isScoped inner member
  have literals := sound inner member
  cases inner with
  | assign target value immediate line =>
    have place := names.1.isTidy plain literals.1
    exact ⟨place.1, place.2, literals.2.isTidy plain names.2⟩
  | conditional branches otherwise line =>
    refine ⟨branched _ member, ?_⟩
    intro branch isBranch
    exact (literals branch isBranch).isTidy plain (names branch isBranch)
  | selection selector arms default line =>
    refine ⟨literals.1.isTidy plain names.1, ?_⟩
    intro arm isArm choice isChoice
    exact (literals.2 arm isArm choice isChoice).isTidy plain (names.2 arm isArm choice isChoice)
  | captured statement => trivial

end

theorem HasKind.isTidy (hasKind : HasKind constants sensitivity body kind) (tidy : ∀ inner ∈ body, inner.IsTidy)
    (plain : ∀ listed, sensitivity = .listed listed → ∀ name ∈ listed, IsPlainName name) : kind.IsTidy := by
  have kept := hasKind.all ((bodyAll_iff body).mpr tidy)
  cases hasKind with
  | combinational free => trivial
  | clocked single isEdge hasReset =>
    have clocked := (bodyAll_iff _).mp kept.2
    have clock := plain _ rfl _ (mem_singleton_self _)
    cases hasReset with
    | sync starts | none free => exact ⟨clock, clocked⟩
  | withReset single isLevel isEdge differ sensitive =>
    have names := plain _ rfl
    refine ⟨names _ (sensitive.mem_iff.mpr (by simp)), names _ (sensitive.mem_iff.mpr (by simp)), ?_, ?_⟩
    · exact (bodyAll_iff _).mp kept.1
    · exact (bodyAll_iff _).mp kept.2

/-! ### Designs -/

namespace ResolvedFrom

variable {parsed : DesignUnit TypeMark} {resolved : Resolved} (origin : ResolvedFrom parsed resolved)
  (other : ∀ name ∈ resolved.design.ownNames, name ∉ Verilog.keywords)

include origin other

theorem isPlainName_own (own : name ∈ resolved.design.ownNames) : IsPlainName name :=
  isPlainName_of_identifier (origin.isIdentifier_ownNames name own) (other name own)

theorem isPlainName_declared : ∀ entry ∈ resolved.design.declarations, IsPlainName entry.1 := by
  intro entry declared
  exact origin.isPlainName_own other (Design.declared_mem_ownNames declared)

theorem isTidy_object (member : (name, type) ∈ resolved.design.objects) : IsPlainName name ∧ type.IsTidy := by
  obtain ⟨role, _, declared⟩ := declared_of_mem_objects member
  refine ⟨origin.isPlainName_declared other _ declared, ?_⟩
  cases type with
  | bit => trivial
  | vector shape => trivial
  | enum shape =>
    obtain ⟨body, decl, is, isDecl, rfl⟩ := origin.declares_enum member
    exact origin.isPlainName_own other (Design.type_mem_ownNames is isDecl)

theorem isPlainName_global : ∀ entry ∈ resolved.design.globals, IsPlainName entry.1 := by
  intro entry isGlobal
  exact origin.isPlainName_declared other entry (mem_append_left _ isGlobal)

theorem isTidy_process (inDesign : .process block ∈ resolved.design.statements) :
    (∀ label ∈ block.label, IsPlainName label) ∧ ∀ inner ∈ block.body, inner.IsTidy := by
  obtain ⟨body, is, inBody⟩ := DesignUnit.mem_statements.mp inDesign
  have isProcess := Architecture.mem_processes.mpr inBody
  have names := origin.isScoped.statements _ inDesign
  have literals := ((isSound_of_lower origin.isParsed origin.isLowered).architecture body is).statements _ inBody
  have visible : ∀ entry ∈ resolved.design.globals ++ objectInfos .var block.vars, IsPlainName entry.1 :=
    fun entry isVisible => origin.isPlainName_declared other entry (Design.visible_subset inDesign isVisible)
  have branched := (origin.process_of_statement inDesign).2
  constructor
  · intro label isLabel
    exact origin.isPlainName_own other (Design.label_mem_ownNames is isProcess isLabel)
  · intro inner isInner
    exact (names.body inner isInner).isTidy visible (literals.2 inner isInner) (branched inner isInner)

theorem isTidy_statement (member : statement ∈ resolved.statements) : statement.IsTidy := by
  obtain ⟨inDesign, classified⟩ := origin.resolves.classified member
  obtain ⟨body, is, inBody⟩ := DesignUnit.mem_statements.mp inDesign
  have outer := origin.isPlainName_global other
  have names := origin.isScoped.statements _ inDesign
  have literals := ((isSound_of_lower origin.isParsed origin.isLowered).architecture body is).statements _ inBody
  cases statement with
  | process block kind =>
    obtain ⟨label, tidy⟩ := origin.isTidy_process other inDesign
    refine ⟨label, tidy, HasKind.isTidy classified tidy ?_⟩
    intro listed same name isListed
    obtain ⟨info, isGlobal, _⟩ := (names.sensitivity listed same).2 name isListed
    exact outer _ isGlobal
  | assign assignment => exact ⟨names.1.isTidy outer literals.1, literals.2.isTidy outer names.2⟩
  | conditional assignment =>
    refine ⟨names.1.isTidy outer literals.1, ?_, literals.2.2.isTidy outer names.2.2⟩
    intro choice isChoice
    have value := (literals.2.1 choice isChoice).1.isTidy outer (names.2.1 choice isChoice).1
    have condition := (literals.2.1 choice isChoice).2.isTidy outer (names.2.1 choice isChoice).2
    exact ⟨value, condition⟩
  | captured statement => trivial

theorem isTidy_architecture (is : resolved.design.architecture = some body) : body.IsTidy := by
  have globals := Design.globals_of_architecture is
  have outer := origin.isPlainName_global other
  have sound := (isSound_of_lower origin.isParsed origin.isLowered).architecture body is
  constructor
  · intro decl isDecl
    refine ⟨origin.isPlainName_own other (Design.type_mem_ownNames is isDecl), ?_⟩
    intro literal isLiteral
    exact outer _ (Design.literal_mem_globals is isDecl isLiteral)
  · intro decl isConstant
    have declared : (decl.name, ⟨.constant, some decl.type⟩) ∈ resolved.design.globals := by
      rw [globals]
      apply mem_append_left
      exact mem_append_right _ (mem_map_of_mem isConstant)
    exact ⟨outer _ declared, (sound.constants decl isConstant).2.isTidy outer (origin.isScoped.constant is isConstant)⟩
  · intro decl member
    have inObjects : (decl.name, decl.type) ∈ resolved.design.objects := by
      simp only [DesignUnit.objects, is, ← map_flatMap, ← map_append, append_assoc]
      apply mem_append_right
      apply mem_append_right
      exact mem_map_of_mem member
    have literals : ∀ value ∈ decl.init, value.IsSound := by
      rcases mem_append.mp member with isSignal | isVar
      · exact (sound.signals decl isSignal).2
      · obtain ⟨block, isProcess, isVar⟩ := mem_flatMap.mp isVar
        exact ((sound.statements _ (Architecture.mem_processes.mp isProcess)).1 decl isVar).2
    obtain ⟨isName, type⟩ := origin.isTidy_object other inObjects
    refine ⟨isName, type, fun value isInit => (literals value isInit).isTidy (origin.isPlainName_declared other) ?_⟩
    exact origin.isScoped.object is member value isInit

theorem isTidy : resolved.IsTidy := by
  constructor
  · exact origin.isPlainName_own other (mem_cons_self ..)
  · intro port isPort
    apply origin.isTidy_object other
    exact mem_append_left _ (mem_map_of_mem isPort)
  · intro name driven
    obtain ⟨_, type, declared, _⟩ := origin.declares_driven driven
    exact origin.isPlainName_declared other _ declared
  · intro body is
    exact origin.isTidy_architecture other is
  · intro statement member
    exact origin.isTidy_statement other member

end ResolvedFrom

end RtlBridge.Vhdl

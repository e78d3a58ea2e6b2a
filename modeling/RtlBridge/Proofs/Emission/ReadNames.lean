import RtlBridge.Proofs.Emission.ModuleDeclarations

/-! The names that a module reads. Expressions and statements read the names of their sources; only the
assignments that forward registers to wires read other names. -/

namespace RtlBridge

open List

namespace Verilog

def Expr.names : Expr → List String
  | .name text => [text]
  | .number _ => []
  | .sized _ _ _ => []
  | .fill _ => []
  | .unary _ operand => operand.names
  | .binary _ lhs rhs => lhs.names ++ rhs.names
  | .paren inner => inner.names
  | .concat parts => namesAll parts
  | .replicate _ part => part.names
  | .index base subscript => base.names ++ subscript.names
  | .slice base left right => base.names ++ left.names ++ right.names
  | .choose condition yes no => condition.names ++ yes.names ++ no.names
where
  namesAll : List Expr → List String
    | [] => []
    | first :: rest => first.names ++ namesAll rest

theorem Expr.namesAll_eq_flatMap : ∀ list, names.namesAll list = list.flatMap names := eq_flatMap rfl fun _ _ => rfl

def Expr.placeReads : Expr → List String
  | .name _ => []
  | .index base subscript => base.placeReads ++ subscript.names
  | .slice base left right => base.placeReads ++ left.names ++ right.names
  | other => other.names

mutual

def Stmt.stmts : Stmt → List Stmt
  | .assign target blocking value remarks => [.assign target blocking value remarks]
  | .conditional branches otherwise =>
    .conditional branches otherwise :: (branchStmts branches ++ optionStmts otherwise)
  | .selection unique selector arms default =>
    .selection unique selector arms default :: (armStmts arms ++ optionStmts default)
  | .placeholder comment => [.placeholder comment]

def bodyStmts : List Stmt → List Stmt
  | [] => []
  | first :: rest => first.stmts ++ bodyStmts rest

def branchStmts : List (Expr × List Stmt) → List Stmt
  | [] => []
  | (_, body) :: rest => bodyStmts body ++ branchStmts rest

def armStmts : List (List Expr × List Stmt) → List Stmt
  | [] => []
  | (_, body) :: rest => bodyStmts body ++ armStmts rest

def optionStmts : Option (List Stmt) → List Stmt
  | none => []
  | some body => bodyStmts body

end

theorem bodyStmts_eq_flatMap : ∀ body, bodyStmts body = body.flatMap Stmt.stmts := eq_flatMap rfl fun _ _ => rfl

theorem branchStmts_eq_flatMap : ∀ branches, branchStmts branches = branches.flatMap fun branch => bodyStmts branch.2 :=
  eq_flatMap rfl fun _ _ => rfl

theorem armStmts_eq_flatMap : ∀ arms, armStmts arms = arms.flatMap fun arm => bodyStmts arm.2 :=
  eq_flatMap rfl fun _ _ => rfl

def Stmt.children : Stmt → List Stmt
  | .conditional branches otherwise => branches.flatMap Prod.snd ++ otherwise.getD []
  | .selection _ _ arms default => arms.flatMap Prod.snd ++ default.getD []
  | _ => []

theorem Stmt.induction {motive : Stmt → Prop}
    (assign : ∀ target blocking value remarks, motive (.assign target blocking value remarks))
    (conditional : ∀ branches otherwise, (∀ branch ∈ branches, ∀ inner ∈ branch.2, motive inner) →
      (∀ body ∈ otherwise, ∀ inner ∈ body, motive inner) → motive (.conditional branches otherwise))
    (selection : ∀ unique selector arms default, (∀ arm ∈ arms, ∀ inner ∈ arm.2, motive inner) →
      (∀ body ∈ default, ∀ inner ∈ body, motive inner) → motive (.selection unique selector arms default))
    (placeholder : ∀ comment, motive (.placeholder comment)) (stmt : Stmt) : motive stmt :=
  @Stmt.rec motive (fun branches => ∀ branch ∈ branches, ∀ inner ∈ branch.2, motive inner)
    (fun option => ∀ body ∈ option, ∀ inner ∈ body, motive inner)
    (fun arms => ∀ arm ∈ arms, ∀ inner ∈ arm.2, motive inner)
    (fun branch => ∀ inner ∈ branch.2, motive inner) (fun body => ∀ inner ∈ body, motive inner)
    (fun arm => ∀ inner ∈ arm.2, motive inner)
    assign conditional selection placeholder
    (fun _ member => absurd member not_mem_nil)
    (fun _ _ first others => forall_mem_cons.mpr ⟨first, others⟩)
    (fun _ member => absurd member (Option.not_mem_none _))
    (fun _ inside _ member => Option.mem_some.mp member ▸ inside)
    (fun _ member => absurd member not_mem_nil)
    (fun _ _ first others => forall_mem_cons.mpr ⟨first, others⟩)
    (fun _ _ inside => inside)
    (fun _ member => absurd member not_mem_nil)
    (fun _ _ first others => forall_mem_cons.mpr ⟨first, others⟩)
    (fun _ _ inside => inside) stmt

@[elab_as_elim]
theorem Stmt.childInduction {motive : Stmt → Prop}
    (step : ∀ stmt, (∀ child ∈ stmt.children, motive child) → motive stmt) (stmt : Stmt) : motive stmt := by
  have inOption {option : Option (List Stmt)} (each : ∀ body ∈ option, ∀ inner ∈ body, motive inner) :
      ∀ inner ∈ option.getD [], motive inner := by
    cases option with
    | none => exact forall_mem_nil _
    | some body => exact each body rfl
  induction stmt using Stmt.induction with
  | conditional branches otherwise inBranches inOtherwise =>
    exact step _ (forall_mem_append.mpr ⟨forall_mem_flatMap.mpr inBranches, inOption inOtherwise⟩)
  | selection unique selector arms default inArms inDefault =>
    exact step _ (forall_mem_append.mpr ⟨forall_mem_flatMap.mpr inArms, inOption inDefault⟩)
  | _ => exact step _ (forall_mem_nil _)

theorem Stmt.stmts_eq_cons (stmt : Stmt) : stmt.stmts = stmt :: stmt.children.flatMap stmts := by
  cases stmt with
  | conditional branches otherwise =>
    cases otherwise <;>
      simp [stmts, children, branchStmts_eq_flatMap, bodyStmts_eq_flatMap, optionStmts, flatMap_assoc]
  | selection unique selector arms default =>
    cases default <;>
      simp [stmts, children, armStmts_eq_flatMap, bodyStmts_eq_flatMap, optionStmts, flatMap_assoc]
  | _ => simp [stmts, children]

theorem Stmt.mem_stmts {inner : Stmt} :
    inner ∈ stmt.stmts ↔ inner = stmt ∨ ∃ child ∈ stmt.children, inner ∈ child.stmts := by
  rw [stmts_eq_cons, mem_cons, mem_flatMap]

/-- The names that a statement reads, apart from those that the statements in it read. -/
def Stmt.ownReads : Stmt → List String
  | .assign target _ value _ => target.placeReads ++ value.names
  | .conditional branches _ => branches.flatMap fun branch => branch.1.names
  | .selection _ selector arms _ => selector.names ++ arms.flatMap fun arm => arm.1.flatMap Expr.names
  | .placeholder _ => []

def Trigger.reads : Trigger → List String
  | .inputs _ => []
  | .edges _ events => events.map Prod.snd

/-- The names that an item reads. What stands in comments is not read. -/
def Item.reads : Item → List String
  | .parameter _ _ _ value _ => value.names
  | .object _ _ _ init _ => init.toList.flatMap Expr.names
  | .assign target value _ => target.placeReads ++ value.names
  | .always trigger _ body => trigger.reads ++ (bodyStmts body).flatMap Stmt.ownReads
  | .enumType _ _ => []
  | .enumNote _ => []
  | .placeholder _ => []

end Verilog

namespace Emission

open Vhdl (DataType NameTable NameInfo Resolved ResolvedStmt Design Expr Stmt bodyStmts)

def Declared (visible : List (String × NameInfo)) (name : String) : Prop := ∃ info, (name, info) ∈ visible

theorem Declared.mono (inside : visible ⊆ more) (declared : Declared visible name) : Declared more name := by
  obtain ⟨info, member⟩ := declared
  exact ⟨info, inside member⟩

section

variable {names : NameTable} {profile : Profile} {visible : List (String × NameInfo)}

/-! ### Expressions -/

theorem names_literal (value : Vhdl.Literal) : (literal value).names = [] := by cases value <;> rfl

theorem names_grouped (source : Expr) (written : Verilog.Expr) : (grouped source written).names = written.names := by
  rw [grouped]
  split <;> rfl

theorem names_signed (op : Vhdl.UnaryOp) (source : Expr) (written : Verilog.Expr) :
    (signed op source written).names = written.names := by cases op <;> cases source <;> rfl

theorem declared_of_expr (isScoped : source.IsScoped visible) (ok : expr names profile lend width source = .ok written) :
    ∀ name ∈ written.names, Declared visible name := by
  have writes := writes_of_expr ok
  clear ok
  induction writes with
  | name => exact forall_mem_singleton.mpr isScoped
  | literal =>
    rw [names_literal]
    exact forall_mem_nil _
  | binary _ _ left right =>
    have both := forall_mem_append.mpr ⟨left isScoped.2.1, right isScoped.2.2⟩
    split <;> simpa only [Verilog.Expr.names, names_grouped] using both
  | unary _ inner =>
    rw [names_signed, names_grouped]
    exact inner isScoped.2
  | shift _ _ _ left right =>
    have areScoped := (Expr.areAll_iff _).mp isScoped.2
    rw [Verilog.Expr.names, names_grouped, names_grouped, forall_mem_append]
    exact ⟨left (areScoped _ (by simp)), right (areScoped _ (by simp))⟩
  | conversion _ _ _ inner => exact inner ((Expr.areAll_iff _).mp isScoped.2 _ (by simp))
  | fill ok =>
    obtain ⟨_, rfl⟩ | ⟨_, _, _, rfl⟩ := filled_eq_ok ok
    · exact forall_mem_nil _
    · exact forall_mem_nil _
  | replicate _ _ inner =>
    rw [Verilog.Expr.names]
    exact inner isScoped.2
  | concat length _ each =>
    rw [Verilog.Expr.names, Verilog.Expr.namesAll_eq_flatMap, forall_mem_flatMap]
    intro result inList
    obtain ⟨part, isPart, declared⟩ := source_of_mem (forall₂_iff_zip.mpr ⟨length, each⟩) inList
    exact declared ((Expr.areAll_iff _).mp isScoped.2 part isPart)
  | index _ _ first second => exact forall_mem_append.mpr ⟨first isScoped.2.1, second isScoped.2.2⟩
  | slice _ _ _ first second third =>
    rw [Verilog.Expr.names, forall_mem_append, forall_mem_append]
    exact ⟨⟨first isScoped.2.1, second isScoped.2.2.1⟩, third isScoped.2.2.2⟩

end

section

variable {context : Context} {visible : List (String × NameInfo)}

theorem declared_of_target (inPart : source.part.All (Expr.IsScoped visible))
    (ok : target context source = .ok place) : ∀ name ∈ place.placeReads, Declared visible name := by
  obtain ⟨name, part, line⟩ := source
  cases part with
  | whole =>
    cases ok
    nofun
  | element subscript =>
    obtain ⟨inner, innerOk, ok⟩ := bind_eq_ok.mp ok
    cases ok
    exact declared_of_expr inPart innerOk
  | range left right =>
    obtain ⟨high, highOk, ok⟩ := bind_eq_ok.mp ok
    obtain ⟨low, lowOk, ok⟩ := bind_eq_ok.mp ok
    cases ok
    exact forall_mem_append.mpr ⟨declared_of_expr inPart.1 highOk, declared_of_expr inPart.2 lowOk⟩

/-! ### Statements -/

theorem children_of_standsFor (stands : StandsFor context source written) :
    written.children = [] ∨ Forall₂ (StandsFor context) source.children written.children := by
  obtain ok | ⟨_, _, comment, _, rfl⟩ := stands
  · cases stmt_eq_ok ok with
    | conditional each restOk =>
      refine .inr (rel_append (rel_flatMap each fun _ _ one => body_eq_ok one.2) ?_)
      split
      · rename_i empty
        rw [isEmpty_iff.mp empty]
        exact .nil
      · exact body_eq_ok restOk
    | selection _ each lastOk =>
      refine .inr (rel_append (rel_flatMap each fun _ _ one => body_eq_ok one.2) ?_)
      cases lastOk with
      | none => exact .nil
      | some bodyOk => exact body_eq_ok bodyOk
    | _ => exact .inl rfl
  · exact .inl rfl

theorem source_of_stmts (source : Stmt) (stands : StandsFor context source written)
    (member : nested ∈ written.stmts) : ∃ origin ∈ source.stmts, StandsFor context origin nested := by
  induction source using Stmt.childInduction generalizing written with
  | step source ih =>
    obtain rfl | ⟨child, isChild, inChild⟩ := Verilog.Stmt.mem_stmts.mp member
    · exact ⟨source, source.mem_stmts_self, stands⟩
    · obtain none | all := children_of_standsFor stands
      · simp [none] at isChild
      obtain ⟨outer, isOuter, standsFor⟩ := source_of_mem all isChild
      obtain ⟨origin, isOrigin, found⟩ := ih outer isOuter standsFor inChild
      exact ⟨origin, Stmt.mem_stmts.mpr (.inr ⟨outer, isOuter, isOrigin⟩), found⟩

theorem source_of_body (ok : (body context list).result = .ok written) (member : child ∈ Verilog.bodyStmts written) :
    ∃ origin ∈ bodyStmts list, StandsFor context origin child := by
  rw [Verilog.bodyStmts_eq_flatMap] at member
  obtain ⟨statement, inWritten, inStatement⟩ := mem_flatMap.mp member
  obtain ⟨source, inList, stands⟩ := source_of_mem (body_eq_ok ok) inWritten
  obtain ⟨origin, inSource, isOrigin⟩ := source_of_stmts source stands inStatement
  refine ⟨origin, ?_, isOrigin⟩
  rw [Vhdl.bodyStmts_eq_flatMap]
  exact mem_flatMap.mpr ⟨source, inList, inSource⟩

theorem assign_of_standsFor (stands : StandsFor context origin (.assign place blocking value remarks)) :
    ∃ source given line, origin = .assign source given blocking line ∧ target context source = .ok place := by
  obtain ok | ⟨_, _, _, _, same⟩ := stands
  · cases stmt_eq_ok ok with
    | assign placeOk _ => exact ⟨_, _, _, rfl, placeOk⟩
  · cases same

theorem declared_of_ownReads (isScoped : origin.ScopedNode visible) (stands : StandsFor context origin child)
    : ∀ name ∈ child.ownReads, Declared visible name := by
  obtain ok | ⟨_, _, comment, _, rfl⟩ := stands
  · cases stmt_eq_ok ok with
    | assign placeOk valueOk =>
      rw [Verilog.Stmt.ownReads, forall_mem_append]
      exact ⟨declared_of_target isScoped.1.2 placeOk, declared_of_expr isScoped.2 valueOk⟩
    | conditional each _ =>
      rw [Verilog.Stmt.ownReads, forall_mem_flatMap]
      intro result inList
      obtain ⟨branch, isBranch, conditionOk, _⟩ := source_of_mem each inList
      exact declared_of_expr (isScoped branch isBranch) conditionOk
    | selection valueOk each _ =>
      rw [Verilog.Stmt.ownReads, forall_mem_append, forall_mem_flatMap]
      refine ⟨declared_of_expr isScoped.1 valueOk, ?_⟩
      intro result inList
      obtain ⟨arm, isArm, choicesOk, _⟩ := source_of_mem each inList
      rw [forall_mem_flatMap]
      intro choice inChoices
      obtain ⟨source, isChoice, sourceOk⟩ := source_of_mem (mapM_eq_ok_iff.mp choicesOk) inChoices
      exact declared_of_expr (isScoped.2 arm isArm source isChoice) sourceOk
    | captured => nofun
  · nofun

theorem declared_of_body (isScoped : Vhdl.bodyAll (Stmt.ScopedNode visible) list)
    (ok : (body context list).result = .ok written) :
    ∀ name ∈ (Verilog.bodyStmts written).flatMap Verilog.Stmt.ownReads, Declared visible name := by
  rw [forall_mem_flatMap]
  intro inner member
  obtain ⟨origin, inList, stands⟩ := source_of_body ok member
  have all := Vhdl.all_of_mem_bodyStmts ((Vhdl.bodyAll_iff list).mp isScoped) inList
  have own := (Stmt.all_iff_forall_stmts origin).mp all origin origin.mem_stmts_self
  exact declared_of_ownReads own stands

theorem source_of_always (hasKind : Vhdl.HasKind constants block.sensitivity block.body kind)
    (ok : (always context block kind).result = .ok (.always trigger label written))
    (member : child ∈ Verilog.bodyStmts written) :
    (∃ origin ∈ bodyStmts block.body, StandsFor context origin child) ∨
      ∃ branches otherwise, child = .conditional branches otherwise := by
  obtain ⟨_, _, same, isBody⟩ := always_eq_ok ok
  cases same
  have inside {list : List Stmt} {part : List Verilog.Stmt} (partOk : (body context list).result = .ok part)
      (subset : bodyStmts list ⊆ bodyStmts block.body) (inPart : child ∈ Verilog.bodyStmts part) :
      ∃ origin ∈ bodyStmts block.body, StandsFor context origin child := by
    obtain ⟨origin, inList, stands⟩ := source_of_body partOk inPart
    exact ⟨origin, subset inList, stands⟩
  cases kind with
  | combinational => exact .inl (inside isBody (Subset.refl _) member)
  | sequential clock reset clocked =>
    obtain ⟨top, _, split⟩ := hasKind.stmts_eq
    have ofReset : bodyStmts reset.ownBody ⊆ bodyStmts block.body := by
      rw [split]
      exact fun _ inReset => mem_cons_of_mem _ (mem_append_left _ inReset)
    have ofClocked : bodyStmts clocked ⊆ bodyStmts block.body := by
      rw [split]
      exact fun _ inClocked => mem_cons_of_mem _ (mem_append_right _ inClocked)
    cases reset with
    | async test resetBody =>
      obtain ⟨resetting, statements, resettingOk, statementsOk, rfl⟩ := isBody
      simp only [Verilog.bodyStmts, Verilog.Stmt.stmts, Verilog.branchStmts, Verilog.optionStmts, append_nil,
        mem_cons, mem_append] at member
      rcases member with isTop | inReset | inClocked
      · exact .inr ⟨_, _, isTop⟩
      · exact .inl (inside resettingOk ofReset inReset)
      · exact .inl (inside statementsOk ofClocked inClocked)
    | _ => exact .inl (inside isBody ofClocked member)

/-! ### Items -/

theorem declared_of_always (hasKind : Vhdl.HasKind constants block.sensitivity block.body kind)
    (isScoped : Vhdl.bodyAll (Stmt.ScopedNode visible) block.body)
    (listed : ∀ names, block.sensitivity = .listed names → ∀ name ∈ names, Declared visible name)
    (ok : (always context block kind).result = .ok item) : ∀ name ∈ item.reads, Declared visible name := by
  have kept := hasKind.all isScoped
  obtain ⟨label, sensitivity, vars, source, line⟩ := block
  cases hasKind with
  | combinational free =>
    simp only [always, Traced.result_bind] at ok
    obtain ⟨written, writtenOk, ok⟩ := bind_eq_ok.mp ok
    cases ok
    exact declared_of_body isScoped writtenOk
  | clocked single isEdge hasReset =>
    have clock := listed _ rfl _ (mem_singleton_self _)
    cases hasReset with
    | sync | none =>
      simp only [always, Traced.result_bind] at ok
      obtain ⟨written, writtenOk, ok⟩ := bind_eq_ok.mp ok
      cases ok
      exact forall_mem_cons.mpr ⟨clock, declared_of_body kept.2 writtenOk⟩
  | withReset single isLevel isEdge differ sensitive =>
    have clock := listed _ rfl _ (sensitive.mem_iff.mpr (mem_cons_self ..))
    have reset := listed _ rfl _ (sensitive.mem_iff.mpr (mem_cons_of_mem _ (mem_singleton_self _)))
    simp only [always, Traced.result_bind] at ok
    obtain ⟨resetting, resettingOk, ok⟩ := bind_eq_ok.mp ok
    obtain ⟨written, writtenOk, ok⟩ := bind_eq_ok.mp ok
    cases ok
    have inReset := declared_of_body kept.1 resettingOk
    have inClocked := declared_of_body kept.2 writtenOk
    simp only [Verilog.Item.reads, Verilog.Trigger.reads, Verilog.bodyStmts, Verilog.Stmt.stmts, Verilog.branchStmts,
      Verilog.optionStmts, append_nil, flatMap_cons, flatMap_append, forall_mem_append,
      Verilog.Stmt.ownReads, Verilog.Expr.names, map_cons, map_nil, forall_mem_cons]
    have nothing := forall_mem_nil (Declared visible)
    exact ⟨⟨clock, reset, nothing⟩, ⟨⟨reset, nothing⟩, nothing⟩, inReset, inClocked⟩

theorem declared_of_chosen (lastScoped : last.IsScoped visible)
    (areScoped : ∀ choice ∈ choices, choice.1.IsScoped visible ∧ choice.2.IsScoped visible)
    (ok : chosen context width last choices = .ok written) : ∀ name ∈ written.names, Declared visible name := by
  induction choices generalizing written with
  | nil => exact declared_of_expr lastScoped ok
  | cons first rest ih =>
    obtain ⟨here, others⟩ := forall_mem_cons.mp areScoped
    obtain ⟨test, testOk, ok⟩ := bind_eq_ok.mp ok
    obtain ⟨yes, yesOk, ok⟩ := bind_eq_ok.mp ok
    obtain ⟨no, noOk, ok⟩ := bind_eq_ok.mp ok
    cases ok
    rw [Verilog.Expr.names, Verilog.Expr.names, forall_mem_append, forall_mem_append]
    exact ⟨⟨declared_of_expr here.2 testOk, declared_of_expr here.1 yesOk⟩, ih others noOk⟩

theorem declared_of_continuous (inPart : source.part.All (Expr.IsScoped visible))
    (lastScoped : last.IsScoped visible)
    (areScoped : ∀ choice ∈ choices, choice.1.IsScoped visible ∧ choice.2.IsScoped visible)
    (ok : continuous context source choices last = .ok item) : ∀ name ∈ item.reads, Declared visible name := by
  obtain ⟨value, place, _, valueOk, placeOk, rfl⟩ := continuous_eq_ok ok
  exact forall_mem_append.mpr ⟨declared_of_target inPart placeOk, declared_of_chosen lastScoped areScoped valueOk⟩

theorem init_of_object (ok : object context decl = .ok item) (isRead : name ∈ item.reads) :
    ∃ value result, value ∈ decl.init ∧ given context (some decl.type.width) value = .ok result ∧
      name ∈ result.names := by
  cases is : decl.init with
  | none =>
    simp only [object, is] at ok
    cases ok
    simp [Verilog.Item.reads] at isRead
  | some value =>
    simp only [object, is] at ok
    obtain ⟨written, writtenOk, ok⟩ := bind_eq_ok.mp ok
    cases ok
    simp only [Verilog.Item.reads] at isRead
    split at isRead
    · cases isRead
    · refine ⟨value, written, rfl, writtenOk, ?_⟩
      simpa using isRead

end

/-! ### Designs -/

section

variable {parsed : Vhdl.DesignUnit Vhdl.TypeMark} {resolved : Resolved} (origin : Vhdl.ResolvedFrom parsed resolved)
  {context : Context}

include origin

theorem declared_of_leading (inDesign : statement ∈ resolved.statements)
    (ok : (leading context statement).result = .ok item) :
    ∀ name ∈ item.reads, Declared resolved.design.declarations name := by
  obtain ⟨isSource, classified⟩ := origin.resolves.classified inDesign
  have isScoped := origin.isScoped.statements _ isSource
  have outer : resolved.design.globals ⊆ resolved.design.declarations := subset_append_left ..
  intro name isRead
  cases statement with
  | process block kind =>
    apply Declared.mono (Design.visible_subset isSource)
    apply declared_of_always classified ((Vhdl.bodyAll_iff _).mpr isScoped.body) _ ok name isRead
    intro names isListed listed inListed
    obtain ⟨info, declared, _⟩ := (isScoped.sensitivity names isListed).2 listed inListed
    exact ⟨info, mem_append_left _ declared⟩
  | assign assignment =>
    rcases orPlaceholder_eq_ok ok with written | ⟨comment, rfl⟩
    · have declared := declared_of_continuous isScoped.1.2 isScoped.2 (forall_mem_nil _) written
      exact (declared name isRead).mono outer
    · nomatch isRead
  | conditional assignment =>
    rcases orPlaceholder_eq_ok ok with written | ⟨comment, rfl⟩
    · have declared := declared_of_continuous isScoped.1.2 isScoped.2.2 isScoped.2.1 written
      exact (declared name isRead).mono outer
    · nomatch isRead
  | captured statement =>
    cases ok
    nomatch isRead

theorem declared_of_declaring {body : Vhdl.Architecture DataType} (is : resolved.design.architecture = some body)
    {groups : List (List Verilog.Item)} (written : GroupsFor context body groups) :
    ∀ item ∈ written.constants ++ written.objects, ∀ name ∈ item.reads, Declared resolved.design.declarations name := by
  intro item member name isRead
  rcases mem_append.mp member with isConstant | isObject
  · obtain ⟨decl, inBody, ok⟩ := (mapM_eq_ok written.constantsOk).2 item isConstant
    obtain ⟨value, valueOk, ok⟩ := bind_eq_ok.mp ok
    cases ok
    exact (declared_of_expr (origin.isScoped.constant is inBody) valueOk name isRead).mono (subset_append_left ..)
  · obtain ⟨decl, inBody, ok⟩ := (mapM_eq_ok written.objectsOk).2 item isObject
    obtain ⟨value, result, isInit, resultOk, inResult⟩ := init_of_object ok isRead
    exact declared_of_expr (origin.isScoped.object is inBody value isInit) resultOk name inResult

end

end Emission

end RtlBridge

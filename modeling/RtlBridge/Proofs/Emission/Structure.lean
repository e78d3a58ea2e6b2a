import RtlBridge.Proofs.Conversion
import RtlBridge.Proofs.Emission.TidySource
import RtlBridge.Proofs.Verilog.Outline

/-! Writing keeps the structure of statements. What a reader finds in the written lines of statements is the
nesting that they have in the source, without the statements that a dialect has no form for; and the text of
the module that they stand in is balanced. -/

namespace RtlBridge

namespace Emission

open Vhdl (DataType Resolved Stmt)
open Verilog (Outline)

/-! ### Outlines of source statements -/

mutual

/-- The structure of a statement with the written forms of its own expressions. A statement with an expression
that has no form is left out as a whole, whatever is inside it. -/
def outline? (context : Context) : Stmt → Option Outline
  | .assign source value immediate _ => do
    let written ← (given context (source.width? context.names) value).toOption
    let place ← (target context source).toOption
    return .assign place.tokens immediate written.tokens
  | .conditional branches otherwise _ => do
    let list ← branchOutlines context branches
    return .conditional list (if otherwise.isEmpty then none else some (outlines context otherwise))
  | .selection selector arms default _ => do
    let written ← (plain context none selector).toOption
    let list ← armOutlines context (selector.width? context.names) arms
    return .selection written.tokens list (defaultOutlines context default)
  | .captured _ => none

def outlines (context : Context) : List Stmt → List Outline
  | [] => []
  | first :: rest => (outline? context first).toList ++ outlines context rest

def branchOutlines (context : Context) :
    List (Vhdl.Expr × List Stmt) → Option (List (List Verilog.Token × List Outline))
  | [] => some []
  | (condition, statements) :: rest => do
    let written ← (given context none condition).toOption
    let others ← branchOutlines context rest
    return (written.tokens, outlines context statements) :: others

def armOutlines (context : Context) (width : Option Int) :
    List (List Vhdl.Expr × List Stmt) → Option (List (List Verilog.Token × List Outline))
  | [] => some []
  | (choices, statements) :: rest => do
    let written ← (choices.mapM (plain context width)).toOption
    let others ← armOutlines context width rest
    return (Verilog.labelTokens written, outlines context statements) :: others

def defaultOutlines (context : Context) : Option (List Stmt) → Option (List Outline)
  | none => none
  | some statements => some (outlines context statements)

end

/-! ### What is written and what is left out -/

def Refusal.Stays : Refusal → Prop
  | .unsupported _ _ => False
  | _ => True

section Written

variable {context : Context}

/-- An expression without a form, on which the outline of its statement depends. -/
theorem comesTo_form {α β : Type} {step : Except Refusal α} {outline : Option β}
    (left : step.toOption = none → outline = none) :
    ComesTo (fun value => step.toOption = some value) (fun refusal => refusal.Stays ∨ outline = none)
      (liftM step : Traced Refusal α).result := by
  cases step with
  | ok value => exact rfl
  | error refusal => exact .inr (left rfl)

/-- Statements are refused for good only by what also refuses the statement that they are in. -/
theorem body_outlined (each : ∀ source ∈ list, ComesTo (fun written => written.outline? = outline? context source)
      (fun refusal => refusal.Stays ∨ outline? context source = none) (stmt context source).result) :
    ComesTo (fun written => Verilog.bodyOutlines written = outlines context list) Refusal.Stays
      (body context list).result := by
  induction list with
  | nil =>
    rw [body_nil]
    exact rfl
  | cons first rest ih =>
    obtain ⟨here, others⟩ := List.forall_mem_cons.mp each
    rw [body]
    refine .bindResult (here.tryCatch fun refusal noForm => ?_) fun head isHead => ?_
    · cases refusal with
      | unsupported construct line => exact (noForm.resolve_left id).symm
      | lacking lack => exact trivial
      | run fault => exact trivial
    · refine (ih others).bindResult fun tail isTail => ?_
      exact congrArg₂ (Option.toList · ++ ·) isHead isTail

theorem branchList_outlined (each : ∀ branch ∈ branches, ComesTo
      (fun inner => Verilog.bodyOutlines inner = outlines context branch.2) Refusal.Stays (body context branch.2).result) :
    ComesTo (fun written => branchOutlines context branches = some (Verilog.branchOutlines written))
      (fun refusal => refusal.Stays ∨ branchOutlines context branches = none) (branchList context branches).result := by
  induction branches with
  | nil =>
    rw [branchList_nil]
    exact rfl
  | cons first rest ih =>
    obtain ⟨here, others⟩ := List.forall_mem_cons.mp each
    rw [branchList]
    refine .bindResult (comesTo_form fun noForm => by simp [branchOutlines, noForm]) fun test isTest => ?_
    refine .bindResult (here.imp (fun _ => id) fun _ => .inl) fun inner isInner => ?_
    refine .bindResult ((ih others).imp (fun _ => id) fun _ => Or.imp_right ?_) fun list isList => ?_
    · intro noForm
      simp [branchOutlines, noForm]
    · change branchOutlines context (first :: rest) = _
      simp [branchOutlines, Verilog.branchOutlines, isTest, isInner, isList]

theorem armList_outlined (width : Option Int) (each : ∀ arm ∈ arms, ComesTo
      (fun inner => Verilog.bodyOutlines inner = outlines context arm.2) Refusal.Stays (body context arm.2).result) :
    ComesTo (fun written => armOutlines context width arms = some (Verilog.armOutlines written))
      (fun refusal => refusal.Stays ∨ armOutlines context width arms = none) (armList context width arms).result := by
  induction arms with
  | nil =>
    rw [armList_nil]
    exact rfl
  | cons first rest ih =>
    obtain ⟨here, others⟩ := List.forall_mem_cons.mp each
    rw [armList]
    refine .bindResult (comesTo_form fun noForm => by simp [armOutlines, noForm]) fun labels isLabels => ?_
    refine .bindResult (here.imp (fun _ => id) fun _ => .inl) fun inner isInner => ?_
    refine .bindResult ((ih others).imp (fun _ => id) fun _ => Or.imp_right ?_) fun list isList => ?_
    · intro noForm
      simp [armOutlines, noForm]
    · change armOutlines context width (first :: rest) = _
      simp [armOutlines, Verilog.armOutlines, isLabels, isInner, isList]

theorem stmt_outlined (source : Stmt) : ComesTo (fun written => written.outline? = outline? context source)
    (fun refusal => refusal.Stays ∨ outline? context source = none) (stmt context source).result := by
  induction source using Stmt.induction with
  | assign place value immediate line =>
    rw [stmt]
    refine .bindResult (comesTo_form fun noForm => by simp [outline?, noForm]) fun written isWritten => ?_
    refine .bindResult (comesTo_form fun noForm => by simp [outline?, noForm]) fun target isTarget => ?_
    change Verilog.Stmt.outline? _ = _
    simp [Verilog.Stmt.outline?, outline?, isWritten, isTarget]
  | conditional branches otherwise line inBranches inOtherwise =>
    rw [stmt]
    have inList := branchList_outlined fun branch member => body_outlined (inBranches branch member)
    refine .bindResult (inList.imp (fun _ => id) fun _ => Or.imp_right ?_) fun list isList => ?_
    · intro noForm
      simp [outline?, noForm]
    · refine .bindResult ((body_outlined inOtherwise).imp (fun _ => id) fun _ => .inl) fun rest isRest => ?_
      change Verilog.Stmt.outline? _ = _
      simp only [Verilog.Stmt.outline?, outline?, isList, ← isRest]
      split <;> rfl
  | selection selector arms default line inArms inDefault =>
    rw [stmt]
    have inList := armList_outlined (selector.width? context.names) fun arm member => body_outlined (inArms arm member)
    refine .bindResult (comesTo_form fun noForm => by simp [outline?, noForm]) fun written isWritten => ?_
    refine .bindResult (inList.imp (fun _ => id) fun _ => Or.imp_right ?_) fun list isList => ?_
    · intro noForm
      simp [outline?, noForm]
    · have inLast : ComesTo (fun last => Verilog.elseOutlines last = defaultOutlines context default) Refusal.Stays
          (defaultBody context default).result := by
        cases default with
        | none =>
          rw [defaultBody_none]
          exact rfl
        | some statements =>
          rw [defaultBody]
          exact (body_outlined (inDefault statements rfl)).bindResult fun inner isInner => congrArg some isInner
      refine .bindResult (inLast.imp (fun _ => id) fun _ => .inl) fun last isLast => ?_
      change Verilog.Stmt.outline? _ = _
      simp [Verilog.Stmt.outline?, outline?, isWritten, isList, isLast]
  | captured statement =>
    rw [stmt_captured]
    exact rfl

theorem body_keeps_outlines (list : List Stmt) :
    ComesTo (fun written => Verilog.bodyOutlines written = outlines context list) Refusal.Stays
      (body context list).result := body_outlined fun source _ => stmt_outlined source

/-- The outlines of a process; an asynchronous reset and the clocked statements become two branches. -/
def processOutlines (context : Context) (block : Vhdl.ProcessBlock DataType) : Vhdl.ProcessKind → List Outline
  | .combinational => outlines context block.body
  | .sequential _ (.async test resetBody) clocked =>
    let condition := Verilog.Expr.binary .eq (.name test.signal) (.sized 1 .binary test.level.digit)
    [.conditional [(condition.tokens, outlines context resetBody)] (some (outlines context clocked))]
  | .sequential _ _ clocked => outlines context clocked

theorem bodyOutlines_of_process (isBody : BodyFor context block written kind) :
    Verilog.bodyOutlines written = processOutlines context block kind := by
  cases kind with
  | combinational => exact (body_keeps_outlines _).of_ok isBody
  | sequential clock reset clocked =>
    cases reset with
    | async test resetBody =>
      obtain ⟨resetting, statements, resettingOk, statementsOk, rfl⟩ := isBody
      simp [Verilog.bodyOutlines, Verilog.Stmt.outline?, Verilog.branchOutlines, Verilog.elseOutlines,
        processOutlines, (body_keeps_outlines _).of_ok resettingOk, (body_keeps_outlines _).of_ok statementsOk]
    | sync test resetBody | none => exact (body_keeps_outlines _).of_ok isBody

end Written

/-! ### Designs -/

section Designs

variable {parsed : Vhdl.DesignUnit Vhdl.TypeMark} {resolved : Resolved} (origin : Vhdl.ResolvedFrom parsed resolved)

include origin

/-- Statements are written unless a width does not fit. -/
theorem body_failsOnly_wide (profile : Profile) (inDesign : .process block ∈ resolved.design.statements)
    (inBlock : ∀ stmt ∈ list, stmt ∈ Vhdl.bodyStmts block.body) :
    FailsOnly (fun _ => ∃ width, resolved.design.HasWidth width ∧ ¬ Fits width)
      (body (Context.of profile resolved) list).result := by
  obtain ⟨architecture, is, inBody⟩ := Vhdl.DesignUnit.mem_statements.mp inDesign
  have sound := Vhdl.isSound_of_lower origin.isParsed origin.isLowered
  have writable := (writableArchitecture_of_isSound sound is).statements _ inBody
  rw [← origin.resolves.sameNames] at writable
  have inList : Vhdl.bodyAll (WritableNode resolved.names resolved.design.HasWidth) list := by
    rw [Vhdl.bodyAll_iff]
    intro stmt member
    exact Vhdl.all_of_mem_bodyStmts ((Vhdl.bodyAll_iff _).mp writable) (inBlock stmt member)
  intro refusal failed
  have expected := writableBody_failsOnly (Context.of profile resolved) inList refusal failed
  have stays := (body_keeps_outlines list).of_error failed
  cases refusal with
  | unsupported construct line => nomatch stays
  | lacking lack => nomatch expected
  | run fault => exact expected

variable (other : ∀ name ∈ resolved.design.ownNames, name ∉ Verilog.keywords) {unit : String}
  (blank : Verilog.IsBlankText unit)

include other

theorem tidyBody_of_design (dialect : Dialect) (inDesign : .process block ∈ resolved.design.statements)
    (inBlock : ∀ stmt ∈ list, stmt ∈ Vhdl.bodyStmts block.body) :
    TidyBody (Context.of dialect.profile resolved) list := by
  have tidy := origin.isTidy other
  apply tidyBody
  · intro entry isShadow
    exact (isPlainName_shadows tidy.driven dialect.profile entry isShadow).2
  · intro stmt member
    exact Vhdl.all_of_mem_bodyStmts (origin.isTidy_process other inDesign).2 (inBlock stmt member)

end Designs

theorem isBlankText_of_run (ran : Text.run ' ' indent = .ok unit) : Verilog.IsBlankText unit := by
  intro c member
  rw [Text.toList_of_run ran] at member
  exact List.eq_of_mem_replicate member

/-- In a design whose own names are no words of structure, the written lines of statements are read as the
nesting that the statements have in the source, and so are the lines of each process. In the text of the module
every block and every `case` is closed before the module is, and the module is closed last. -/
theorem written_statements_keep_structure {source : List Char} {strict : Bool} {resolved : Resolved}
    (loaded : (load source strict).result = .ok resolved)
    (other : ∀ name ∈ resolved.design.ownNames, name ∉ Verilog.keywords) (dialect : Dialect) {indent : Int}
    {unit : String} (isUnit : Text.run ' ' indent = .ok unit) :
    (∀ block list, .process block ∈ resolved.design.statements →
      (∀ stmt ∈ list, stmt ∈ Vhdl.bodyStmts block.body) →
      (∀ refusal, (body (Context.of dialect.profile resolved) list).result = .error refusal →
        ∃ width, resolved.design.HasWidth width ∧ ¬ Fits width) ∧
      ∀ written depth, (body (Context.of dialect.profile resolved) list).result = .ok written →
        Verilog.readStatements ("\n".intercalate (Verilog.bodyLines unit depth written) ++ "\n").toList =
          some (outlines (Context.of dialect.profile resolved) list)) ∧
    (∀ block kind item, .process block kind ∈ resolved.statements →
      (always (Context.of dialect.profile resolved) block kind).result = .ok item →
      ∃ trigger written, item = .always trigger block.label written ∧ ∀ depth,
        Verilog.readStatements ("\n".intercalate (Verilog.bodyLines unit depth written) ++ "\n").toList =
          some (processOutlines (Context.of dialect.profile resolved) block kind)) ∧
    ∀ text, (render resolved dialect indent).result = .ok text →
      (∃ inner, Verilog.scan text.toList = .word "module" :: (inner ++ [.word "endmodule"])) ∧
      Verilog.level (Verilog.scan text.toList) = 0 ∧
      ∀ n, 0 < n → n < (Verilog.scan text.toList).length → 0 < Verilog.level ((Verilog.scan text.toList).take n) := by
  obtain ⟨parsed, _, origin⟩ := resolvedFrom_of_load loaded
  have tidy := origin.isTidy other
  have blank := isBlankText_of_run isUnit
  refine ⟨?_, ?_, ?_⟩
  · intro block list inDesign inBlock
    refine ⟨body_failsOnly_wide origin dialect.profile inDesign inBlock, ?_⟩
    intro written depth ok
    have areTidy := (tidyBody_of_design origin other dialect inDesign inBlock).of_ok ok
    rw [Verilog.readStatements_lines blank areTidy, (body_keeps_outlines list).of_ok ok]
  · intro block kind item member ok
    obtain ⟨label, inBody, inKind⟩ := tidy.statements _ member
    obtain ⟨trigger, written, rfl, isBody⟩ := always_eq_ok ok
    refine ⟨trigger, written, rfl, ?_⟩
    intro depth
    have itemTidy := (always_comesTo dialect.profile_isTidy (isPlainName_shadows tidy.driven dialect.profile) label inBody
      inKind).of_ok ok
    rw [Verilog.readStatements_lines blank itemTidy.2.2, bodyOutlines_of_process isBody]
  · intro text ok
    obtain ⟨_, module, sameUnit, moduleOk, rfl⟩ := render_eq_ok ok
    cases Except.ok.inj (isUnit.symm.trans sameUnit)
    obtain ⟨inner, balanced, scanned⟩ := (moduleOf_isTidy dialect tidy moduleOk).scan_text blank
    have closed := balanced.pair (show (Verilog.Token.word "module").step = 1 from rfl)
      (show (Verilog.Token.word "endmodule").step = -1 from rfl)
    rw [scanned]
    exact ⟨⟨inner, rfl⟩, closed.total, fun n after before => balanced.pair_positive rfl after before⟩

/-- A selection inside an `if`, and a statement without a form behind its `else`. -/
def sampleNest : List Char :=
  ("entity e is port(c:in bit;q:out bit);end;architecture a of e is begin p:process(c)begin " ++
    "if c='1' then case c is when '0'=>q<='1';when others=>q<='0';end case;" ++
    "else q<=c;assert c;end if;end process;end;").toList

/-- Whether statements are a selection inside a conditional, with one statement in each place. -/
def isNest : List Outline → Bool
  | [.conditional [(_, [.selection _ [(_, [_])] (some [_])])] (some [_])] => true
  | _ => false

theorem sampleNest_written : ∃ resolved block kind written text, (load sampleNest true).result = .ok resolved ∧
    (∀ name ∈ resolved.design.ownNames, name ∉ Verilog.keywords) ∧ .process block kind ∈ resolved.statements ∧
    (body (Context.of Dialect.legacy.profile resolved) block.body).result = .ok written ∧
    (∃ test selector label first second third, outlines (Context.of Dialect.legacy.profile resolved) block.body =
      [.conditional [(test, [.selection selector [(label, [first])] (some [second])])] (some [third])]) ∧
    (render resolved .legacy (-1)).result = .ok text := by
  have isWritten : ∃ resolved, (load sampleNest true).result = .ok resolved ∧
      (∀ name ∈ resolved.design.ownNames, name ∉ Verilog.keywords) ∧
      (∃ process ∈ resolved.processes,
        ∃ written, (body (Context.of Dialect.legacy.profile resolved) process.1.body).result = .ok written ∧
          isNest (outlines (Context.of Dialect.legacy.profile resolved) process.1.body)) ∧
      ∃ text, (render resolved .legacy (-1)).result = .ok text ∧ True := by decide +kernel
  obtain ⟨resolved, loaded, other, ⟨⟨block, kind⟩, member, written, writtenOk, nested⟩, text, rendered, _⟩ := isWritten
  obtain ⟨statement, isStatement, is⟩ := List.mem_filterMap.mp member
  cases statement with
  | process _ _ =>
    cases is
    refine ⟨resolved, block, kind, written, text, loaded, other, isStatement, writtenOk, ?_, rendered⟩
    unfold isNest at nested
    split at nested
    · rename_i test selector label first second third same
      exact ⟨test, selector, label, first, second, third, same⟩
    · cases nested
  | _ => cases is

theorem structure_of_sampleNest : ∃ resolved block kind written text, (load sampleNest true).result = .ok resolved ∧
    (∀ name ∈ resolved.design.ownNames, name ∉ Verilog.keywords) ∧ Text.run ' ' (-1) = .ok "" ∧
    .process block kind ∈ resolved.statements ∧
    (body (Context.of Dialect.legacy.profile resolved) block.body).result = .ok written ∧
    (∃ test selector label first second third,
      Verilog.readStatements ("\n".intercalate (Verilog.bodyLines "" 1 written) ++ "\n").toList =
        some [.conditional [(test, [.selection selector [(label, [first])] (some [second])])] (some [third])]) ∧
    (render resolved .legacy (-1)).result = .ok text ∧ Verilog.level (Verilog.scan text.toList) = 0 := by
  obtain ⟨resolved, block, kind, written, text, loaded, other, member, writtenOk, nested, rendered⟩ :=
    sampleNest_written
  obtain ⟨test, selector, label, first, second, third, same⟩ := nested
  have noIndent : Text.run ' ' (-1) = .ok "" := by decide
  obtain ⟨bodies, _, texts⟩ := written_statements_keep_structure loaded other .legacy noIndent
  obtain ⟨_, _, origin⟩ := resolvedFrom_of_load loaded
  have inDesign : .process block ∈ resolved.design.statements := (origin.resolves.classified member).1
  have read := (bodies block block.body inDesign fun stmt => Vhdl.mem_bodyStmts_of_mem).2 written 1 writtenOk
  rw [same] at read
  exact ⟨resolved, block, kind, written, text, loaded, other, noIndent, member, writtenOk,
    ⟨test, selector, label, first, second, third, read⟩, rendered, (texts text rendered).2.1⟩

end Emission

end RtlBridge

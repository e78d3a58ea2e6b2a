import RtlBridge.Proofs.Conversion
import RtlBridge.Proofs.Emission.AgreeingExpressions
import RtlBridge.Proofs.Emission.ReadNames

/-! Modules in the two dialects. Each concurrent statement is written alike in both, line by line: apart from the
aggregates of one bit, the dialects differ in the registers behind wires, in the word for exclusive cases and in
the headers of always blocks. -/

namespace RtlBridge

open List
open Verilog (Item Placeholder Stmt Trigger armLines armStmts bodyStmts branchLines pad trailing)

def Verilog.Stmt.comment? : Stmt → Option Placeholder
  | .placeholder comment => some comment
  | _ => none

def Verilog.Item.comments : Item → List (Option Placeholder)
  | .always _ _ body => (bodyStmts body).map Stmt.comment?
  | .placeholder comment => [some comment]
  | _ => [none]

namespace Emission

open Vhdl (DataType Resolved ResolvedStmt Expr Target)

/-! ### Lines -/

/-- A line of the older dialect and one of the newer. They may differ in the name at the head of an assignment,
where the older dialect writes the register behind a wire, in the word before a selection and in the keyword of a
header. -/
inductive LinesAgree (among : List Fill) (shadows : List (String × String)) (unit : String) : String → String → Prop where
  | plain {old new : String} (agree : TextsAgree among old new) : LinesAgree among shadows unit old new
  | target {name shadow old new : String} (isShadow : shadows.lookup name = some shadow) (depth : Nat) {word : String}
      (isWord : word = "" ∨ word = "assign ") (agree : TextsAgree among old new) :
      LinesAgree among shadows unit (pad unit depth ++ word ++ shadow ++ old)
        (pad unit depth ++ word ++ name ++ new)
  | unique {old new : String} (depth : Nat) (agree : TextsAgree among old new) :
      LinesAgree among shadows unit (pad unit depth ++ "case" ++ old)
        (pad unit depth ++ "unique case" ++ new)
  | inputs (depth : Nat) (rest : String) :
      LinesAgree among shadows unit (pad unit depth ++ Dialect.legacy.profile.combinationalHeader ++ rest)
        (pad unit depth ++ Dialect.strict.profile.combinationalHeader ++ rest)
  | edges (depth : Nat) (rest : String) :
      LinesAgree among shadows unit (pad unit depth ++ Dialect.legacy.profile.clockedKeyword ++ rest)
        (pad unit depth ++ Dialect.strict.profile.clockedKeyword ++ rest)

/-- A statement of the older dialect and one of the newer: their lines agree, and they have the same comments at the
same places. -/
structure StmtsAgree (among : List Fill) (shadows : List (String × String)) (old new : Stmt) : Prop where
  lines : ∀ unit depth, Forall₂ (LinesAgree among shadows unit) (old.lines unit depth) (new.lines unit depth)
  comments : old.stmts.map Stmt.comment? = new.stmts.map Stmt.comment?

structure ItemsAgree (among : List Fill) (shadows : List (String × String)) (old new : Item) : Prop where
  lines : ∀ unit depth, Forall₂ (LinesAgree among shadows unit) (old.lines unit depth) (new.lines unit depth)
  comments : old.comments = new.comments

section

variable {among : List Fill} {shadows : List (String × String)}

theorem LinesAgree.same (unit line : String) : LinesAgree among shadows unit line line := .plain (.same line)

theorem LinesAgree.same_all (unit : String) (lines : List String) :
    Forall₂ (LinesAgree among shadows unit) lines lines := forall₂_same.mpr fun line _ => .same unit line

theorem StmtsAgree.bodyLines (agree : Forall₂ (StmtsAgree among shadows) old new) (unit : String) (depth : Nat) :
    Forall₂ (LinesAgree among shadows unit) (Verilog.bodyLines unit depth old) (Verilog.bodyLines unit depth new) := by
  induction agree with
  | nil => exact .nil
  | cons first _ ih =>
    rw [Verilog.bodyLines, Verilog.bodyLines]
    exact rel_append (first.lines unit depth) ih

theorem StmtsAgree.bodyComments (agree : Forall₂ (StmtsAgree among shadows) old new) :
    (bodyStmts old).map Stmt.comment? = (bodyStmts new).map Stmt.comment? := by
  rw [Verilog.bodyStmts_eq_flatMap, Verilog.bodyStmts_eq_flatMap]
  induction agree with
  | nil => rfl
  | cons first _ ih => rw [flatMap_cons, flatMap_cons, map_append, map_append, first.comments, ih]

theorem StmtsAgree.comments_of_children {old new : Stmt} (head : old.comment? = new.comment?)
    (agree : Forall₂ (StmtsAgree among shadows) old.children new.children) :
    old.stmts.map Stmt.comment? = new.stmts.map Stmt.comment? := by
  rw [old.stmts_eq_cons, new.stmts_eq_cons, ← Verilog.bodyStmts_eq_flatMap, ← Verilog.bodyStmts_eq_flatMap, map_cons,
    map_cons, head, bodyComments agree]

def BranchesAgree (among : List Fill) (shadows : List (String × String)) (old new : Verilog.Expr × List Stmt) :
    Prop := ExprsAgree among old.1 new.1 ∧ Forall₂ (StmtsAgree among shadows) old.2 new.2

def ArmsAgree (among : List Fill) (shadows : List (String × String)) (old new : List Verilog.Expr × List Stmt) : Prop :=
  Forall₂ (ExprsAgree among) old.1 new.1 ∧ Forall₂ (StmtsAgree among shadows) old.2 new.2

theorem BranchesAgree.lines (agree : Forall₂ (BranchesAgree among shadows) old new) (unit : String) (depth : Nat)
    (word : String) :
    Forall₂ (LinesAgree among shadows unit) (branchLines unit depth word old) (branchLines unit depth word new) := by
  induction agree generalizing word with
  | nil => exact .nil
  | cons first _ ih =>
    rw [branchLines, branchLines]
    refine rel_append (.cons (.plain ?_) (StmtsAgree.bodyLines first.2 unit _)) (ih _)
    exact .append (.same _) (.append (.append (.same _) first.1) (.same _))

theorem ArmsAgree.lines (agree : Forall₂ (ArmsAgree among shadows) old new) (unit : String) (depth : Nat) :
    Forall₂ (LinesAgree among shadows unit) (armLines unit depth old) (armLines unit depth new) := by
  induction agree with
  | nil => exact .nil
  | cons first _ ih =>
    rw [armLines, armLines]
    refine rel_append (.cons (.plain ?_) (StmtsAgree.bodyLines first.2 unit _)) (.cons (.same _ _) ih)
    refine .append (.append (.same _) (.intercalate _ ?_)) (.same _)
    rw [forall₂_map_left_iff, forall₂_map_right_iff]
    exact first.1

/-! ### Statements -/

theorem StmtsAgree.getD_of_rel (agree : Option.Rel (Forall₂ (StmtsAgree among shadows)) old new) :
    Forall₂ (StmtsAgree among shadows) (old.getD []) (new.getD []) := by
  cases agree with
  | none => exact .nil
  | some agree => exact agree

theorem StmtsAgree.placeholder (comment : Placeholder) :
    StmtsAgree among shadows (.placeholder comment) (.placeholder comment) :=
  ⟨fun unit _ => LinesAgree.same_all unit _, rfl⟩

theorem StmtsAgree.conditional (first : Forall₂ (BranchesAgree among shadows) branches branches')
    (second : Option.Rel (Forall₂ (StmtsAgree among shadows)) otherwise otherwise') :
    StmtsAgree among shadows (.conditional branches otherwise) (.conditional branches' otherwise') := by
  constructor
  · intro unit depth
    rw [Stmt.lines, Stmt.lines]
    refine rel_append (rel_append (BranchesAgree.lines first unit depth _) ?_) (LinesAgree.same_all _ _)
    cases second with
    | none => exact LinesAgree.same_all _ _
    | some agree =>
      rw [Verilog.elseLines, Verilog.elseLines]
      exact .cons (.same _ _) (StmtsAgree.bodyLines agree unit _)
  · exact comments_of_children rfl (rel_append (rel_flatMap first fun _ _ one => one.2) (getD_of_rel second))

theorem StmtsAgree.selection {default : Option (List Stmt)} (unique : Bool)
    (head : ExprsAgree among selector selector') (first : Forall₂ (ArmsAgree among shadows) arms arms')
    (second : Option.Rel (Forall₂ (StmtsAgree among shadows)) default default') :
    StmtsAgree among shadows (.selection false selector arms default) (.selection unique selector' arms' default') := by
  constructor
  · intro unit depth
    have rest : TextsAgree among (" (" ++ selector.text ++ ")") (" (" ++ selector'.text ++ ")") :=
      .append (.append (.same _) head) (.same _)
    have heads : LinesAgree among shadows unit (pad unit depth ++ ("case" ++ " (" ++ selector.text ++ ")"))
        (pad unit depth ++ ((if unique then "unique case" else "case") ++ " (" ++ selector'.text ++ ")")) := by
      cases unique with
      | false =>
        refine .plain (.append (.same _) ?_)
        exact .append (.append (.same _) head) (.same _)
      | true => simpa only [if_true, String.append_assoc] using LinesAgree.unique depth rest
    rw [Stmt.lines, Stmt.lines]
    refine rel_append (rel_append (.cons heads (ArmsAgree.lines first unit _)) ?_) (LinesAgree.same_all _ _)
    cases second with
    | none => exact LinesAgree.same_all _ _
    | some agree =>
      rw [Verilog.defaultLines, Verilog.defaultLines]
      exact rel_append (.cons (.same _ _) (StmtsAgree.bodyLines agree unit _)) (LinesAgree.same_all _ _)
  · exact comments_of_children rfl (rel_append (rel_flatMap first fun _ _ one => one.2) (getD_of_rel second))

end

/-! ### Aggregates in statements -/

section

variable (context : Context)

def targetFills (source : Target) : List Fill :=
  match source.part with
  | .whole => []
  | .element subscript => fills context.names false none subscript
  | .range left right =>
    fills context.names false none left ++ reached (plain context none left) (fills context.names false none right)

mutual

def stmtFills : Vhdl.Stmt → List Fill
  | .assign source value _ _ =>
    let width := source.width? context.names
    fills context.names true width value ++ reached (given context width value) (targetFills context source)
  | .conditional branches otherwise _ =>
    branchFills branches ++ reached (branchList context branches).result (bodyFills otherwise)
  | .selection selector arms default _ =>
    let width := selector.width? context.names
    fills context.names false none selector ++ reached (plain context none selector)
      (armFills width arms ++ reached (armList context width arms).result (defaultFills default))
  | .captured _ => []

/-- A statement that cannot be written is not the end of its body. -/
def bodyFills : List Vhdl.Stmt → List Fill
  | [] => []
  | first :: rest => stmtFills first ++ reached (orComment context first).result (bodyFills rest)

def branchFills : List (Expr × List Vhdl.Stmt) → List Fill
  | [] => []
  | (condition, statements) :: rest =>
    fills context.names true none condition ++ reached (given context none condition)
      (bodyFills statements ++ reached (body context statements).result (branchFills rest))

def armFills (width : Option Int) : List (List Expr × List Vhdl.Stmt) → List Fill
  | [] => []
  | (choices, statements) :: rest =>
    fillsOfEach (plain context width) (fills context.names false width) choices ++
      reached (choices.mapM (plain context width))
        (bodyFills statements ++ reached (body context statements).result (armFills width rest))

def defaultFills : Option (List Vhdl.Stmt) → List Fill
  | none => []
  | some statements => bodyFills statements

end

def chosenFills (width : Option Int) (last : Expr) : List (Expr × Expr) → List Fill
  | [] => fills context.names true width last
  | (value, condition) :: rest =>
    fills context.names true none condition ++ reached (given context none condition)
      (fills context.names true width value ++ reached (given context width value) (chosenFills width last rest))

def continuousFills (source : Target) (choices : List (Expr × Expr)) (last : Expr) : List Fill :=
  let width := source.width? context.names
  chosenFills context width last choices ++ reached (chosen context width last choices) (targetFills context source)

/-- The aggregates of one bit that are written for a concurrent statement. -/
def leadingFills : ResolvedStmt → List Fill
  | .process block .combinational => bodyFills context block.body
  | .process _ (.sequential _ (.async _ resetBody) clocked) =>
    bodyFills context resetBody ++ reached (body context resetBody).result (bodyFills context clocked)
  | .process _ (.sequential _ _ clocked) => bodyFills context clocked
  | .assign assignment => continuousFills context assignment.target [] assignment.value
  | .conditional assignment => continuousFills context assignment.target assignment.choices assignment.default
  | .captured _ => []

def objectFills (decl : Vhdl.ObjectDecl DataType) : List Fill :=
  match decl.init with
  | some value => fills context.names true (some decl.type.width) value
  | none => []

/-- The aggregates of one bit that are written for an architecture: in its constants, its signals and variables, and
its statements. -/
def architectureFills (architecture : Vhdl.Architecture DataType) : List Fill :=
  let objects := architecture.signals ++ architecture.processes.flatMap (·.vars)
  fillsOfEach (constant context) (fun decl => fills context.names true (some decl.type.width) decl.value)
      architecture.constants ++
    reached (architecture.constants.mapM (constant context))
      (fillsOfEach (object context) (objectFills context) objects ++
        reached (objects.mapM (object context))
          (fillsOfEach (fun statement => (leading context statement).result) (leadingFills context)
            context.resolved.statements))

end

def designFills (resolved : Resolved) : List Fill :=
  match resolved.design.architecture with
  | some architecture => architectureFills (Context.of Dialect.strict.profile resolved) architecture
  | none => []

/-! ### Both dialects -/

section

variable {among : List Fill} {shadows : List (String × String)}

/-- A place of the older dialect and one of the newer, which differ at most in the name at the head. -/
def PlacesAgree (among : List Fill) (shadows : List (String × String)) (old new : Verilog.Expr) : Prop :=
  ∃ name oldRest newRest, old.text = (shadows.lookup name).getD name ++ oldRest ∧ new.text = name ++ newRest ∧
    TextsAgree among oldRest newRest

theorem PlacesAgree.line (agree : PlacesAgree among shadows old new) (unit : String)
    (depth : Nat) (isWord : word = "" ∨ word = "assign ") (op : String) (values : ExprsAgree among oldValue newValue)
    (rest : String) :
    LinesAgree among shadows unit (pad unit depth ++ (word ++ old.text ++ op ++ oldValue.text ++ rest))
      (pad unit depth ++ (word ++ new.text ++ op ++ newValue.text ++ rest)) := by
  obtain ⟨name, oldTail, newTail, oldText, newText, tails⟩ := agree
  rw [oldText, newText]
  cases isShadow : shadows.lookup name with
  | none =>
    have places := TextsAgree.append (.same name) tails
    exact .plain (.append (.same _) (.append (.append (.append (.append (.same _) places) (.same _)) values) (.same _)))
  | some shadow =>
    have line : LinesAgree among shadows unit _ _ :=
      .target isShadow depth isWord (tails.append (.append (.append (.same op) values) (.same rest)))
    simpa only [Option.getD_some, String.append_assoc] using line

theorem PlacesAgree.assign (places : PlacesAgree among shadows oldPlace newPlace)
    (values : ExprsAgree among oldValue newValue) (blocking : Bool) (remarks : List Verilog.Remark) :
    StmtsAgree among shadows (.assign oldPlace blocking oldValue remarks) (.assign newPlace blocking newValue remarks) := by
  refine ⟨fun unit depth => ?_, rfl⟩
  generalize sign : (if blocking then "=" else "<=") = op
  have spelled (place value : Verilog.Expr) :
      (Stmt.assign place blocking value remarks).lines unit depth =
        [pad unit depth ++ ("" ++ place.text ++ (" " ++ op ++ " ") ++ value.text ++
          (";" ++ trailing remarks))] := by
    rw [Stmt.lines, sign, String.empty_append]
    simp only [String.append_assoc]
    rfl
  rw [spelled, spelled]
  exact .cons (places.line unit depth (.inl rfl) _ values _) .nil

theorem PlacesAgree.continuous (places : PlacesAgree among shadows oldPlace newPlace)
    (values : ExprsAgree among oldValue newValue) (remarks : List Verilog.Remark) :
    ItemsAgree among shadows (.assign oldPlace oldValue remarks) (.assign newPlace newValue remarks) := by
  refine ⟨fun unit depth => ?_, rfl⟩
  have spelled (place value : Verilog.Expr) :
      (Item.assign place value remarks).lines unit depth =
        [pad unit depth ++ ("assign " ++ place.text ++ " = " ++ value.text ++ (";" ++ trailing remarks))] := by
    rw [Item.lines]
    simp only [String.append_assoc]
    rfl
  rw [spelled, spelled]
  exact .cons (places.line unit depth (.inr rfl) _ values _) .nil

/-- Always blocks of both dialects have the same events. -/
inductive TriggersAgree : Trigger → Trigger → Prop where
  | inputs : TriggersAgree (.inputs Dialect.legacy.profile.combinationalHeader)
      (.inputs Dialect.strict.profile.combinationalHeader)
  | edges (events : List (Vhdl.Edge × String)) : TriggersAgree (.edges Dialect.legacy.profile.clockedKeyword events)
      (.edges Dialect.strict.profile.clockedKeyword events)

theorem TriggersAgree.line (agree : TriggersAgree old new) (unit : String)
    (depth : Nat) (rest : String) :
    LinesAgree among shadows unit (pad unit depth ++ (old.text ++ rest))
      (pad unit depth ++ (new.text ++ rest)) := by
  cases agree with
  | inputs =>
    rw [← String.append_assoc, ← String.append_assoc]
    exact .inputs depth rest
  | edges events =>
    have spelled : ∃ list, ∀ keyword, (Trigger.edges keyword events).text = keyword ++ list :=
      ⟨_, fun keyword => by rw [Trigger.text, String.append_assoc, String.append_assoc]⟩
    obtain ⟨list, isList⟩ := spelled
    rw [isList, isList]
    simpa only [String.append_assoc] using LinesAgree.edges depth (list ++ rest)

theorem ItemsAgree.always (triggers : TriggersAgree oldTrigger newTrigger)
    (label : Option String) (agree : Forall₂ (StmtsAgree among shadows) old new) :
    ItemsAgree among shadows (.always oldTrigger label old) (.always newTrigger label new) := by
  refine ⟨fun unit depth => ?_, StmtsAgree.bodyComments agree⟩
  have spelled : ∃ name, ∀ trigger body, (Item.always trigger label body).lines unit depth =
      (pad unit depth ++ (trigger.text ++ " begin" ++ name)) :: Verilog.bodyLines unit (depth + 1) body ++
        [pad unit depth ++ "end"] := by
    cases label with
    | none | some text => exact ⟨_, fun _ _ => rfl⟩
  obtain ⟨name, isName⟩ := spelled
  rw [isName, isName, String.append_assoc, String.append_assoc]
  refine rel_append (.cons (triggers.line unit depth _) ?_) (LinesAgree.same_all _ _)
  exact StmtsAgree.bodyLines agree unit _

theorem Agree.orComment {α : Type} {alike : α → α → Prop} {comment : Placeholder → α}
    (same : ∀ placeholder, alike (comment placeholder) (comment placeholder)) {old new : Traced Refusal α} (line : Nat)
    (start : Agree alike old.result new.result) :
    Agree alike
      (tryCatch old fun refusal => do return comment (← Emission.refused oldContext line refusal) : Traced Refusal α).result
      (tryCatch new fun refusal => do return comment (← Emission.refused newContext line refusal) : Traced Refusal α).result := by
  simp only [tryCatch, tryCatchThe, MonadExceptOf.tryCatch]
  obtain ⟨oldNotes, oldResult⟩ := old
  obtain ⟨newNotes, newResult⟩ := new
  cases start with
  | written agree => exact .written agree
  | refused refusal =>
    cases refusal with
    | unsupported construct place => exact .written (same _)
    | lacking lack | run fault => exact .refused _
  | outOfRoom fault => exact .outOfRoom fault _

end

section

variable (resolved : Resolved)

def older : Context := Context.of Dialect.legacy.profile resolved

def newer : Context := Context.of Dialect.strict.profile resolved

abbrev InBoth {α : Type} (alike : α → α → Prop) (written : Context → Except Refusal α) : Prop :=
  Agree alike (written (older resolved)) (written (newer resolved))

abbrev StmtsInBoth (among : List Fill) (written : Context → Traced Refusal (List Stmt)) : Prop :=
  InBoth resolved (Forall₂ (StmtsAgree among (older resolved).shadows)) fun context => (written context).result

abbrev ItemsInBoth (among : List Fill) (written : Context → Except Refusal Item) : Prop :=
  InBoth resolved (ItemsAgree among (older resolved).shadows) written

variable {resolved} {among : List Fill} (sized : ∀ fill ∈ among, fill.width.isSome = true)

include sized

theorem given_agrees (inside : fills resolved.names true width source ⊆ among) :
    InBoth resolved (ExprsAgree among) (given · width source) :=
  expr_agrees resolved.names sized source inside

theorem plain_agrees (inside : fills resolved.names false width source ⊆ among) :
    InBoth resolved (ExprsAgree among) (plain · width source) :=
  expr_agrees resolved.names sized source inside

theorem target_agrees (inside : targetFills (newer resolved) source ⊆ among) :
    InBoth resolved (PlacesAgree among (older resolved).shadows) (target · source) := by
  obtain ⟨name, part, line⟩ := source
  cases part with
  | whole => exact .written ⟨name, "", "", String.append_empty.symm, String.append_empty.symm, .same _⟩
  | element subscript =>
    have spelled (base : String) (place : Verilog.Expr) :
        (Verilog.Expr.index (.name base) place).text = base ++ ("[" ++ place.text ++ "]") := by
      rw [← String.append_assoc, ← String.append_assoc]
      rfl
    refine (plain_agrees sized inside).bind fun old new _ agree => .written ?_
    exact ⟨name, _, _, spelled _ old, spelled _ new, .append (.append (.same _) agree) (.same _)⟩
  | range left right =>
    have spelled (base : String) (high low : Verilog.Expr) :
        (Verilog.Expr.slice (.name base) high low).text = base ++ ("[" ++ high.text ++ ":" ++ low.text ++ "]") := by
      simp only [← String.append_assoc]
      rfl
    refine .andThen inside (plain_agrees sized) fun oldHigh newHigh isLow high => ?_
    refine (plain_agrees sized isLow).bind fun oldLow newLow _ low => .written ?_
    refine ⟨name, _, _, spelled _ oldHigh oldLow, spelled _ newHigh newLow, ?_⟩
    exact .append (.append (.append (.append (.same _) high) (.same _)) low) (.same _)

/-! ### Statements in both dialects -/

/-- Both dialects write a statement alike if its aggregates are among some. -/
def StmtAgrees (resolved : Resolved) (among : List Fill) (source : Vhdl.Stmt) : Prop :=
  stmtFills (newer resolved) source ⊆ among →
    InBoth resolved (StmtsAgree among (older resolved).shadows) fun context => (stmt context source).result

theorem assign_agrees (source : Target) (value : Expr) (immediate : Bool) (line : Nat) :
    StmtAgrees resolved among (.assign source value immediate line) := by
  intro inside
  rw [stmtFills] at inside
  simp only [stmt, Traced.result_bind]
  refine .andThen inside (given_agrees sized) fun oldValue newValue isTarget values => ?_
  refine (target_agrees sized isTarget).bind fun oldPlace newPlace _ places => .written ?_
  exact places.assign values immediate _

omit sized in
theorem bodyFills_eq (context : Context) (list : List Vhdl.Stmt) : bodyFills context list =
    fillsOfEach (fun source => (orComment context source).result) (stmtFills context) list := by
  induction list with
  | nil => rw [bodyFills, fillsOfEach]
  | cons first rest ih => rw [bodyFills, fillsOfEach, ih]

omit sized in
theorem body_agrees {list : List Vhdl.Stmt} (inside : bodyFills (newer resolved) list ⊆ among)
    (each : ∀ source ∈ list, StmtAgrees resolved among source) : StmtsInBoth resolved among (body · list) := by
  rw [bodyFills_eq] at inside
  simp only [StmtsInBoth, body_result]
  exact .mapM_all inside fun source member isSource => .orComment .placeholder source.line (each source member isSource)

theorem branchList_agrees (inside : branchFills (newer resolved) branches ⊆ among)
    (each : ∀ branch ∈ branches, ∀ source ∈ branch.2, StmtAgrees resolved among source) :
    InBoth resolved (Forall₂ (BranchesAgree among (older resolved).shadows))
      fun context => (branchList context branches).result := by
  induction branches with
  | nil => exact .written .nil
  | cons first rest ih =>
    obtain ⟨condition, statements⟩ := first
    obtain ⟨here, later⟩ := forall_mem_cons.mp each
    rw [branchFills] at inside
    simp only [branchList, Traced.result_bind]
    refine .andThen inside (given_agrees sized) fun oldTest newTest isBody test => ?_
    refine .andThen isBody (fun isInner => body_agrees isInner here) fun oldInner newInner isRest inner => ?_
    exact (ih isRest later).bind fun oldRest newRest _ others => .written (.cons ⟨test, inner⟩ others)

theorem armList_agrees (inside : armFills (newer resolved) width arms ⊆ among)
    (each : ∀ arm ∈ arms, ∀ source ∈ arm.2, StmtAgrees resolved among source) :
    InBoth resolved (Forall₂ (ArmsAgree among (older resolved).shadows))
      fun context => (armList context width arms).result := by
  induction arms with
  | nil => exact .written .nil
  | cons first rest ih =>
    obtain ⟨choices, statements⟩ := first
    obtain ⟨here, later⟩ := forall_mem_cons.mp each
    rw [armFills] at inside
    simp only [armList, Traced.result_bind]
    refine .andThen inside (fun isChoices => .mapM_all isChoices fun choice _ isChoice => plain_agrees sized isChoice)
      fun oldChoices newChoices isBody agree => ?_
    refine .andThen isBody (fun isInner => body_agrees isInner here) fun oldInner newInner isRest inner => ?_
    exact (ih isRest later).bind fun oldRest newRest _ others => .written (.cons ⟨agree, inner⟩ others)

omit sized in
theorem defaultBody_agrees {default : Option (List Vhdl.Stmt)} (inside : defaultFills (newer resolved) default ⊆ among)
    (each : ∀ list, default = some list → ∀ source ∈ list, StmtAgrees resolved among source) :
    InBoth resolved (Option.Rel (Forall₂ (StmtsAgree among (older resolved).shadows)))
      fun context => (defaultBody context default).result := by
  cases default with
  | none => exact .written .none
  | some list =>
    rw [defaultFills] at inside
    simp only [defaultBody, Traced.result_bind]
    exact (body_agrees inside (each list rfl)).bind fun old new _ agree => .written (.some agree)

theorem stmt_agrees (source : Vhdl.Stmt) : StmtAgrees resolved among source := by
  induction source using Vhdl.Stmt.induction with
  | assign source value immediate line => exact assign_agrees sized source value immediate line
  | conditional branches otherwise line inBranches inOtherwise =>
    intro inside
    rw [stmtFills] at inside
    simp only [stmt, Traced.result_bind]
    refine .andThen inside (fun isBranches => branchList_agrees sized isBranches inBranches) ?_
    intro oldBranches newBranches isOtherwise first
    refine (body_agrees isOtherwise inOtherwise).bind fun oldRest newRest _ second => .written ?_
    refine .conditional first ?_
    cases otherwise with
    | nil => exact .none
    | cons head tail => exact .some second
  | selection selector arms default line inArms inDefault =>
    intro inside
    rw [stmtFills] at inside
    simp only [stmt, Traced.result_bind]
    refine .andThen inside (plain_agrees sized) fun oldSelector newSelector isArms head => ?_
    refine .andThen isArms (fun isList => armList_agrees sized isList inArms) ?_
    intro oldArms newArms isDefault first
    refine (defaultBody_agrees isDefault inDefault).bind fun oldLast newLast _ second => .written ?_
    exact .selection _ head first second
  | captured statement =>
    intro _
    exact .written (.placeholder _)

theorem always_agrees (inside : leadingFills (newer resolved) (.process block kind) ⊆ among) :
    ItemsInBoth resolved among fun context => (always context block kind).result := by
  have bodies {list : List Vhdl.Stmt} (isList : bodyFills (newer resolved) list ⊆ among) :
      StmtsInBoth resolved among (body · list) := body_agrees isList fun source _ => stmt_agrees sized source
  cases kind with
  | combinational =>
    simp only [always, Traced.result_bind]
    exact (bodies inside).bind fun old new _ agree => .written (.always .inputs block.label agree)
  | sequential clock reset clocked =>
    cases reset with
    | async test resetBody =>
      simp only [always, Traced.result_bind]
      refine .andThen inside bodies fun oldReset newReset isClocked resets => ?_
      refine (bodies isClocked).bind fun old new _ agree => .written (.always (.edges _) block.label ?_)
      exact .cons (.conditional (.cons ⟨.same _, resets⟩ .nil) (.some agree)) .nil
    | _ =>
      simp only [always, Traced.result_bind]
      exact (bodies inside).bind fun old new _ agree => .written (.always (.edges _) block.label agree)

theorem chosen_agrees (inside : chosenFills (newer resolved) width last choices ⊆ among) :
    InBoth resolved (ExprsAgree among) (chosen · width last choices) := by
  induction choices with
  | nil => exact given_agrees sized inside
  | cons first rest ih =>
    obtain ⟨value, condition⟩ := first
    simp only [chosen]
    refine .andThen inside (given_agrees sized) fun oldTest newTest isValue test => ?_
    refine .andThen isValue (given_agrees sized) fun oldYes newYes isRest yes => ?_
    refine (ih isRest).bind fun oldNo newNo _ no => .written ?_
    exact .append (.append (.append (.append test.paren (.same _)) yes) (.same _)) no

theorem continuous_agrees (inside : continuousFills (newer resolved) source choices last ⊆ among) :
    ItemsInBoth resolved among (continuous · source choices last) := by
  simp only [continuous]
  refine .andThen inside (chosen_agrees sized) fun oldValue newValue isTarget values => ?_
  refine (target_agrees sized isTarget).bind fun oldPlace newPlace _ places => .written ?_
  exact places.continuous values _

theorem leading_agrees (inside : leadingFills (newer resolved) statement ⊆ among) :
    ItemsInBoth resolved among fun context => (leading context statement).result := by
  have comment (placeholder : Placeholder) :
      ItemsAgree among (older resolved).shadows (.placeholder placeholder) (.placeholder placeholder) :=
    ⟨fun unit _ => LinesAgree.same_all unit _, rfl⟩
  cases statement with
  | process block kind => exact always_agrees sized inside
  | assign assignment | conditional assignment =>
    exact .orComment comment assignment.line (continuous_agrees sized inside)
  | captured statement => exact .written (comment _)

theorem constant_agrees (inside : fills resolved.names true (some decl.type.width) decl.value ⊆ among) :
    InBoth resolved (fun old new => isDeclaring old = true ∧ isDeclaring new = true) (constant · decl) := by
  simp only [constant]
  exact (given_agrees sized inside).bind fun old new _ _ => .written ⟨rfl, rfl⟩

theorem object_agrees (inside : objectFills (newer resolved) decl ⊆ among) :
    InBoth resolved (fun old new => isDeclaring old = true ∧ isDeclaring new = true) (object · decl) := by
  rw [objectFills] at inside
  cases is : decl.init with
  | none =>
    simp only [object, is]
    exact .written ⟨rfl, rfl⟩
  | some value =>
    simp only [is] at inside
    simp only [object, is]
    exact (given_agrees sized inside).bind fun old new _ _ => .written ⟨rfl, rfl⟩

end

/-- Items of the concurrent statements, in the older dialect and in the newer one, agree statement by statement. -/
def EachAgrees (resolved : Resolved) (pairs : List (Item × Item)) : Prop :=
  Forall₂ (fun statement pair =>
    ItemsAgree (leadingFills (newer resolved) statement) (older resolved).shadows pair.1 pair.2) resolved.statements pairs

/-- Groups of items in the older dialect and in the newer one: behind what is declared, both have a group for each
concurrent statement. These agree, and only the older dialect forwards registers behind processes. -/
def GroupsAgree (resolved : Resolved) (old new : List (List Item)) : Prop :=
  ∃ oldDeclared newDeclared pairs,
    (∀ item ∈ oldDeclared.flatten ++ newDeclared.flatten, isDeclaring item = true) ∧
    old = oldDeclared ++ zipWith cons (pairs.map Prod.fst) (forwardings (older resolved) [] resolved.statements) ∧
    new = newDeclared ++ pairs.map (fun pair => [pair.2]) ∧ EachAgrees resolved pairs

theorem zipWith_forwardings_newer (resolved : Resolved) (forwarded : List String)
    (lengths : statements.length = items.length) :
    zipWith cons items (forwardings (newer resolved) forwarded statements) = items.map fun item => [item] := by
  induction items generalizing forwarded statements with
  | nil => rfl
  | cons item rest ih =>
    cases statements with
    | nil => nomatch lengths
    | cons statement others =>
      have here : forwardsBehind (newer resolved) forwarded statement = [] := by
        cases statement with
        | process block kind =>
          rw [forwardsBehind, forwards, filterMap_eq_nil_iff]
          intro name _
          split <;> rfl
        | _ => rfl
      rw [forwardings, here, zipWith_cons_cons, ih _ (Nat.succ.inj lengths)]
      rfl

theorem statementGroups_agree (sized : ∀ fill ∈ among, fill.width.isSome = true)
    (inside : fillsOfEach (fun statement => (leading (newer resolved) statement).result) (leadingFills (newer resolved))
      resolved.statements ⊆ among) :
    Agree (fun old new => ∃ pairs, old = zipWith cons (pairs.map Prod.fst)
        (forwardings (older resolved) [] resolved.statements) ∧
        new = pairs.map (fun pair => [pair.2]) ∧ EachAgrees resolved pairs)
      (statementGroups (older resolved) [] resolved.statements).result
      (statementGroups (newer resolved) [] resolved.statements).result := by
  rw [result_statementGroups, result_statementGroups]
  have items := Agree.mapM inside (fun statement _ isStatement =>
    leading_agrees (fun fill member => sized fill (isStatement member)) (Subset.refl _))
  refine items.bind ?_
  rintro _ _ _ ⟨pairs, rfl, rfl, agree⟩
  have lengths : resolved.statements.length = (pairs.map Prod.snd).length := by rw [length_map, agree.length_eq]
  rw [zipWith_forwardings_newer resolved [] lengths, map_map]
  exact .written ⟨pairs, rfl, rfl, agree⟩

theorem groups_agree (sized : ∀ fill ∈ architectureFills (newer resolved) architecture, fill.width.isSome = true) :
    Agree (GroupsAgree resolved) (groups (older resolved) architecture).result
      (groups (newer resolved) architecture).result := by
  have inside : architectureFills (newer resolved) architecture ⊆ architectureFills (newer resolved) architecture :=
    Subset.refl _
  have declaring {old new : List Item}
      (areDeclaring : Forall₂ (fun first second => isDeclaring first = true ∧ isDeclaring second = true) old new) :
      (∀ item ∈ old, isDeclaring item = true) ∧ ∀ item ∈ new, isDeclaring item = true :=
    ⟨fun _ member => (result_of_mem areDeclaring member).choose_spec.2.1,
      fun _ member => (source_of_mem areDeclaring member).choose_spec.2.2⟩
  rw [architectureFills] at inside
  simp only [groups, Traced.result_bind]
  refine .andThen inside (fun isConstants => .mapM_all isConstants fun decl _ isDecl => constant_agrees sized isDecl) ?_
  intro _ _ isRest areConstants
  refine .andThen isRest (fun isObjects => .mapM_all isObjects fun decl _ isDecl => object_agrees sized isDecl) ?_
  intro _ _ isStatements areObjects
  refine (statementGroups_agree sized isStatements).bind ?_
  rintro _ _ _ ⟨pairs, rfl, rfl, agree⟩
  refine .written ⟨_, _, pairs, forall_mem_append.mpr ⟨?_, ?_⟩, rfl, rfl, agree⟩
  · exact isDeclaring_declared architecture.enums (declaring areConstants).1 (declaring areObjects).1
  · exact isDeclaring_declared architecture.enums (declaring areConstants).2 (declaring areObjects).2

/-- If every aggregate of one bit that is written for a design has a width, both dialects write its concurrent
statements alike, unless the older one has no room for the bits. Behind what each declares, it has one group of items
for each statement, and the lines of these items agree: they are the same, except that an assignment in the older
dialect may be to the register behind a wire, that an aggregate of one bit is spelled out there, that a selection may
be `unique` in the newer dialect and that the dialects have different keywords before the same events. Both have the
same comments in place of the same statements. The older dialect also forwards the registers behind processes. -/
theorem modules_agree (resolved : Resolved) (sized : ∀ fill ∈ designFills resolved, fill.width.isSome = true) :
    Agree (fun old new => ∀ architecture ∈ resolved.design.architecture, GroupsAgree resolved old.groups new.groups)
      (moduleOf Dialect.legacy.profile resolved).result (moduleOf Dialect.strict.profile resolved).result := by
  rw [designFills] at sized
  cases is : resolved.design.architecture with
  | none =>
    simp only [moduleOf, is, Traced.result_bind]
    exact .written fun _ isNone => by cases isNone
  | some architecture =>
    simp only [is] at sized
    simp only [moduleOf, is, Traced.result_bind]
    exact (groups_agree sized).bind fun old new _ agree => .written fun _ _ => agree

def sampleFill : List Char :=
  ("entity e is port (a : in std_logic; y : out std_logic_vector(1 downto 0)); end; architecture r of e is begin " ++
    "process (a) begin y <= (others => '0'); y(0) <= a; end process; end;").toList

theorem sampleFill_agrees : ∃ resolved old new, (load sampleFill true).result = .ok resolved ∧
    designFills resolved = [⟨'0', some 2⟩] ∧ (moduleOf Dialect.legacy.profile resolved).result = .ok old ∧
    (moduleOf Dialect.strict.profile resolved).result = .ok new ∧ GroupsAgree resolved old.groups new.groups := by
  obtain ⟨resolved, loaded, old, oldOk, isSome, areFills⟩ : ∃ resolved, (load sampleFill true).result = .ok resolved ∧
      ∃ old, (moduleOf Dialect.legacy.profile resolved).result = .ok old ∧
        resolved.design.architecture.isSome ∧ designFills resolved = [⟨'0', some 2⟩] := by decide +kernel
  obtain ⟨architecture, is⟩ := Option.isSome_iff_exists.mp isSome
  have agree := modules_agree resolved (by rw [areFills]; decide)
  rw [oldOk] at agree
  generalize newOk : (moduleOf Dialect.strict.profile resolved).result = outcome at agree
  cases agree with
  | written agree => exact ⟨resolved, old, _, loaded, areFills, oldOk, newOk, agree _ is⟩

end Emission

end RtlBridge

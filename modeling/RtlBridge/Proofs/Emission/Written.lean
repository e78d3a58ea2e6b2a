import RtlBridge.Emission.Module
import RtlBridge.Proofs.Vhdl.Shape

/-! What each writer yields when it ends well: which statements and items stand for which parts of the
source. -/

namespace RtlBridge

open List

namespace Emission

open Vhdl (DataType NameTable Resolved ResolvedStmt)
open Verilog (Item Stmt)

/-! ### Expressions -/

section Expressions

variable {names : NameTable} {profile : Profile}

inductive Writes (names : NameTable) (profile : Profile) : Bool → Option Int → Vhdl.Expr → Verilog.Expr → Prop where
  | name {lend width spelling line} : Writes names profile lend width (.name spelling line) (.name spelling)
  | literal {lend width value line} : Writes names profile lend width (.literal value line) (literal value)
  | binary {lend width op lhs rhs line left right}
      (first : Writes names profile lend (lentWidth names lend lhs rhs) lhs left)
      (second : Writes names profile lend (lentWidth names lend rhs lhs) rhs right) :
      Writes names profile lend width (.binary op lhs rhs line)
        (if (operator op).negated then
          .unary .complement (.paren (.binary (operator op).op (grouped lhs left) (grouped rhs right)))
        else .binary (operator op).op (grouped lhs left) (grouped rhs right))
  | unary {lend width op operand line written} (inner : Writes names profile lend none operand written) :
      Writes names profile lend width (.unary op operand line) (signed op operand (grouped operand written))
  | shift {lend width function shift value amount rest line left right}
      (found : Vhdl.Builtin.shift? function = some shift) (first : Writes names profile false none value left)
      (second : Writes names profile false none amount right) :
      Writes names profile lend width (.call function (value :: amount :: rest) line)
        (.binary (shiftOperator names shift value) (grouped value left) (grouped amount right))
  | conversion {lend width function argument rest line written} (notShift : Vhdl.Builtin.shift? function = none)
      (notEdge : Vhdl.Builtin.edge? function = none) (inner : Writes names profile false width argument written) :
      Writes names profile lend width (.call function (argument :: rest) line) written
  | fill {lend width bit place site line written} (ok : filled profile bit width line = .ok written) :
      Writes names profile lend width (.aggregate (.literal (.bit bit) place) site line) written
  | replicate {lend count fill site line written} (notBit : ∀ bit place, fill ≠ .literal (.bit bit) place)
      (inner : Writes names profile false none fill written) :
      Writes names profile lend (some count) (.aggregate fill site line) (.replicate count written)
  | concat {lend width parts line written} (length : parts.length = written.length)
      (each : ∀ {part result}, (part, result) ∈ parts.zip written → Writes names profile false none part result) :
      Writes names profile lend width (.concat parts line) (.concat written)
  | index {lend width base subscript line whole place} (first : Writes names profile false none base whole)
      (second : Writes names profile false none subscript place) :
      Writes names profile lend width (.index base subscript line) (.index whole place)
  | slice {lend width base left right line whole high low} (first : Writes names profile false none base whole)
      (second : Writes names profile false none left high) (third : Writes names profile false none right low) :
      Writes names profile lend width (.slice base left right line) (.slice whole high low)

theorem writes_of_expr (ok : expr names profile lend width source = .ok written)
    : Writes names profile lend width source written := by
  induction source using Vhdl.Expr.induction generalizing lend width written with
  | name spelling line =>
    cases ok
    exact .name
  | literal value line =>
    cases ok
    exact .literal
  | binary op lhs rhs line inLeft inRight =>
    simp only [expr, bind_eq_ok] at ok
    obtain ⟨left, leftOk, right, rightOk, ⟨⟩⟩ := ok
    exact .binary (inLeft leftOk) (inRight rightOk)
  | unary op operand line inOperand =>
    simp only [expr, bind_eq_ok] at ok
    obtain ⟨inner, innerOk, ⟨⟩⟩ := ok
    exact .unary (inOperand innerOk)
  | call function arguments line inArguments =>
    rw [expr.eq_def] at ok
    dsimp only at ok
    split at ok
    · rename_i found
      obtain ⟨left, leftOk, ok⟩ := bind_eq_ok.mp ok
      obtain ⟨right, rightOk, ok⟩ := bind_eq_ok.mp ok
      cases ok
      exact .shift found (inArguments _ (by simp) leftOk) (inArguments _ (by simp) rightOk)
    · obtain ⟨_, _, ok⟩ := bind_eq_ok.mp ok
      cases ok
    · rename_i first rest notTwo notOne
      have notShift : Vhdl.Builtin.shift? function = none := by
        refine Option.eq_none_iff_forall_ne_some.mpr fun shift found => ?_
        cases rest with
        | nil => exact notOne shift found rfl
        | cons second others => exact notTwo shift second others found rfl
      split at ok
      · cases ok
      · rename_i notEdge
        exact .conversion notShift (by simpa using notEdge) (inArguments _ (by simp) ok)
    · cases ok
  | aggregate fill site line inFill =>
    rw [expr.eq_def] at ok
    dsimp only at ok
    split at ok
    · exact .fill ok
    · rename_i notBit
      split at ok
      · obtain ⟨inner, innerOk, ok⟩ := bind_eq_ok.mp ok
        cases ok
        exact .replicate notBit (inFill innerOk)
      · cases ok
  | concat parts line inParts =>
    simp only [expr, exprs_eq_mapM, bind_eq_ok, mapM_eq_ok_iff, forall₂_iff_zip] at ok
    obtain ⟨list, ⟨length, each⟩, ⟨⟩⟩ := ok
    exact .concat length fun member => inParts _ (of_mem_zip member).1 (each member)
  | index base subscript line inBase inSubscript =>
    simp only [expr, bind_eq_ok] at ok
    obtain ⟨whole, wholeOk, place, placeOk, ⟨⟩⟩ := ok
    exact .index (inBase wholeOk) (inSubscript placeOk)
  | slice base left right line inBase inLeft inRight =>
    simp only [expr, bind_eq_ok] at ok
    obtain ⟨whole, wholeOk, high, highOk, low, lowOk, ⟨⟩⟩ := ok
    exact .slice (inBase wholeOk) (inLeft highOk) (inRight lowOk)
  | tick base property line _ => cases ok

end Expressions

variable {context : Context}

/-! ### Statements -/

/-- What stands for a statement: its form in the dialect, or a comment if there is none. -/
def StandsFor (context : Context) (source : Vhdl.Stmt) (written : Stmt) : Prop :=
  (stmt context source).result = .ok written ∨
    ∃ construct line comment, (stmt context source).result = .error (.unsupported construct line) ∧
      written = .placeholder comment

theorem refused_eq_ok (ok : (refused context line refusal).result = .ok comment) :
    ∃ construct place, refusal = .unsupported construct place := by
  cases refusal with
  | unsupported construct place => exact ⟨construct, place, rfl⟩
  | lacking lack => cases ok
  | run fault => cases ok

/-- A statement, or the comment that stands for it. -/
def orComment (context : Context) (source : Vhdl.Stmt) : Traced Refusal Stmt :=
  tryCatch (stmt context source) fun refusal => do return .placeholder (← refused context source.line refusal)

theorem body_result (list : List Vhdl.Stmt) :
    (body context list).result = list.mapM fun source => (orComment context source).result := by
  rw [← Traced.result_mapM]
  congr 1
  induction list with
  | nil => rw [body_nil, mapM_nil]
  | cons first rest ih => rw [body, mapM_cons, ih, orComment]

theorem branchList_result (branches : List (Vhdl.Expr × List Vhdl.Stmt)) :
    (branchList context branches).result = branches.mapM fun branch => do
      return (← given context none branch.1, ← (body context branch.2).result) := by
  induction branches with
  | nil => rw [branchList_nil]; rfl
  | cons first rest ih =>
    simp only [branchList, mapM_cons, Traced.result_bind, ih, bind_assoc, pure_bind]
    rfl

theorem armList_result (arms : List (List Vhdl.Expr × List Vhdl.Stmt)) :
    (armList context width arms).result = arms.mapM fun arm => do
      return (← arm.1.mapM (plain context width), ← (body context arm.2).result) := by
  induction arms with
  | nil => rw [armList_nil]; rfl
  | cons first rest ih =>
    simp only [armList, mapM_cons, Traced.result_bind, ih, bind_assoc, pure_bind]
    rfl

theorem defaultBody_result (default : Option (List Vhdl.Stmt)) :
    (defaultBody context default).result = default.mapM fun list => (body context list).result := by
  cases default with
  | none => rw [defaultBody_none]; rfl
  | some list =>
    rw [defaultBody, Traced.result_bind]
    rfl

theorem body_eq_ok (ok : (body context list).result = .ok written) : Forall₂ (StandsFor context) list written := by
  rw [body_result, mapM_eq_ok_iff] at ok
  refine ok.imp fun source statement ok => ?_
  simp only [orComment, tryCatch, tryCatchThe, MonadExceptOf.tryCatch] at ok
  cases is : (stmt context source).result with
  | ok statement =>
    rw [is] at ok
    exact .inl (is.trans (is.symm.trans ok))
  | error refusal =>
    rw [is] at ok
    simp only [Traced.result_bind, bind_eq_ok] at ok
    obtain ⟨comment, commentOk, ⟨⟩⟩ := ok
    obtain ⟨construct, place, rfl⟩ := refused_eq_ok commentOk
    exact .inr ⟨construct, place, comment, is, rfl⟩

/-- The parts of a statement and what is written for them. -/
inductive StmtFor (context : Context) : Vhdl.Stmt → Stmt → Prop where
  | assign {source value immediate line place inner} (placeOk : target context source = .ok place)
      (valueOk : given context (source.width? context.names) value = .ok inner) :
      StmtFor context (.assign source value immediate line) (.assign place immediate inner
        (widthRemarks context.names source.name (source.width? context.names) [value]))
  | conditional {branches otherwise line list rest}
      (each : Forall₂ (fun branch result => given context none branch.1 = .ok result.1 ∧
        (body context branch.2).result = .ok result.2) branches list)
      (restOk : (body context otherwise).result = .ok rest) :
      StmtFor context (.conditional branches otherwise line)
        (.conditional list (if otherwise.isEmpty then none else some rest))
  | selection {selector arms default line value list last} (valueOk : plain context none selector = .ok value)
      (each : Forall₂ (fun arm result => arm.1.mapM (plain context (selector.width? context.names)) = .ok result.1 ∧
        (body context arm.2).result = .ok result.2) arms list)
      (lastOk : Option.Rel (fun list inner => (body context list).result = .ok inner) default last) :
      StmtFor context (.selection selector arms default line) (.selection
        (context.profile.uniqueCase && Vhdl.areExclusive context.names (arms.flatMap Prod.fst)) value list last)
  | captured {statement} : StmtFor context (.captured statement) (.placeholder (placeholderOf statement))

theorem stmt_eq_ok (ok : (stmt context source).result = .ok written) : StmtFor context source written := by
  cases source with
  | assign source value immediate line =>
    simp only [stmt, Traced.result_bind, bind_eq_ok] at ok
    obtain ⟨inner, innerOk, place, placeOk, ⟨⟩⟩ := ok
    exact .assign placeOk innerOk
  | conditional branches otherwise line =>
    simp only [stmt, Traced.result_bind, bind_eq_ok] at ok
    obtain ⟨list, listOk, rest, restOk, ⟨⟩⟩ := ok
    rw [branchList_result, mapM_eq_ok_iff] at listOk
    exact .conditional (listOk.imp fun _ _ => pair_eq_ok) restOk
  | selection selector arms default line =>
    simp only [stmt, Traced.result_bind, bind_eq_ok] at ok
    obtain ⟨value, valueOk, list, listOk, last, lastOk, ⟨⟩⟩ := ok
    rw [armList_result, mapM_eq_ok_iff] at listOk
    rw [defaultBody_result] at lastOk
    refine .selection valueOk (listOk.imp fun _ _ => pair_eq_ok) ?_
    cases default with
    | none =>
      cases lastOk
      exact .none
    | some list =>
      obtain ⟨inner, innerOk, ⟨⟩⟩ := bind_eq_ok.mp lastOk
      exact .some innerOk
  | captured statement =>
    cases ok
    exact .captured

/-- A place of a name: all of it, one of its elements, or a range. -/
inductive IsPlaceOf (name : String) : Vhdl.Part → Verilog.Expr → Prop where
  | whole : IsPlaceOf name .whole (.name name)
  | element {subscript : Vhdl.Expr} {place : Verilog.Expr} : IsPlaceOf name (.element subscript) (.index (.name name) place)
  | range {left right : Vhdl.Expr} {high low : Verilog.Expr} : IsPlaceOf name (.range left right) (.slice (.name name) high low)

theorem isPlaceOf_target (ok : target context source = .ok place) :
    IsPlaceOf ((context.shadows.lookup source.name).getD source.name) source.part place := by
  obtain ⟨name, part, line⟩ := source
  cases part with
  | whole =>
    cases ok
    exact .whole
  | element subscript =>
    obtain ⟨_, _, ok⟩ := bind_eq_ok.mp ok
    cases ok
    exact .element
  | range left right =>
    obtain ⟨_, _, ok⟩ := bind_eq_ok.mp ok
    obtain ⟨_, _, ok⟩ := bind_eq_ok.mp ok
    cases ok
    exact .range

theorem continuous_eq_ok (ok : continuous context source choices last = .ok item) :
    ∃ value place remarks, chosen context (source.width? context.names) last choices = .ok value ∧
      target context source = .ok place ∧ item = .assign place value remarks := by
  simp only [continuous, bind_eq_ok] at ok
  obtain ⟨value, valueOk, place, placeOk, ⟨⟩⟩ := ok
  exact ⟨value, place, _, valueOk, placeOk, rfl⟩

/-! ### Refusals -/

section Refusals

variable {names : NameTable} {profile : Profile} {good : Option Int → Prop} {allowed : Refusal → Prop}

/-- An expression whose own parts are refused for allowed causes only, at places of good widths. -/
def RefusedNode (names : NameTable) (profile : Profile) (good : Option Int → Prop) (allowed : Refusal → Prop)
    (node : Vhdl.Expr) : Prop :=
  good (node.width? names) ∧
    match node with
    | .call function arguments line =>
      ((Vhdl.Builtin.edge? function).isSome = true → allowed (.unsupported (.edgeOutsideIf function) line)) ∧
        (arguments.length < (if (Vhdl.Builtin.shift? function).isSome then 2 else 1) → allowed (.lacking .argument))
    | .aggregate _ _ line => allowed (.unsupported .unsizedAggregate line) ∧
        ∀ bit width, good width → FailsOnly allowed (filled profile bit width line)
    | .tick _ property line => allowed (.unsupported (.attributeInExpression property) line)
    | _ => True

theorem good_lentWidth (unsized : good none) (known : good (other.width? names)) (lend : Bool) (operand : Vhdl.Expr)
    : good (lentWidth names lend operand other) := by
  unfold lentWidth
  split
  · split
    · exact known
    · exact unsized
  · exact unsized

theorem expr_failsOnly (unsized : good none) (all : source.All (RefusedNode names profile good allowed)) (lend : Bool)
    (known : good width) : FailsOnly allowed (expr names profile lend width source) := by
  induction source using Vhdl.Expr.induction generalizing lend width with
  | name spelling line => exact .ok
  | literal value line => exact .ok
  | binary op lhs rhs line inLeft inRight =>
    obtain ⟨_, ofLeft, ofRight⟩ := all
    rw [expr]
    refine .bind (inLeft ofLeft lend (good_lentWidth unsized ofRight.self.1 _ _)) fun left => ?_
    exact .bind (inRight ofRight lend (good_lentWidth unsized ofLeft.self.1 _ _)) fun right => .ok
  | unary op operand line inOperand =>
    rw [expr]
    exact .bind (inOperand all.2 lend unsized) fun written => .ok
  | call function arguments line inArguments =>
    obtain ⟨⟨_, edge, lacking⟩, ofArguments⟩ := all
    have inArgument {argument : Vhdl.Expr} (member : argument ∈ arguments) {width : Option Int} (known : good width) :=
      inArguments argument member ((Vhdl.Expr.areAll_iff _).mp ofArguments argument member) false known
    unfold expr
    split
    · refine .bind (inArgument (by simp) unsized) fun left => ?_
      exact .bind (inArgument (by simp) unsized) fun right => .ok
    · exact .bind (inArgument (by simp) unsized) fun value => .error (lacking (by simp [*]))
    · split
      · exact .error (edge ‹_›)
      · exact inArgument (by simp) known
    · refine .error (lacking ?_)
      split <;> simp
  | aggregate fill site line inFill =>
    obtain ⟨⟨_, noWidth, ofBits⟩, ofFill⟩ := all
    unfold expr
    split
    · exact ofBits _ _ known
    · split
      · exact .bind (inFill ofFill false unsized) fun written => .ok
      · exact .error noWidth
  | concat parts line inParts =>
    have areAll := (Vhdl.Expr.areAll_iff _).mp all.2
    rw [expr, exprs_eq_mapM]
    refine .bind (.mapM fun part member => ?_) fun written => .ok
    exact inParts part member (areAll part member) false unsized
  | index base subscript line inBase inSubscript =>
    obtain ⟨_, ofBase, ofSubscript⟩ := all
    rw [expr]
    refine .bind (inBase ofBase false unsized) fun written => ?_
    exact .bind (inSubscript ofSubscript false unsized) fun place => .ok
  | slice base left right line inBase inLeft inRight =>
    obtain ⟨_, ofBase, ofLeft, ofRight⟩ := all
    rw [expr]
    refine .bind (inBase ofBase false unsized) fun written => ?_
    refine .bind (inLeft ofLeft false unsized) fun high => ?_
    exact .bind (inRight ofRight false unsized) fun low => .ok
  | tick base property line inBase => exact .error all.1.2

theorem target_failsOnly (inPart : source.part.All fun subscript => FailsOnly allowed (plain context none subscript)) :
    FailsOnly allowed (target context source) := by
  unfold target
  cases is : source.part with
  | whole => exact .ok
  | element subscript =>
    rw [is] at inPart
    exact .bind inPart fun written => .ok
  | range left right =>
    rw [is] at inPart
    exact .bind inPart.1 fun high => .bind inPart.2 fun low => .ok

theorem refused_failsOnly (line : Nat) (isAllowed : allowed refusal) :
    FailsOnly allowed (refused context line refusal).result := by
  cases refusal with
  | unsupported construct place => exact .ok
  | _ => exact .error isAllowed

/-- A statement whose own expressions are refused for allowed causes only. -/
def RefusedStmt (context : Context) (allowed : Refusal → Prop) : Vhdl.Stmt → Prop
  | .assign source value _ _ => FailsOnly allowed (given context (source.width? context.names) value) ∧
      source.part.All fun subscript => FailsOnly allowed (plain context none subscript)
  | .conditional branches _ _ => ∀ branch ∈ branches, FailsOnly allowed (given context none branch.1)
  | .selection selector arms _ _ => FailsOnly allowed (plain context none selector) ∧
      ∀ arm ∈ arms, ∀ choice ∈ arm.1, FailsOnly allowed (plain context (selector.width? context.names) choice)
  | .captured _ => True

theorem body_failsOnly (each : ∀ inner ∈ list, FailsOnly allowed (stmt context inner).result) :
    FailsOnly allowed (body context list).result := by
  rw [body_result]
  refine .mapM fun inner member => .tryCatch (each inner member) fun refusal isAllowed => ?_
  exact .bindResult (refused_failsOnly inner.line isAllowed) fun placeholder => .ok

theorem stmt_failsOnly (all : source.All (RefusedStmt context allowed)) :
    FailsOnly allowed (stmt context source).result := by
  have inBody {list : List Vhdl.Stmt} (each : ∀ inner ∈ list, inner.All (RefusedStmt context allowed) →
      FailsOnly allowed (stmt context inner).result) (all : Vhdl.bodyAll (RefusedStmt context allowed) list) :
      FailsOnly allowed (body context list).result :=
    body_failsOnly fun inner member => each inner member ((Vhdl.bodyAll_iff list).mp all inner member)
  induction source using Vhdl.Stmt.induction with
  | assign place value immediate line =>
    rw [stmt]
    exact .bindResult all.1 fun written => .bindResult (target_failsOnly all.2) fun place => .ok
  | conditional branches otherwise line inBranches inOtherwise =>
    obtain ⟨conditions, inside, rest⟩ := all
    rw [stmt]
    refine .bindResult ?_ fun written => ?_
    · rw [branchList_result]
      refine .mapM fun branch member => .bind (conditions branch member) fun condition => .bind ?_ fun inner => .ok
      exact inBody (inBranches branch member) ((Vhdl.branchAll_iff branches).mp inside branch member)
    · exact .bindResult (inBody inOtherwise rest) fun others => .ok
  | selection selector arms default line inArms inDefault =>
    obtain ⟨⟨ofSelector, choices⟩, inside, rest⟩ := all
    rw [stmt]
    refine .bindResult ofSelector fun written => ?_
    refine .bindResult ?_ fun list => ?_
    · rw [armList_result]
      refine .mapM fun arm member => .bind (.mapM (choices arm member)) fun written => .bind ?_ fun inner => .ok
      exact inBody (inArms arm member) ((Vhdl.armAll_iff arms).mp inside arm member)
    · refine .bindResult ?_ fun last => .ok
      rw [defaultBody_result]
      cases default with
      | none => exact .ok
      | some list => exact .bind (inBody (inDefault list rfl) rest) fun inner => .ok
  | captured statement =>
    rw [stmt_captured]
    exact .ok

end Refusals

/-! ### Always blocks -/

def BodyFor (context : Context) (block : Vhdl.ProcessBlock DataType) (written : List Stmt) :
    Vhdl.ProcessKind → Prop
  | .combinational => (body context block.body).result = .ok written
  | .sequential _ (.async test resetBody) clocked => ∃ resetting statements,
      (body context resetBody).result = .ok resetting ∧ (body context clocked).result = .ok statements ∧
        written = [.conditional [(.binary .eq (.name test.signal) (.sized 1 .binary test.level.digit), resetting)]
          (some statements)]
  | .sequential _ _ clocked => (body context clocked).result = .ok written

theorem always_eq_ok (ok : (always context block kind).result = .ok item) :
    ∃ trigger written, item = .always trigger block.label written ∧ BodyFor context block written kind := by
  cases kind with
  | combinational =>
    simp only [always, Traced.result_bind, bind_eq_ok] at ok
    obtain ⟨written, writtenOk, ⟨⟩⟩ := ok
    exact ⟨_, written, rfl, writtenOk⟩
  | sequential clock reset clocked =>
    cases reset with
    | async test resetBody =>
      simp only [always, Traced.result_bind, bind_eq_ok] at ok
      obtain ⟨resetting, resettingOk, statements, statementsOk, ⟨⟩⟩ := ok
      exact ⟨_, _, rfl, resetting, statements, resettingOk, statementsOk, rfl⟩
    | _ =>
      simp only [always, Traced.result_bind, bind_eq_ok] at ok
      obtain ⟨written, writtenOk, ⟨⟩⟩ := ok
      exact ⟨_, written, rfl, writtenOk⟩

/-! ### Concurrent statements -/

/-- What a concurrent statement can be written as. -/
inductive ItemFor (context : Context) : ResolvedStmt → Item → Prop where
  | always {block : Vhdl.ProcessBlock DataType} {kind : Vhdl.ProcessKind} {item : Item}
      (written : (always context block kind).result = .ok item) : ItemFor context (.process block kind) item
  | forward {block : Vhdl.ProcessBlock DataType} {kind : Vhdl.ProcessKind} {name shadow : String}
      (writes : name ∈ (Vhdl.bodyWrites false block.body).map Prod.fst)
      (shadowed : context.shadows.lookup name = some shadow) :
      ItemFor context (.process block kind) (.assign (.name name) (.name shadow) [])
  | assign {assignment : Vhdl.ContinuousAssign} {item : Item}
      (written : continuous context assignment.target [] assignment.value = .ok item) :
      ItemFor context (.assign assignment) item
  | conditional {assignment : Vhdl.ConditionalAssign} {item : Item}
      (written : continuous context assignment.target assignment.choices assignment.default = .ok item) :
      ItemFor context (.conditional assignment) item
  | placeholder {statement : ResolvedStmt} {comment : Verilog.Placeholder} :
      ItemFor context statement (.placeholder comment)

theorem orPlaceholder_eq_ok (ok : (orPlaceholder context line source).result = .ok item) :
    source = .ok item ∨ ∃ comment, item = .placeholder comment := by
  cases source with
  | ok written =>
    cases ok
    exact .inl rfl
  | error refusal =>
    simp only [orPlaceholder, tryCatch, tryCatchThe, MonadExceptOf.tryCatch] at ok
    change (do return Item.placeholder (← refused context line refusal) : Traced Refusal Item).result = .ok item at ok
    simp only [Traced.result_bind] at ok
    obtain ⟨comment, _, ok⟩ := bind_eq_ok.mp ok
    cases ok
    exact .inr ⟨comment, rfl⟩

/-! ### Modules -/

/-- The groups of an architecture: those of its declarations, then those of its statements. -/
structure GroupsFor (context : Context) (architecture : Vhdl.Architecture DataType) (groups : List (List Item)) where
  constants : List Item
  objects : List Item
  statements : List (List Item)
  constantsOk : architecture.constants.mapM (constant context) = .ok constants
  objectsOk : (architecture.signals ++ architecture.processes.flatMap (·.vars)).mapM (object context) = .ok objects
  statementsOk : (statementGroups context [] context.resolved.statements).result = .ok statements
  isGroups : groups = groupOf (architecture.enums.map fun decl => enumeration context.profile decl.type) ++
    groupOf constants ++ groupOf (objects ++ context.shadows.map fun entry => shadow context entry.1 entry.2) ++
    statements

theorem groups_eq_ok (ok : (groups context architecture).result = .ok list)
    : Nonempty (GroupsFor context architecture list) := by
  simp only [groups, Traced.result_bind, bind_eq_ok] at ok
  obtain ⟨constants, constantsOk, objects, objectsOk, statements, statementsOk, ⟨⟩⟩ := ok
  exact ⟨⟨constants, objects, statements, constantsOk, objectsOk, statementsOk, rfl⟩⟩

theorem flatten_groupOf (items : List Item) : (groupOf items).flatten = items := by
  rw [groupOf]
  split
  · rename_i empty
    rw [isEmpty_iff.mp empty]
    rfl
  · simp

theorem moduleOf_eq_ok (ok : (moduleOf profile resolved).result = .ok module) :
    module.name = resolved.design.entity.name ∧
      module.banner = s!"{resolved.design.entity.name}: generated by vhdl2ver ({profile.dialect.text} dialect)" ∧
      module.ports = resolved.design.entity.ports.map (port (Context.of profile resolved)) ∧
      (resolved.design.architecture = none → module.groups = []) ∧
      ∀ architecture ∈ resolved.design.architecture,
        (groups (Context.of profile resolved) architecture).result = .ok module.groups := by
  cases is : resolved.design.architecture with
  | none =>
    simp only [moduleOf, is, Traced.result_bind, bind_eq_ok] at ok
    obtain ⟨_, ⟨⟩, _, _, ⟨⟩⟩ := ok
    exact ⟨rfl, rfl, rfl, fun _ => rfl, nofun⟩
  | some architecture =>
    simp only [moduleOf, is, Traced.result_bind, bind_eq_ok] at ok
    obtain ⟨list, listOk, _, _, ⟨⟩⟩ := ok
    refine ⟨rfl, rfl, rfl, nofun, ?_⟩
    rintro _ ⟨⟩
    exact listOk

end Emission

end RtlBridge

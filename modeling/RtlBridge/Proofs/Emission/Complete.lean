import RtlBridge.Proofs.Emission.StatementGroups
import RtlBridge.Proofs.Vhdl.Measured
import RtlBridge.Proofs.Vhdl.ResolvedShape

/-! Writing a resolved design never finds an argument missing: it refuses only what a dialect has no form for,
and texts that are too long. -/

namespace RtlBridge.Emission

open List (forall_mem_append forall_mem_flatMap)

open Vhdl (NameTable DataType Resolved ResolvedStmt Architecture Expr Stmt Target bodyAll)

/-! ### What can be written -/

def Fits (count : Int) : Prop := Text.isCountable count = true ∧ count ≤ Text.runLimit

theorem not_fits_of_run (failed : Text.run c count = .error fault) : ¬ Fits count := by
  rintro ⟨countable, short⟩
  simp [Text.run, countable, short] at failed

/-- A refusal that is not for want of an argument, and if it is for want of room, then because a width does not
fit. -/
def Refusal.IsExpected (wide : Int → Prop) : Refusal → Prop
  | .unsupported _ _ => True
  | .lacking _ => False
  | .run _ => ∃ width, wide width ∧ ¬ Fits width

section Writable

variable (names : NameTable) (wide : Int → Prop)

/-- Calls have their arguments, and all widths are among the given ones. -/
def WritableExpr : Expr → Prop :=
  Expr.All fun node => node.LoweredNode ∧ ∀ width, node.width? names = some width → wide width

def WritableTarget (target : Target) : Prop :=
  (∀ width, target.width? names = some width → wide width) ∧ target.part.All (WritableExpr names wide)

/-- The expressions of a statement, apart from those of the statements in it. -/
def WritableNode : Stmt → Prop
  | .assign target value _ _ => WritableTarget names wide target ∧ WritableExpr names wide value
  | .conditional branches _ _ => ∀ branch ∈ branches, WritableExpr names wide branch.1
  | .selection selector arms _ _ =>
    WritableExpr names wide selector ∧ ∀ arm ∈ arms, ∀ choice ∈ arm.1, WritableExpr names wide choice
  | .captured _ => True

def WritableConcurrent : Vhdl.Concurrent DataType → Prop
  | .process block => bodyAll (WritableNode names wide) block.body
  | .assign assignment => WritableTarget names wide assignment.target ∧ WritableExpr names wide assignment.value
  | .conditional assignment =>
    WritableTarget names wide assignment.target ∧
      (∀ choice ∈ assignment.choices, WritableExpr names wide choice.1 ∧ WritableExpr names wide choice.2) ∧
      WritableExpr names wide assignment.default
  | .captured _ => True

structure WritableArchitecture (body : Architecture DataType) : Prop where
  constants : ∀ decl ∈ body.constants, wide decl.type.width ∧ WritableExpr names wide decl.value
  signals : ∀ decl ∈ body.signals, wide decl.type.width ∧ ∀ value ∈ decl.init, WritableExpr names wide value
  vars : ∀ block ∈ body.processes, ∀ decl ∈ block.vars,
    wide decl.type.width ∧ ∀ value ∈ decl.init, WritableExpr names wide value
  statements : ∀ stmt ∈ body.statements, WritableConcurrent names wide stmt

variable {names : NameTable} {wide : Int → Prop}

theorem writableExpr_of_isSound (sound : source.IsSound)
    (known : ∀ node ∈ source.nodes, ∀ width, node.width? names = some width → wide width) :
    WritableExpr names wide source := sound.isLowered.and (source.all_iff_forall_nodes.mpr known)

theorem writableTarget_of_isSound {target : Target} (sound : target.part.All Expr.IsSound)
    (known : ∀ node ∈ target.toExpr.nodes, ∀ width, node.width? names = some width → wide width) :
    WritableTarget names wide target := by
  refine ⟨known _ target.toExpr.mem_nodes_self, ?_⟩
  unfold Target.toExpr at known
  cases is : target.part with
  | whole => trivial
  | element subscript =>
    simp only [is, Expr.nodes, List.forall_mem_cons, forall_mem_append] at sound known
    exact writableExpr_of_isSound sound known.2.2
  | range left right =>
    simp only [is, Expr.nodes, List.forall_mem_cons, forall_mem_append] at sound known
    exact ⟨writableExpr_of_isSound sound.1 known.2.1.2, writableExpr_of_isSound sound.2 known.2.2⟩

theorem writableStmt_of_uses (stmt : Stmt) (sound : stmt.Uses Expr.IsSound)
    (known : ∀ node ∈ stmt.nodes, ∀ width, node.width? names = some width → wide width) :
    stmt.All (WritableNode names wide) := by
  have inBody {list : List Stmt} (each : ∀ inner ∈ list, inner.Uses Expr.IsSound →
      (∀ node ∈ inner.nodes, ∀ width, node.width? names = some width → wide width) →
      inner.All (WritableNode names wide)) (sound : bodyAll (Stmt.UsesNode Expr.IsSound) list)
      (known : ∀ node ∈ Vhdl.bodyNodes list, ∀ width, node.width? names = some width → wide width) :
      bodyAll (WritableNode names wide) list := by
    rw [Vhdl.bodyNodes_eq_flatMap, forall_mem_flatMap] at known
    rw [Vhdl.bodyAll_iff] at sound ⊢
    exact fun inner member => each inner member (sound inner member) (known inner member)
  induction stmt using Stmt.induction with
  | assign target value immediate line =>
    obtain ⟨inTarget, inValue⟩ := forall_mem_append.mp known
    exact ⟨writableTarget_of_isSound sound.1 inTarget, writableExpr_of_isSound sound.2 inValue⟩
  | conditional branches otherwise line inBranches inOtherwise =>
    obtain ⟨conditions, inside, rest⟩ := sound
    rw [Stmt.nodes, forall_mem_append, Vhdl.branchNodes_eq_flatMap, forall_mem_flatMap] at known
    have branchKnown branch member := forall_mem_append.mp (known.1 branch member)
    refine ⟨fun branch member => ?_, ?_, inBody inOtherwise rest known.2⟩
    · exact writableExpr_of_isSound (conditions branch member) (branchKnown branch member).1
    · rw [Vhdl.branchAll_iff] at inside ⊢
      exact fun branch member => inBody (inBranches branch member) (inside branch member) (branchKnown branch member).2
  | selection selector arms default line inArms inDefault =>
    obtain ⟨⟨inSelector, choices⟩, inside, rest⟩ := sound
    rw [Stmt.nodes, forall_mem_append, forall_mem_append, Vhdl.armNodes_eq_flatMap, forall_mem_flatMap] at known
    have armKnown arm member := forall_mem_append.mp (known.1.2 arm member)
    refine ⟨⟨writableExpr_of_isSound inSelector known.1.1, fun arm member choice inArm => ?_⟩, ?_, ?_⟩
    · exact writableExpr_of_isSound (choices arm member choice inArm)
        (forall_mem_flatMap.mp (armKnown arm member).1 choice inArm)
    · rw [Vhdl.armAll_iff] at inside ⊢
      exact fun arm member => inBody (inArms arm member) (inside arm member) (armKnown arm member).2
    · cases default with
      | none => trivial
      | some list => exact inBody (inDefault list rfl) rest known.2
  | captured statement => trivial

theorem writableConcurrent_of_isSound {stmt : Vhdl.Concurrent DataType} (sound : stmt.IsSound)
    (known : ∀ node ∈ stmt.nodes (fun _ => []), ∀ width, node.width? names = some width → wide width) :
    WritableConcurrent names wide stmt := by
  cases stmt with
  | process block =>
    obtain ⟨_, inBody⟩ := forall_mem_append.mp known
    refine (Vhdl.bodyAll_iff _).mpr fun inner member => ?_
    exact writableStmt_of_uses inner (sound.2 inner member) (forall_mem_flatMap.mp inBody inner member)
  | assign assignment =>
    obtain ⟨inTarget, inValue⟩ := forall_mem_append.mp known
    exact ⟨writableTarget_of_isSound sound.1 inTarget, writableExpr_of_isSound sound.2 inValue⟩
  | conditional assignment =>
    obtain ⟨target, choices, default⟩ := sound
    rw [Vhdl.Concurrent.nodes, forall_mem_append, forall_mem_append, forall_mem_flatMap] at known
    refine ⟨writableTarget_of_isSound target known.1.1, fun choice member => ?_,
      writableExpr_of_isSound default known.2⟩
    obtain ⟨inValue, inCondition⟩ := forall_mem_append.mp (known.1.2 choice member)
    exact ⟨writableExpr_of_isSound (choices choice member).1 inValue,
      writableExpr_of_isSound (choices choice member).2 inCondition⟩
  | captured statement => trivial

end Writable

theorem writableArchitecture_of_isSound (sound : design.IsSound) {body : Architecture DataType}
    (is : design.architecture = some body) : WritableArchitecture (Vhdl.names design) design.HasWidth body := by
  have inside := sound.architecture body is
  have known : ∀ node ∈ body.nodes (fun _ => []), ∀ width,
      node.width? (Vhdl.names design) = some width → design.HasWidth width := by
    intro node member width found
    refine .inl ⟨node, List.mem_append_right _ ?_, found⟩
    rw [is]
    exact List.mem_flatMap.mpr ⟨body, by simp, member⟩
  simp only [Architecture.nodes, Vhdl.ObjectDecl.nodes, Vhdl.ConstantDecl.nodes, List.nil_append,
    forall_mem_append, forall_mem_flatMap, Option.mem_toList] at known
  obtain ⟨⟨inSignals, inConstants⟩, inStatements⟩ := known
  refine ⟨fun decl member => ⟨?_, ?_⟩, fun decl member => ⟨?_, fun value isInit => ?_⟩,
    fun block isProcess decl isVar => ⟨?_, fun value isInit => ?_⟩, fun stmt member => ?_⟩
  · exact .inr ⟨body, is, .inl ⟨decl, member, rfl⟩⟩
  · exact writableExpr_of_isSound (inside.constants decl member).2 (inConstants decl member)
  · exact .inr ⟨body, is, .inr (.inl ⟨decl, member, rfl⟩)⟩
  · exact writableExpr_of_isSound ((inside.signals decl member).2 value isInit) (inSignals decl member value isInit)
  · exact .inr ⟨body, is, .inr (.inr ⟨block, isProcess, decl, isVar, rfl⟩)⟩
  · have isStmt := Architecture.mem_processes.mp isProcess
    have inVars := (forall_mem_append.mp (inStatements _ isStmt)).1
    simp only [Vhdl.ObjectDecl.nodes, List.nil_append, forall_mem_flatMap, Option.mem_toList] at inVars
    exact writableExpr_of_isSound (((inside.statements _ isStmt).1 decl isVar).2 value isInit)
      (inVars decl isVar value isInit)
  · exact writableConcurrent_of_isSound (inside.statements stmt member) (inStatements stmt member)

/-! ### Expressions -/

section Expressions

variable {names : NameTable} {wide : Int → Prop}

theorem filled_failsOnly (profile : Profile) (bit : String) (known : ∀ count, width = some count → wide count)
    (line : Nat) : FailsOnly (Refusal.IsExpected wide) (filled profile bit width line) := by
  unfold filled
  split
  · exact .ok
  · split
    next count =>
      refine .bind ?_ fun digits => .ok
      refine FailsOnly.mapError (fun fault failed => not_fits_of_run failed) fun fault tooLong => ?_
      exact ⟨count, known count rfl, tooLong⟩
    next => exact .error trivial

theorem writableExpr_failsOnly (profile : Profile) (lend : Bool) (known : ∀ count, width = some count → wide count)
    (writable : WritableExpr names wide source) :
    FailsOnly (Refusal.IsExpected wide) (expr names profile lend width source) := by
  have all : source.All (RefusedNode names profile (fun width => ∀ count, width = some count → wide count)
      (Refusal.IsExpected wide)) := by
    refine writable.mono fun node isWritable => ⟨isWritable.2, ?_⟩
    cases node with
    | call function arguments line =>
      have arity := Vhdl.Builtin.arity?_eq_some isWritable.1
      refine ⟨fun _ => trivial, fun short => absurd arity ?_⟩
      grind
    | aggregate fill site line => exact ⟨trivial, fun bit width known => filled_failsOnly profile bit known line⟩
    | _ => trivial
  exact expr_failsOnly (by simp) all lend known

end Expressions

/-! ### Statements -/

section Statements

variable (context : Context) {wide : Int → Prop}

theorem given_failsOnly (known : ∀ count, width = some count → wide count)
    (writable : WritableExpr context.names wide source) :
    FailsOnly (Refusal.IsExpected wide) (given context width source) :=
  writableExpr_failsOnly context.profile true known writable

theorem plain_failsOnly (known : ∀ count, width = some count → wide count)
    (writable : WritableExpr context.names wide source) :
    FailsOnly (Refusal.IsExpected wide) (plain context width source) :=
  writableExpr_failsOnly context.profile false known writable

theorem refusedStmt_of_writable (writable : WritableNode context.names wide source) :
    RefusedStmt context (Refusal.IsExpected wide) source := by
  cases source with
  | assign place value immediate line =>
    obtain ⟨inPlace, inValue⟩ := writable
    exact ⟨given_failsOnly context inPlace.1 inValue, inPlace.2.mono fun _ => plain_failsOnly context nofun⟩
  | conditional branches otherwise line =>
    exact fun branch member => given_failsOnly context nofun (writable branch member)
  | selection selector arms default line =>
    refine ⟨plain_failsOnly context nofun writable.1, fun arm member choice inArm => ?_⟩
    exact plain_failsOnly context writable.1.self.2 (writable.2 arm member choice inArm)
  | captured statement => trivial

theorem writableBody_failsOnly (writable : bodyAll (WritableNode context.names wide) list) :
    FailsOnly (Refusal.IsExpected wide) (body context list).result :=
  body_failsOnly fun inner member => stmt_failsOnly
    (((Vhdl.bodyAll_iff list).mp writable inner member).mono fun _ => refusedStmt_of_writable context)

end Statements

/-! ### Items -/

section Items

variable (context : Context) {wide : Int → Prop}

theorem constant_failsOnly (known : wide decl.type.width) (writable : WritableExpr context.names wide decl.value) :
    FailsOnly (Refusal.IsExpected wide) (constant context decl) := by
  unfold constant
  refine .bind (given_failsOnly context ?_ writable) fun value => .ok
  rintro _ ⟨⟩
  exact known

theorem object_failsOnly (known : wide decl.type.width)
    (writable : ∀ value ∈ decl.init, WritableExpr context.names wide value) :
    FailsOnly (Refusal.IsExpected wide) (object context decl) := by
  unfold object
  cases is : decl.init with
  | none => exact .ok
  | some value =>
    refine .bind (given_failsOnly context ?_ (writable value is)) fun written => .ok
    rintro _ ⟨⟩
    exact known

theorem always_failsOnly (inBlock : bodyAll (WritableNode context.names wide) block.body)
    (inKind : kind.All (WritableNode context.names wide)) :
    FailsOnly (Refusal.IsExpected wide) (always context block kind).result := by
  unfold always
  split
  · exact .bindResult (writableBody_failsOnly context inBlock) fun statements => .ok
  · refine .bindResult (writableBody_failsOnly context inKind.1) fun resetting => ?_
    exact .bindResult (writableBody_failsOnly context inKind.2) fun statements => .ok
  · exact .bindResult (writableBody_failsOnly context inKind.2) fun statements => .ok

theorem chosen_failsOnly (known : ∀ count, width = some count → wide count)
    (inLast : WritableExpr context.names wide last) (each : ∀ choice ∈ choices,
      WritableExpr context.names wide choice.1 ∧ WritableExpr context.names wide choice.2) :
    FailsOnly (Refusal.IsExpected wide) (chosen context width last choices) := by
  induction choices with
  | nil => exact given_failsOnly context known inLast
  | cons first rest ih =>
    obtain ⟨⟨value, condition⟩, others⟩ := List.forall_mem_cons.mp each
    rw [chosen]
    refine .bind (given_failsOnly context nofun condition) fun test => ?_
    refine .bind (given_failsOnly context known value) fun yes => ?_
    exact .bind (ih others) fun no => .ok

theorem continuous_failsOnly (inTarget : WritableTarget context.names wide source) (each : ∀ choice ∈ choices,
      WritableExpr context.names wide choice.1 ∧ WritableExpr context.names wide choice.2)
    (inLast : WritableExpr context.names wide last) :
    FailsOnly (Refusal.IsExpected wide) (continuous context source choices last) := by
  unfold continuous
  refine .bind (chosen_failsOnly context inTarget.1 inLast each) fun value => ?_
  exact .bind (target_failsOnly (inTarget.2.mono fun _ => plain_failsOnly context nofun)) fun place => .ok

theorem leading_failsOnly (writable : WritableConcurrent context.names wide statement.source)
    (classified : statement.IsClassified context.names.constants) :
    FailsOnly (Refusal.IsExpected wide) (leading context statement).result := by
  have orPlaceholder {line : Nat} {item : Except Refusal Verilog.Item}
      (written : FailsOnly (Refusal.IsExpected wide) item) :
      FailsOnly (Refusal.IsExpected wide) (orPlaceholder context line item).result :=
    .tryCatch written fun refusal expected => .bindResult (refused_failsOnly line expected) fun placeholder => .ok
  cases statement with
  | process block kind => exact always_failsOnly context writable (classified.all writable)
  | assign assignment => exact orPlaceholder (continuous_failsOnly context writable.1 (by simp) writable.2)
  | conditional assignment => exact orPlaceholder (continuous_failsOnly context writable.1 writable.2.1 writable.2.2)
  | captured statement => exact .ok

theorem groups_failsOnly (writable : WritableArchitecture context.names wide architecture)
    (each : ∀ stmt ∈ context.resolved.statements,
      WritableConcurrent context.names wide stmt.source ∧ stmt.IsClassified context.names.constants) :
    FailsOnly (Refusal.IsExpected wide) (groups context architecture).result := by
  unfold groups
  refine .bindResult (.mapM fun decl member => ?_) fun constants => ?_
  · obtain ⟨known, inValue⟩ := writable.constants decl member
    exact constant_failsOnly context known inValue
  refine .bindResult (.mapM fun decl member => ?_) fun objects => ?_
  · rcases List.mem_append.mp member with isSignal | isVar
    · obtain ⟨known, inInit⟩ := writable.signals decl isSignal
      exact object_failsOnly context known inInit
    · obtain ⟨block, isProcess, isVar⟩ := List.mem_flatMap.mp isVar
      obtain ⟨known, inInit⟩ := writable.vars block isProcess decl isVar
      exact object_failsOnly context known inInit
  refine .bindResult ?_ fun groups => .ok
  rw [result_statementGroups]
  exact .bind (.mapM fun statement member => leading_failsOnly context (each statement member).1 (each statement member).2)
    fun items => .ok

end Items

theorem moduleOf_failsOnly (profile : Profile) (sound : design.IsSound) (resolves : Vhdl.Resolves design resolved) :
    FailsOnly (Refusal.IsExpected design.HasWidth) (moduleOf profile resolved).result := by
  obtain ⟨rfl, sameNames, _⟩ := id resolves
  unfold moduleOf
  cases is : resolved.design.architecture with
  | none => exact .bindResult .ok fun groups => .bindResult .ok fun _ => .ok
  | some architecture =>
    have writable := writableArchitecture_of_isSound sound is
    rw [← sameNames] at writable
    refine .bindResult ?_ fun groups => .bindResult .ok fun _ => .ok
    refine groups_failsOnly (Context.of profile resolved) writable fun stmt member => ?_
    obtain ⟨inDesign, classified⟩ := resolves.classified member
    rw [Vhdl.DesignUnit.statements, is] at inDesign
    exact ⟨writable.statements _ inDesign, classified⟩

end RtlBridge.Emission

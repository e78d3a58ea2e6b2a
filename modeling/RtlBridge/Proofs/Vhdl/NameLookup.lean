import RtlBridge.Proofs.Vhdl.Shape
import RtlBridge.Vhdl.Resolution

/-! Checks look names up and nothing else: tables that know the same about every name lead to the same findings,
in whatever order they have the names. -/

namespace RtlBridge.Vhdl

def NameTable.Agrees (first second : NameTable) : Prop := ∀ name, first.find? name = second.find? name

section

variable {first second : NameTable} (same : first.Agrees second)

include same

theorem NameTable.role?_congr (name : String) : first.role? name = second.role? name := by rw [role?, role?, same]

theorem NameTable.type?_congr (name : String) : first.type? name = second.type? name := by rw [type?, type?, same]

/-! ### Expressions -/

theorem Expr.width?_congr (expr : Expr) : expr.width? first = expr.width? second := by
  induction expr using Expr.induction with
  | name spelling line => rw [width?, width?, NameTable.type?_congr same]
  | binary op lhs rhs line left right => rw [width?, width?, left, right]
  | unary op operand line ih => exact ih
  | call function arguments line ih =>
    cases arguments with
    | nil => rw [width?, width?]
    | cons argument rest =>
      rw [width?.eq_def, width?.eq_def second]
      simp only [ih argument (List.mem_cons_self ..)]
  | concat parts line ih =>
    rw [width?, width?]
    induction parts with
    | nil => rfl
    | cons part rest later =>
      obtain ⟨here, others⟩ := List.forall_mem_cons.mp ih
      rw [width?.sumWidths, width?.sumWidths, here, later others]
  | literal | aggregate | index | slice | tick => rfl

theorem Expr.aggregateBeside_congr (expr neighbour : Expr) :
    expr.aggregateBeside first neighbour = expr.aggregateBeside second neighbour := by
  rw [aggregateBeside.eq_def, aggregateBeside.eq_def, width?_congr same]

theorem Expr.operandAggregates_congr (expr : Expr) : expr.operandAggregates first = expr.operandAggregates second := by
  induction expr using Expr.induction with
  | binary op lhs rhs line left right => simp only [operandAggregates, aggregateBeside_congr same, left, right]
  | unary op operand line ih => exact ih
  | name | literal | call | aggregate | concat | index | slice | tick => rfl

theorem Expr.valueAggregates_congr (targetWidth : Option Int) (value : Expr) :
    value.valueAggregates first targetWidth = value.valueAggregates second targetWidth := by
  simp only [valueAggregates, operandAggregates_congr same]

theorem Expr.choiceKey?_congr (choice : Expr) : choice.choiceKey? first = choice.choiceKey? second := by
  cases choice with
  | name spelling line => rw [choiceKey?, choiceKey?, NameTable.role?_congr same]
  | literal | binary | unary | call | aggregate | concat | index | slice | tick => rfl

theorem areExclusive_congr (choices : List Expr) : areExclusive first choices = areExclusive second choices := by
  simp only [areExclusive, Expr.choiceKey?_congr same]

/-! ### Values -/

theorem Target.width?_congr (target : Target) : target.width? first = target.width? second :=
  Expr.width?_congr same target.toExpr

theorem checkGiven_congr (giver : Giver) (target : String) (targetWidth : Option Int) (line : Nat)
    (given : List (Expr × Option Expr)) :
    checkGiven first giver target targetWidth line given = checkGiven second giver target targetWidth line given := by
  have operands : Expr.operandAggregates first = Expr.operandAggregates second :=
    funext (Expr.operandAggregates_congr same)
  simp only [checkGiven, widthMismatch?, Expr.width?_congr same, Expr.valueAggregates_congr same, operands]

theorem checkInitial_congr (giver : Giver) (name : String) (init : Option Expr) (line : Nat) :
    checkInitial first giver name init line = checkInitial second giver name init line := by
  simp only [checkInitial, checkGiven_congr same, NameTable.type?_congr same]

/-! ### Statements -/

omit same in
theorem checkBody_congr {body : List Stmt} (each : ∀ stmt ∈ body, stmt.check first = stmt.check second) :
    checkBody first body = checkBody second body := by
  induction body with
  | nil => rw [checkBody, checkBody]
  | cons stmt rest ih =>
    obtain ⟨here, others⟩ := List.forall_mem_cons.mp each
    rw [checkBody, checkBody, here, ih others]

theorem Stmt.check_congr (stmt : Stmt) : stmt.check first = stmt.check second := by
  induction stmt using Stmt.induction with
  | assign target value immediate line => rw [check, check, Target.width?_congr same, checkGiven_congr same]
  | conditional branches otherwise line inBranches inOtherwise =>
    have branchesSame : checkBranches first branches = checkBranches second branches := by
      induction branches with
      | nil => rw [checkBranches, checkBranches]
      | cons branch rest ih =>
        obtain ⟨here, others⟩ := List.forall_mem_cons.mp inBranches
        rw [checkBranches, checkBranches, Expr.operandAggregates_congr same, checkBody_congr here, ih others]
    rw [check, check, branchesSame, checkBody_congr inOtherwise]
  | selection selector arms default line inArms inDefault =>
    have armsSame : checkArms first arms = checkArms second arms := by
      induction arms with
      | nil => rw [checkArms, checkArms]
      | cons arm rest ih =>
        obtain ⟨here, others⟩ := List.forall_mem_cons.mp inArms
        rw [checkArms, checkArms, checkBody_congr here, ih others]
    have defaultSame : checkDefault first default = checkDefault second default := by
      cases default with
      | none => rw [checkDefault, checkDefault]
      | some body => rw [checkDefault, checkDefault, checkBody_congr (inDefault body rfl)]
    rw [check, check, areExclusive_congr same, armsSame, defaultSame]
  | captured statement => rw [check, check]

theorem checkSensitivity_congr (block : ProcessBlock DataType) (kind : ProcessKind) :
    checkSensitivity first block kind = checkSensitivity second block kind := by
  simp only [checkSensitivity, NameTable.role?_congr same]

theorem ResolvedStmt.check_congr (stmt : ResolvedStmt) : stmt.check first = stmt.check second := by
  cases stmt with
  | process block kind =>
    simp only [check, checkInitial_congr same, checkSensitivity_congr same,
      checkBody_congr fun stmt _ => stmt.check_congr same]
  | assign assignment | conditional assignment => simp only [check, Target.width?_congr same, checkGiven_congr same]
  | captured statement => rfl

end

end RtlBridge.Vhdl

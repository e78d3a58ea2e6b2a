import RtlBridge.Proofs.Conversion
import RtlBridge.Proofs.Vhdl.DriverConflicts
import RtlBridge.Proofs.Vhdl.Execution

/-! What the names that a body reads and writes tell about its runs. A body changes only names that it writes, and
stores that agree on the names that it reads lead to the same writes in the same order. A sensitivity list that
nothing is found against has the ports and signals that are read, and no others. -/

namespace RtlBridge

open List

def Store.AgreeOn (names : List String) (first second : Store) : Prop := ∀ name ∈ names, first name = second name

theorem Store.AgreeOn.mono (agree : AgreeOn names first second) (inside : others ⊆ names) : AgreeOn others first second :=
  fun name member => agree name (inside member)

theorem Store.agreeOn_append :
    AgreeOn (names ++ others) first second ↔ AgreeOn names first second ∧ AgreeOn others first second :=
  forall_mem_append

theorem Store.AgreeOn.after (agree : AgreeOn names first second) (writes : List Write)
    : AgreeOn names (first.after writes) (second.after writes) := by
  induction writes generalizing first second with
  | nil => exact agree
  | cons write rest ih =>
    apply ih
    intro name member
    dsimp only
    split
    · simp only [Change.apply, agree name member]
    · exact agree name member

namespace Vhdl

/-! ### Read names -/

theorem Expr.readsAll_eq_flatMap : ∀ list, Expr.reads.readsAll list = list.flatMap Expr.reads :=
  eq_flatMap rfl fun _ _ => rfl

def Expr.ownReads : Expr → List String
  | .name spelling _ => [spelling]
  | _ => []

theorem Expr.reads_eq_append (expr : Expr) : expr.reads = expr.ownReads ++ expr.children.flatMap reads := by
  cases expr <;> simp [reads, ownReads, children, readsAll_eq_flatMap]

theorem Store.AgreeOn.of_readsAll (agree : Store.AgreeOn (Expr.reads.readsAll list) first second) (member : expr ∈ list) :
    Store.AgreeOn expr.reads first second := by
  rw [Expr.readsAll_eq_flatMap] at agree
  exact agree.mono fun name inExpr => mem_flatMap.mpr ⟨expr, member, inExpr⟩

section Reads

variable {names : NameTable} {first second : Store}

theorem Expr.number_congr (expr : Expr) (place : Option Int) (agree : Store.AgreeOn expr.reads first second) :
    expr.number names first place = expr.number names second place := by
  have bits {base : Expr} (agree : Store.AgreeOn base.reads first second) (last : Int) (count : Nat) :
      number.bitsFrom names first base last count = number.bitsFrom names second base last count := by
    cases base with
    | name spelling line => simp only [number.bitsFrom, agree spelling (mem_singleton_self spelling)]
    | _ => rfl
  induction expr using Expr.induction generalizing place with
  | name spelling line => rw [number, number, agree spelling (mem_singleton_self spelling)]
  | literal value line => rfl
  | binary op lhs rhs line inLeft inRight =>
    obtain ⟨onLeft, onRight⟩ := Store.agreeOn_append.mp agree
    simp only [number, inLeft _ onLeft, inRight _ onRight]
  | unary op operand line inOperand => simp only [number, inOperand none agree]
  | call function arguments line inArguments =>
    have each : ∀ argument ∈ arguments, ∀ place,
        argument.number names first place = argument.number names second place :=
      fun argument member place => inArguments argument member place (Store.AgreeOn.of_readsAll agree member)
    rw [number.eq_def, number.eq_def names second]
    dsimp only
    generalize Builtin.shift? function = shift
    split <;> simp only [each, mem_cons, true_or, or_true]
  | aggregate fill site line inFill => simp only [number, inFill none agree]
  | concat parts line inParts =>
    rw [number, number]
    induction parts with
    | nil => rfl
    | cons part rest later =>
      obtain ⟨here, others⟩ := forall_mem_cons.mp inParts
      obtain ⟨onPart, onRest⟩ := Store.agreeOn_append.mp agree
      rw [number.joined, number.joined, here none onPart, later others onRest]
  | index base subscript line inBase inSubscript =>
    obtain ⟨onBase, onSubscript⟩ := Store.agreeOn_append.mp agree
    rw [number, number, bits onBase, inSubscript none onSubscript]
  | slice base left right line inBase inLeft inRight =>
    obtain ⟨onLeft, onRight⟩ := Store.agreeOn_append.mp agree
    obtain ⟨onBase, onLeft⟩ := Store.agreeOn_append.mp onLeft
    rw [number, number, bits onBase, inLeft none onLeft, inRight none onRight]
  | tick base property line inBase => rw [number, number]

theorem Target.change_congr (target : Target) (value : Expr) (onTarget : Store.AgreeOn target.reads first second)
    (onValue : Store.AgreeOn value.reads first second) :
    target.change names first value = target.change names second value := by
  have samePlace : target.place names first = target.place names second := by
    obtain ⟨name, part, line⟩ := target
    cases part with
    | whole => rfl
    | element subscript => simp only [place, subscript.number_congr none onTarget]
    | range left right =>
      obtain ⟨onLeft, onRight⟩ := Store.agreeOn_append.mp onTarget
      simp only [place, left.number_congr none onLeft, right.number_congr none onRight]
  rw [change, change, samePlace, value.number_congr _ onValue]

theorem Expr.edgeTest?_of_edges {condition : Expr} (noEdge : condition.edges = 0) : condition.edgeTest? = none := by
  have counted {test : EdgeTest} (isEdge : condition.IsEdgeTest test) : condition.edges ≠ 0 := by
    induction isEdge with
    | predicate clock nameLine others line isEdge => simp [edges, isEdge]
    | rising nameLine tickLine line isHigh => simp [edges]
    | falling nameLine tickLine line isLow => simp [edges]
    | flip isEdge ih =>
      simp only [edges] at noEdge ih ⊢
      omega
  cases found : condition.edgeTest? with
  | none => rfl
  | some test => exact absurd noEdge (counted (edgeTest?_iff_isEdgeTest.mp found))

theorem Expr.holds_congr {condition : Expr} (noEdge : condition.edges = 0)
    (agree : Store.AgreeOn condition.reads first second) :
    condition.holds names fires first = condition.holds names others second := by
  simp only [holds, edgeTest?_of_edges noEdge, isTrue, condition.number_congr none agree]

theorem Expr.selects_congr {selector : Expr} (onSelector : Store.AgreeOn selector.reads first second)
    (onChoices : ∀ choice ∈ choices, Store.AgreeOn choice.reads first second) :
    selector.selects names first choices = selector.selects names second choices := by
  rw [selects, selects, selector.number_congr none onSelector]
  rw [Bool.eq_iff_iff, any_eq_true, any_eq_true]
  refine exists_congr fun choice => and_congr_right fun member => ?_
  rw [choice.number_congr _ (onChoices choice member)]

end Reads

def Part.subscripts : Part → List Expr
  | .whole => []
  | .element subscript => [subscript]
  | .range left right => [left, right]

/-- The expressions that a statement reads itself: values, subscripts of targets, conditions, selectors and
choices. -/
def Stmt.operands : Stmt → List Expr
  | .assign target value _ _ => target.part.subscripts ++ [value]
  | .conditional branches _ _ => branches.map Prod.fst
  | .selection selector arms _ _ => selector :: arms.flatMap Prod.fst
  | .captured _ => []

theorem Target.reads_eq_flatMap (target : Target) : target.reads = target.part.subscripts.flatMap Expr.reads := by
  obtain ⟨name, part, line⟩ := target
  cases part <;> simp [reads, Part.subscripts]

theorem bodyReads_eq_flatMap : ∀ body, bodyReads body = body.flatMap Stmt.reads := eq_flatMap rfl fun _ _ => rfl

theorem branchReads_eq_flatMap : ∀ branches,
    branchReads branches = branches.flatMap fun branch => branch.1.reads ++ bodyReads branch.2 :=
  eq_flatMap rfl fun _ _ => rfl

theorem armReads_eq_flatMap : ∀ arms,
    armReads arms = arms.flatMap fun arm => arm.1.flatMap Expr.reads ++ bodyReads arm.2 :=
  eq_flatMap rfl fun _ _ => by rw [armReads, Expr.readsAll_eq_flatMap]

theorem Stmt.mem_reads {stmt : Stmt} :
    name ∈ stmt.reads ↔ name ∈ stmt.operands.flatMap Expr.reads ∨ name ∈ stmt.children.flatMap reads := by
  cases stmt with
  | assign target value immediate line => simp [reads, operands, children, Target.reads_eq_flatMap]
  | conditional branches otherwise line =>
    simp only [reads, operands, children, branchReads_eq_flatMap, bodyReads_eq_flatMap, flatMap_append,
      flatMap_assoc, flatMap_map, mem_append, mem_flatMap_append, or_assoc]
  | selection selector arms default line =>
    cases default <;> simp only [reads, operands, children, armReads_eq_flatMap, bodyReads_eq_flatMap, defaultReads,
      Option.getD, flatMap_append, flatMap_assoc, flatMap_cons, flatMap_nil, mem_append,
      mem_flatMap_append, or_assoc]
  | captured statement => simp [reads, operands, children]

section Runs

variable {names : NameTable} {fires others : EdgeTest → Bool}

theorem bodyTrace_of_each (each : ∀ inner ∈ body, ∀ {first second}, Store.AgreeOn inner.reads first second →
      inner.trace names fires first = inner.trace names others second)
    (agree : Store.AgreeOn (body.flatMap Stmt.reads) first second) :
    bodyTrace names fires body first = bodyTrace names others body second := by
  induction body generalizing first second with
  | nil => rfl
  | cons stmt rest ih =>
    obtain ⟨here, later⟩ := forall_mem_cons.mp each
    obtain ⟨onStmt, onRest⟩ := Store.agreeOn_append.mp agree
    -- What the statement writes at once is the same in both stores, so they still agree where the rest reads.
    rw [bodyTrace, bodyTrace, here onStmt, ih later (onRest.after _)]

theorem Stmt.ownWrites_congr {stmt : Stmt} (agree : Store.AgreeOn stmt.reads first second) :
    stmt.ownWrites names first = stmt.ownWrites names second := by
  cases stmt with
  | assign target value immediate line =>
    obtain ⟨onTarget, onValue⟩ := Store.agreeOn_append.mp agree
    rw [ownWrites, ownWrites, target.change_congr value onTarget onValue]
  | _ => rfl

theorem Stmt.taken_congr {stmt : Stmt} (noEdge : ∀ node ∈ stmt.nodes, ¬ node.asksEdge = true)
    (agree : Store.AgreeOn stmt.reads first second) : stmt.taken names fires first = stmt.taken names others second := by
  have onOperand {operand : Expr} (isOperand : operand ∈ stmt.operands) : Store.AgreeOn operand.reads first second :=
    agree.mono fun name isRead => mem_reads.mpr (.inl (mem_flatMap.mpr ⟨operand, isOperand, isRead⟩))
  cases stmt with
  | conditional branches otherwise line =>
    rw [taken, taken, find?_congr]
    intro branch member
    refine Expr.holds_congr ?_ (onOperand (mem_map_of_mem member))
    rw [Expr.edges_eq_countP, countP_eq_zero]
    exact fun node inCondition => noEdge node (mem_nodes.mpr (.inl (mem_flatMap.mpr ⟨branch, member, inCondition⟩)))
  | selection selector arms default line =>
    rw [taken, taken, find?_congr]
    intro arm member
    refine Expr.selects_congr (onOperand (mem_cons_self ..)) fun choice isChoice => ?_
    exact onOperand (mem_cons_of_mem _ (mem_flatMap.mpr ⟨arm, member, isChoice⟩))
  | _ => rfl

theorem Stmt.trace_congr {stmt : Stmt} (noEdge : ∀ node ∈ stmt.nodes, ¬ node.asksEdge = true)
    (agree : Store.AgreeOn stmt.reads first second) : stmt.trace names fires first = stmt.trace names others second := by
  induction stmt using Stmt.childInduction generalizing first second with
  | step stmt ih =>
    have inside : Store.AgreeOn ((stmt.taken names others second).flatMap reads) first second := by
      refine agree.mono fun name isRead => ?_
      obtain ⟨inner, isTaken, inInner⟩ := mem_flatMap.mp isRead
      exact mem_reads.mpr (.inr (mem_flatMap.mpr ⟨inner, stmt.taken_subset _ isTaken, inInner⟩))
    rw [trace_eq, trace_eq, ownWrites_congr agree, taken_congr noEdge agree, bodyTrace_of_each _ (inside.after _)]
    intro inner isTaken first second
    have isChild := stmt.taken_subset _ isTaken
    refine ih inner isChild fun node inInner => noEdge node (mem_nodes.mpr (.inr ?_))
    exact mem_flatMap.mpr ⟨inner, isChild, inInner⟩

theorem bodyTrace_congr (noEdges : bodyEdges body = 0) (agree : Store.AgreeOn (bodyReads body) first second) :
    bodyTrace names fires body first = bodyTrace names others body second := by
  rw [bodyEdges_eq_countP, bodyNodes_eq_flatMap, countP_eq_zero, forall_mem_flatMap] at noEdges
  rw [bodyReads_eq_flatMap] at agree
  exact bodyTrace_of_each (fun inner member _ _ => Stmt.trace_congr (noEdges inner member)) agree

end Runs

/-! ### Read positions -/

/-- Whether a name stands somewhere in a statement where it is read. -/
def Stmt.ReadsAt (name : String) (stmt : Stmt) : Prop :=
  ∃ inner ∈ stmt.stmts, ∃ operand ∈ inner.operands, ∃ line, .name name line ∈ operand.nodes

section Positions

variable {name : String}

theorem Expr.name_mem_nodes {expr : Expr} (read : name ∈ expr.reads) : ∃ line, .name name line ∈ expr.nodes := by
  induction expr using childInduction with
  | step expr ih =>
    rw [reads_eq_append] at read
    obtain own | inside := mem_append.mp read
    · cases expr with
      | name spelling line =>
        cases mem_singleton.mp own
        exact ⟨line, mem_nodes_self _⟩
      | _ => cases own
    · obtain ⟨child, isChild, inChild⟩ := mem_flatMap.mp inside
      obtain ⟨line, isNode⟩ := ih child isChild inChild
      exact ⟨line, mem_nodes.mpr (.inr ⟨child, isChild, isNode⟩)⟩

theorem Stmt.readsAt_of_mem (stmt : Stmt) (read : name ∈ stmt.reads) : stmt.ReadsAt name := by
  induction stmt using Stmt.childInduction with
  | step stmt ih =>
    obtain own | inside := mem_reads.mp read
    · obtain ⟨operand, isOperand, inOperand⟩ := mem_flatMap.mp own
      exact ⟨stmt, stmt.mem_stmts_self, operand, isOperand, Expr.name_mem_nodes inOperand⟩
    · obtain ⟨child, isChild, inChild⟩ := mem_flatMap.mp inside
      obtain ⟨inner, isInner, found⟩ := ih child isChild inChild
      exact ⟨inner, mem_stmts.mpr (.inr ⟨child, isChild, isInner⟩), found⟩

theorem Stmt.IsScoped.declares {stmt : Stmt} (isScoped : stmt.IsScoped visible) (reads : stmt.ReadsAt name)
    : ∃ info, (name, info) ∈ visible := by
  obtain ⟨inner, isInner, operand, isOperand, line, isNode⟩ := reads
  have node := (stmt.all_iff_forall_stmts.mp isScoped) inner isInner
  have operandScoped : operand.IsScoped visible := by
    cases inner with
    | assign target value immediate line =>
      obtain ⟨⟨_, inPart⟩, inValue⟩ := node
      obtain isSubscript | isValue := mem_append.mp isOperand
      · cases is : target.part with
        | whole =>
          rw [is] at isSubscript
          cases isSubscript
        | element subscript =>
          rw [is] at isSubscript inPart
          cases mem_singleton.mp isSubscript
          exact inPart
        | range left right =>
          rw [is] at isSubscript inPart
          obtain rfl | isRight := mem_cons.mp isSubscript
          · exact inPart.1
          · cases mem_singleton.mp isRight
            exact inPart.2
      · cases mem_singleton.mp isValue
        exact inValue
    | conditional branches otherwise line =>
      obtain ⟨branch, isBranch, rfl⟩ := mem_map.mp isOperand
      exact node branch isBranch
    | selection selector arms default line =>
      obtain rfl | isChoice := mem_cons.mp isOperand
      · exact node.1
      · obtain ⟨arm, isArm, inArm⟩ := mem_flatMap.mp isChoice
        exact node.2 arm isArm operand inArm
    | captured statement => cases isOperand
  exact (operandScoped.of_mem_nodes isNode).self

end Positions

/-! ### Sensitivity lists -/

theorem mem_listed_of_checkSensitivity {names : NameTable} (isListed : block.sensitivity = .listed listed)
    (fits : checkSensitivity names block .combinational = []) (name : String) :
    name ∈ listed ↔ name ∈ bodyReads block.body ∧ (names.role? name = some .port ∨ names.role? name = some .signal) := by
  simp only [checkSensitivity, isListed] at fits
  split at fits
  · rename_i none
    obtain ⟨noneMissing, noneExtra⟩ := Bool.and_eq_true_iff.mp none
    rw [List.isEmpty_iff, List.filter_eq_nil_iff] at noneMissing noneExtra
    simp only [mem_filter, mem_eraseDups, Bool.or_eq_true, decide_eq_true_eq, Bool.not_eq_true,
      Bool.not_eq_false', contains_iff_mem] at noneMissing noneExtra
    exact ⟨noneExtra name, noneMissing name⟩
  · cases fits

theorem sensitivity_reported (ok : (resolve design strict).result = .ok resolved)
    (isProcess : .process block kind ∈ resolved.statements) :
    checkSensitivity resolved.names block kind ⊆ resolved.diagnostics := by
  obtain ⟨none, _⟩ | ⟨body, checked, _, each, found⟩ := findings_of_resolve ok
  · rw [none] at isProcess
    cases isProcess
  · obtain ⟨findings, isFindings, isFound⟩ := result_of_mem each isProcess
    cases isFound
    intro diagnostic member
    rw [Resolved.diagnostics, found]
    apply mem_append_right
    rw [Findings.view_concat Findings.diagnostics rfl fun _ _ => rfl]
    exact mem_flatMap.mpr ⟨_, isFindings, mem_append_right _ member⟩

theorem ResolvedFrom.reads_subset (origin : ResolvedFrom parsed resolved)
    (isProcess : .process block .combinational ∈ resolved.statements) (isListed : block.sensitivity = .listed listed)
    (fits : checkSensitivity resolved.names block .combinational = []) :
    bodyReads block.body ⊆ listed ++ resolved.names.constants ++ block.vars.map (·.name) := by
  intro name read
  have inDesign := (origin.resolves.classified isProcess).1
  have blockScoped := origin.isScoped.statements _ inDesign
  have isRead := read
  rw [bodyReads_eq_flatMap] at isRead
  obtain ⟨stmt, inBody, inStmt⟩ := mem_flatMap.mp isRead
  obtain ⟨info, declared⟩ := (blockScoped.body stmt inBody).declares (stmt.readsAt_of_mem inStmt)
  have found := origin.find?_names (Design.visible_subset inDesign declared)
  have role : resolved.names.role? name = some info.role := by rw [NameTable.role?, found, Option.map_some]
  have constant (isConstant : info.role = .constant ∨ info.role = .enumLiteral) : name ∈ resolved.names.constants := by
    refine mem_filterMap.mpr ⟨(name, info), Scope.mem_of_lookup_eq_some found, ?_⟩
    simp [isConstant]
  have listedIf (isSignal : info.role = .port ∨ info.role = .signal) : name ∈ listed := by
    rw [mem_listed_of_checkSensitivity isListed fits, role, Option.some.injEq, Option.some.injEq]
    exact ⟨read, isSignal⟩
  simp only [mem_append]
  cases is : info.role with
  | port => exact .inl (.inl (listedIf (.inl is)))
  | signal => exact .inl (.inl (listedIf (.inr is)))
  | constant => exact .inl (.inr (constant (.inl is)))
  | enumLiteral => exact .inl (.inr (constant (.inr is)))
  | var =>
    obtain isGlobal | isLocal := mem_append.mp declared
    · exact absurd is (role_of_mem_globals isGlobal)
    · obtain ⟨decl, isDecl, same⟩ := mem_map.mp isLocal
      cases same
      exact .inr (mem_map_of_mem isDecl)

theorem noEdges_of_combinational (hasKind : HasKind constants sensitivity body .combinational) : bodyEdges body = 0 := by
  cases hasKind with
  | combinational free =>
    rw [bodyEdges_eq_countP, countP_eq_zero]
    intro node member asks
    rw [free node member] at asks
    cases asks

/-- What the names that a body reads and writes tell about its runs: its writes are to the latter, nothing else
changes, and the former decide all its writes if it tests no edges. -/
structure AccessesSoundly (names : NameTable) (body : List Stmt) : Prop where
  makes : ∀ fires store, execBody names fires body (.start store) =
    (Activity.start store).makeAll (bodyTrace names fires body store)
  writes : ∀ fires store, ∀ write ∈ bodyTrace names fires body store,
    write.change.name ∈ (bodyWrites false body).map Prod.fst
  keeps : ∀ fires store name, name ∉ (bodyWrites false body).map Prod.fst →
    (execBody names fires body (.start store)).settle name = store name
  reads : bodyEdges body = 0 → ∀ fires others first second, Store.AgreeOn (bodyReads body) first second →
    bodyTrace names fires body first = bodyTrace names others body second

theorem accessesSoundly (names : NameTable) (body : List Stmt) : AccessesSoundly names body where
  makes _ store := execBody_eq_makeAll body (.start store)
  writes _ _ _ := bodyTrace_written
  keeps _ store _ unwritten := settle_execBody_of_unwritten unwritten (.start store)
  reads noEdges _ _ _ _ agree := bodyTrace_congr noEdges agree

/-- The names that bodies read and write tell what their runs depend on and change. So a combinational process whose
sensitivity list nothing is found against makes the same writes from all stores that agree on the listed names, on the
constants and on its own variables, and it reads all that is listed. -/
theorem accesses_decide_runs {source : List Char} {strict : Bool} {resolved : Resolved}
    (loaded : (load source strict).result = .ok resolved) :
    (∀ names body, AccessesSoundly names body) ∧
    ∀ block listed, .process block .combinational ∈ resolved.statements → block.sensitivity = .listed listed →
      (∀ missing extra, ⟨.mixedSensitivity block.shownName missing extra, block.line⟩ ∉ resolved.diagnostics) →
      (∀ fires others first second,
        Store.AgreeOn (listed ++ resolved.names.constants ++ block.vars.map (·.name)) first second →
        bodyTrace resolved.names fires block.body first = bodyTrace resolved.names others block.body second) ∧
      ∀ name ∈ listed, ∃ stmt ∈ block.body, stmt.ReadsAt name := by
  obtain ⟨parsed, _, origin⟩ := resolvedFrom_of_load loaded
  refine ⟨accessesSoundly, fun block listed isProcess isListed unreported => ?_⟩
  have fits : checkSensitivity resolved.names block .combinational = [] := by
    obtain ⟨_, isResolved⟩ := origin.isResolved
    have reported := sensitivity_reported isResolved isProcess
    simp only [checkSensitivity, isListed] at reported ⊢
    split at reported
    · rename_i none
      rw [if_pos none]
    · exact absurd (reported (mem_singleton_self _)) (unreported _ _)
  refine ⟨fun fires others first second agree => ?_, fun name member => ?_⟩
  · apply (accessesSoundly resolved.names block.body).reads
    · exact noEdges_of_combinational (origin.resolves.classified isProcess).2
    · exact agree.mono (origin.reads_subset isProcess isListed fits)
  · have read := ((mem_listed_of_checkSensitivity isListed fits name).mp member).1
    rw [bodyReads_eq_flatMap] at read
    obtain ⟨stmt, inBody, inStmt⟩ := mem_flatMap.mp read
    exact ⟨stmt, inBody, stmt.readsAt_of_mem inStmt⟩

def ResolvedStmt.combinational? : ResolvedStmt → Option (ProcessBlock DataType)
  | .process block .combinational => some block
  | _ => none

theorem ResolvedStmt.eq_of_combinational? {statement : ResolvedStmt} (is : statement.combinational? = some block)
    : statement = .process block .combinational := by
  unfold combinational? at is
  split at is
  · cases is
    rfl
  · cases is

/-- A process that reads a variable after it writes it, and writes one element of a vector in one of its branches. -/
def sampleVariable : List Char :=
  ("entity e is port (a : in bit; y : out bit_vector(1 downto 0)); end; architecture r of e is begin " ++
    "process (a) variable n : bit; begin n := not a; if n = '0' then y(1) <= n; end if; end process; end;").toList

theorem runs_of_sampleVariable : ∃ resolved block, (load sampleVariable false).result = .ok resolved ∧
    .process block .combinational ∈ resolved.statements ∧ block.sensitivity = .listed ["a"] ∧
    resolved.diagnostics = [] ∧
    bodyTrace resolved.names (fun _ => false) block.body (fun _ => 1) =
      [⟨true, ⟨"n", 0, 1, 0⟩⟩, ⟨false, ⟨"y", 1, 1, 0⟩⟩] ∧
    (∀ fires others first second,
      Store.AgreeOn (["a"] ++ resolved.names.constants ++ block.vars.map (·.name)) first second →
        bodyTrace resolved.names fires block.body first = bodyTrace resolved.names others block.body second) ∧
    ∀ name ∈ ["a"], ∃ stmt ∈ block.body, stmt.ReadsAt name := by
  have isLoaded : ∃ resolved, (load sampleVariable false).result = .ok resolved ∧ resolved.diagnostics = [] ∧
      ∃ statement ∈ resolved.statements, ∃ block ∈ statement.combinational?, block.sensitivity = .listed ["a"] ∧
        bodyTrace resolved.names (fun _ => false) block.body (fun _ => 1) =
          [⟨true, ⟨"n", 0, 1, 0⟩⟩, ⟨false, ⟨"y", 1, 1, 0⟩⟩] := by decide +kernel
  obtain ⟨resolved, loaded, noFindings, statement, member, block, isBlock, isListed, isTrace⟩ := isLoaded
  have member : .process block .combinational ∈ resolved.statements :=
    ResolvedStmt.eq_of_combinational? isBlock ▸ member
  have unreported : ∀ missing extra, ⟨.mixedSensitivity block.shownName missing extra, block.line⟩ ∉
      resolved.diagnostics := by
    rw [noFindings]
    exact fun _ _ => not_mem_nil
  obtain ⟨alike, read⟩ := (accesses_decide_runs loaded).2 block _ member isListed unreported
  exact ⟨resolved, block, loaded, member, isListed, noFindings, isTrace, alike, read⟩

end Vhdl

end RtlBridge

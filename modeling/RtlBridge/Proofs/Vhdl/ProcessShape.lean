import RtlBridge.Proofs.Vhdl.Nodes
import RtlBridge.Vhdl.Clocking

/-! The kinds of processes. A process with one edge test is clocked if it has one of two shapes, and a
process without any is combinational; no other process has a kind. -/

namespace RtlBridge.Vhdl

open List

/-! ### Edge tests -/

def Expr.asksEdge : Expr → Bool
  | .call function _ _ => (Builtin.edge? function).isSome
  | .tick _ property _ => property = "event"
  | _ => false

theorem Expr.edgesAll_eq_countP (each : ∀ expr ∈ list, expr.edges = expr.nodes.countP Expr.asksEdge) :
    Expr.edges.edgesAll list = (Expr.nodes.nodesAll list).countP Expr.asksEdge := by
  induction list with
  | nil => rfl
  | cons first rest ih =>
    rw [edges.edgesAll, nodes.nodesAll, countP_append, each first (mem_cons_self ..),
      ih fun expr member => each expr (mem_cons_of_mem first member)]

theorem Expr.edges_eq_countP (expr : Expr) : expr.edges = expr.nodes.countP Expr.asksEdge := by
  induction expr using Expr.induction with
  | call function arguments line inArguments =>
    rw [edges, nodes, countP_cons, edgesAll_eq_countP inArguments, Nat.add_comm]
    rfl
  | concat parts line inParts =>
    rw [edges, nodes, countP_cons, edgesAll_eq_countP inParts]
    rfl
  | tick base property line inBase =>
    simp only [edges, nodes, countP_cons, asksEdge, inBase, decide_eq_true_eq]
    omega
  | _ => simp_all [edges, nodes, countP_append, asksEdge, Nat.add_assoc]

section

variable {body : List Stmt} {branches : List (Expr × List Stmt)} {arms : List (List Expr × List Stmt)}

theorem bodyEdges_of_each (each : ∀ inner ∈ body, inner.edges = inner.nodes.countP Expr.asksEdge) :
    bodyEdges body = (bodyNodes body).countP Expr.asksEdge := by
  induction body with
  | nil => simp [bodyEdges, bodyNodes]
  | cons first rest ih =>
    rw [bodyEdges, bodyNodes, countP_append, each first (mem_cons_self ..),
      ih fun inner member => each inner (mem_cons_of_mem first member)]

theorem branchEdges_of_each
    (each : ∀ branch ∈ branches, bodyEdges branch.2 = (bodyNodes branch.2).countP Expr.asksEdge) :
    branchEdges branches = (branchNodes branches).countP Expr.asksEdge := by
  induction branches with
  | nil => simp [branchEdges, branchNodes]
  | cons first rest ih =>
    have inFirst := each first (mem_cons_self ..)
    have inRest := ih fun branch member => each branch (mem_cons_of_mem first member)
    rw [branchEdges, branchNodes, countP_append, countP_append, first.1.edges_eq_countP, inFirst, inRest]

theorem armEdges_of_each
    (each : ∀ arm ∈ arms, bodyEdges arm.2 = (bodyNodes arm.2).countP Expr.asksEdge) :
    armEdges arms = (armNodes arms).countP Expr.asksEdge := by
  induction arms with
  | nil => simp [armEdges, armNodes]
  | cons first rest ih =>
    have inFirst := each first (mem_cons_self ..)
    have inRest := ih fun arm member => each arm (mem_cons_of_mem first member)
    rw [armEdges, armNodes, countP_append, countP_append,
      Expr.edgesAll_eq_countP fun expr _ => expr.edges_eq_countP, inFirst, inRest]

end

theorem Stmt.edges_eq_countP (stmt : Stmt) : stmt.edges = stmt.nodes.countP Expr.asksEdge := by
  induction stmt using Stmt.induction with
  | assign target value immediate line =>
    rw [edges, nodes, countP_append, Target.edges, Expr.edges_eq_countP, Expr.edges_eq_countP]
  | conditional branches otherwise line inBranches inOtherwise =>
    rw [edges, nodes, countP_append,
      branchEdges_of_each fun branch member => bodyEdges_of_each (inBranches branch member),
      bodyEdges_of_each inOtherwise]
  | selection selector arms default line inArms inDefault =>
    rw [edges, nodes, countP_append, countP_append, Expr.edges_eq_countP,
      armEdges_of_each fun arm member => bodyEdges_of_each (inArms arm member)]
    cases default with
    | none => simp [defaultEdges, defaultNodes]
    | some body => rw [defaultEdges, defaultNodes, bodyEdges_of_each (inDefault body rfl)]
  | captured statement => simp [edges, nodes]

theorem bodyEdges_eq_countP (body : List Stmt) : bodyEdges body = (bodyNodes body).countP Expr.asksEdge :=
  bodyEdges_of_each fun inner _ => inner.edges_eq_countP

namespace Expr

/-- A signal equal to a bit, in either order. -/
inductive IsLevelTest : Expr → LevelTest → Prop where
  | equal (test nameLine bitLine line) :
      IsLevelTest (.binary .eq (.name test.signal nameLine) (.literal (.bit test.level.digit) bitLine) line)
        test
  | flip {lhs rhs test line} : IsLevelTest (.binary .eq lhs rhs line) test → IsLevelTest (.binary .eq rhs lhs line) test

/-- An edge predicate of a clock, or an event of a clock with its level after the edge, in either order. -/
inductive IsEdgeTest : Expr → EdgeTest → Prop where
  | predicate {function edge} (clock nameLine others line) (isEdge : Builtin.edge? function = some edge) :
      IsEdgeTest (.call function (.name clock nameLine :: others) line) ⟨clock, edge⟩
  | rising {clock level} (nameLine tickLine line) (isHigh : level.IsLevelTest ⟨clock, .high⟩) :
      IsEdgeTest (.binary .and (.tick (.name clock nameLine) "event" tickLine) level line) ⟨clock, .rising⟩
  | falling {clock level} (nameLine tickLine line) (isLow : level.IsLevelTest ⟨clock, .low⟩) :
      IsEdgeTest (.binary .and (.tick (.name clock nameLine) "event" tickLine) level line) ⟨clock, .falling⟩
  | flip {lhs rhs test line} : IsEdgeTest (.binary .and lhs rhs line) test → IsEdgeTest (.binary .and rhs lhs line) test

theorem spelling?_eq_some {expr : Expr} : expr.spelling? = some spelling ↔ ∃ line, expr = .name spelling line := by
  cases expr <;> simp [spelling?]

theorem level?_eq_some {expr : Expr} : expr.level? = some level ↔ ∃ line, expr = .literal (.bit level.digit) line := by
  cases expr with
  | literal value line =>
    cases value with
    | bit digit =>
      simp only [level?]
      split
      · cases level <;> simp [*, Level.digit]
      · split <;> cases level <;> simp [*, Level.digit]
    | _ => simp [level?]
  | _ => simp [level?]

theorem levelTest?_eq_some :
    (Expr.binary .eq lhs rhs line).levelTest? = some test ↔
      (lhs.spelling? = some test.signal ∧ rhs.level? = some test.level) ∨
        (rhs.spelling? = some test.signal ∧ lhs.level? = some test.level) := by
  have oneSide : ∀ {expr : Expr} {spelling}, expr.spelling? = some spelling → expr.level? = none := by
    intro expr spelling isName
    obtain ⟨line, rfl⟩ := spelling?_eq_some.mp isName
    rfl
  obtain ⟨signal, level⟩ := test
  simp only [levelTest?]
  split
  next left right => simp [left, right, oneSide left]
  next right left notFirst =>
      have noBit := oneSide right
      simp [left, right, noBit]
  next notFirst notSecond =>
      refine iff_of_false nofun ?_
      rintro (⟨left, right⟩ | ⟨right, left⟩)
      · exact notFirst _ _ left right
      · exact notSecond _ _ right left

theorem levelTest?_iff_isLevelTest {expr : Expr} : expr.levelTest? = some test ↔ expr.IsLevelTest test := by
  constructor
  · intro found
    unfold levelTest? at found
    split at found
    next lhs rhs line =>
      change (Expr.binary .eq lhs rhs line).levelTest? = some test at found
      rcases levelTest?_eq_some.mp found with ⟨left, right⟩ | ⟨right, left⟩
      · obtain ⟨nameLine, rfl⟩ := spelling?_eq_some.mp left
        obtain ⟨bitLine, rfl⟩ := level?_eq_some.mp right
        exact .equal test nameLine bitLine line
      · obtain ⟨nameLine, rfl⟩ := spelling?_eq_some.mp right
        obtain ⟨bitLine, rfl⟩ := level?_eq_some.mp left
        exact .flip (.equal test nameLine bitLine line)
    next => nomatch found
  · intro isTest
    induction isTest with
    | equal test nameLine bitLine line => exact levelTest?_eq_some.mpr (.inl ⟨rfl, level?_eq_some.mpr ⟨bitLine, rfl⟩⟩)
    | flip _ ih => exact levelTest?_eq_some.mpr (levelTest?_eq_some.mp ih).symm

theorem event?_eq_some {expr : Expr} :
    expr.event? = some clock ↔ ∃ nameLine line, expr = .tick (.name clock nameLine) "event" line := by
  cases expr with
  | tick base property line =>
    by_cases isEvent : property = "event"
    · simp [event?, isEvent, spelling?_eq_some]
    · simp [event?, isEvent]
  | _ => simp [event?]

theorem eventTest?_eq_some :
    eventTest? event level = some test ↔ event.event? = some test.clock ∧
      ∃ reached, level.levelTest? = some ⟨test.clock, reached⟩ ∧
        test.edge = if reached = .high then .rising else .falling := by
  obtain ⟨clock, edge⟩ := test
  unfold eventTest?
  split
  next found level isEvent isLevel =>
      obtain ⟨signal, reached⟩ := level
      by_cases same : signal = found
      · subst same
        simp only [isEvent, isLevel, if_true, Option.some.injEq, EdgeTest.mk.injEq, LevelTest.mk.injEq]
        constructor
        · rintro ⟨rfl, rfl⟩
          exact ⟨rfl, reached, ⟨rfl, rfl⟩, rfl⟩
        · rintro ⟨rfl, _, ⟨_, rfl⟩, rfl⟩
          exact ⟨rfl, rfl⟩
      · simp only [isEvent, isLevel, same, if_false, Option.some.injEq, LevelTest.mk.injEq]
        refine iff_of_false nofun ?_
        rintro ⟨rfl, _, ⟨isSame, _⟩, _⟩
        exact same isSame
  next notBoth =>
      refine iff_of_false nofun ?_
      rintro ⟨isEvent, reached, isLevel, _⟩
      exact notBoth _ _ isEvent isLevel

theorem eventTest?_or :
    (eventTest? lhs rhs).or (eventTest? rhs lhs) = some test ↔
      eventTest? lhs rhs = some test ∨ eventTest? rhs lhs = some test := by
  rw [Option.or_eq_some_iff]
  refine or_congr_right ⟨And.right, fun flipped => ⟨?_, flipped⟩⟩
  obtain ⟨nameLine, line, rfl⟩ := event?_eq_some.mp (eventTest?_eq_some.mp flipped).1
  unfold eventTest?
  split
  next isLevel => nomatch isLevel
  next => rfl

theorem IsEdgeTest.of_eventTest? (found : eventTest? event level = some test)
    : (Expr.binary .and event level line).IsEdgeTest test := by
  obtain ⟨clock, edge⟩ := test
  obtain ⟨isEvent, reached, isLevel, isEdge⟩ := eventTest?_eq_some.mp found
  obtain ⟨nameLine, tickLine, rfl⟩ := event?_eq_some.mp isEvent
  have isTest := levelTest?_iff_isLevelTest.mp isLevel
  cases reached with
  | low =>
    obtain rfl : edge = .falling := isEdge
    exact .falling nameLine tickLine line isTest
  | high =>
    obtain rfl : edge = .rising := isEdge
    exact .rising nameLine tickLine line isTest

theorem edgeTest?_iff_isEdgeTest {expr : Expr} : expr.edgeTest? = some test ↔ expr.IsEdgeTest test := by
  constructor
  · intro found
    unfold edgeTest? at found
    split at found
    next function clock nameLine others line =>
        obtain ⟨edge, isEdge, rfl⟩ := Option.map_eq_some_iff.mp found
        exact .predicate clock nameLine others line isEdge
    next lhs rhs line =>
        rcases eventTest?_or.mp found with inOrder | flipped
        · exact .of_eventTest? inOrder
        · exact .flip (.of_eventTest? flipped)
    next => nomatch found
  · intro isTest
    have ofEvent {clock nameLine tickLine line} {level : Expr} {reached : Level}
        (isLevel : level.IsLevelTest ⟨clock, reached⟩) :
        (Expr.binary .and (.tick (.name clock nameLine) "event" tickLine) level line).edgeTest? =
          some ⟨clock, if reached = .high then .rising else .falling⟩ :=
      eventTest?_or.mpr <| .inl <| eventTest?_eq_some.mpr ⟨rfl, reached, levelTest?_iff_isLevelTest.mpr isLevel, rfl⟩
    induction isTest with
    | predicate clock nameLine others line isEdge => simp [edgeTest?, isEdge]
    | rising nameLine tickLine line isHigh => exact ofEvent isHigh
    | falling nameLine tickLine line isLow => exact ofEvent isLow
    | flip _ ih => exact eventTest?_or.mpr (eventTest?_or.mp ih).symm

end Expr

/-! ### Synchronous resets -/

namespace Expr

/-- Literals and the given names, repeated or converted. -/
inductive IsBuiltFrom (constants : List String) : Expr → Prop where
  | literal (value line) : IsBuiltFrom constants (.literal value line)
  | name {spelling} (line) (known : spelling ∈ constants) : IsBuiltFrom constants (.name spelling line)
  | aggregate {fill} (site line) (inFill : IsBuiltFrom constants fill) :
      IsBuiltFrom constants (.aggregate fill site line)
  | conversion {function arguments} (line)
      (converts : (Builtin.conversion? function).isSome ∨ (Builtin.sizedConversion? function).isSome)
      (inArguments : ∀ argument ∈ arguments, IsBuiltFrom constants argument) :
      IsBuiltFrom constants (.call function arguments line)

theorem areConstant_iff :
    isConstant.areConstant constants list = true ↔ ∀ expr ∈ list, expr.isConstant constants = true := by
  induction list with
  | nil => simp [isConstant.areConstant]
  | cons first rest ih => simp [isConstant.areConstant, ih]

theorem isConstant_iff_isBuiltFrom (expr : Expr) : expr.isConstant constants = true ↔ expr.IsBuiltFrom constants := by
  constructor
  · intro constant
    induction expr using Expr.induction with
    | literal value line => exact .literal value line
    | name spelling line => exact .name line (contains_iff_mem.mp constant)
    | aggregate fill site line inFill => exact .aggregate site line (inFill constant)
    | call function arguments line inArguments =>
      simp only [isConstant, Bool.and_eq_true, Bool.or_eq_true, areConstant_iff] at constant
      exact .conversion line constant.1 fun argument member => inArguments argument member (constant.2 argument member)
    | _ => nomatch constant
  · intro built
    induction built with
    | literal value line => rfl
    | name line known => exact contains_iff_mem.mpr known
    | aggregate site line inFill ih => exact ih
    | conversion line converts inArguments ih =>
      simp only [isConstant, Bool.and_eq_true, Bool.or_eq_true, areConstant_iff]
      exact ⟨converts, ih⟩

end Expr

/-- What a statement itself writes, and not what the statements in it write. -/
def Stmt.write? (signalsOnly : Bool) : Stmt → Option (String × Nat)
  | .assign target _ immediate line => if signalsOnly && immediate then none else some (target.name, line)
  | _ => none

section

variable {signalsOnly : Bool}

theorem bodyWrites_eq_flatMap : ∀ body, bodyWrites signalsOnly body = body.flatMap (Stmt.writes signalsOnly) :=
  eq_flatMap rfl fun _ _ => rfl

theorem branchWrites_eq_flatMap : ∀ branches,
    branchWrites signalsOnly branches = branches.flatMap fun branch => bodyWrites signalsOnly branch.2 :=
  eq_flatMap rfl fun _ _ => rfl

theorem armWrites_eq_flatMap : ∀ arms,
    armWrites signalsOnly arms = arms.flatMap fun arm => bodyWrites signalsOnly arm.2 := eq_flatMap rfl fun _ _ => rfl

theorem Stmt.writes_eq_append (stmt : Stmt) :
    stmt.writes signalsOnly = (stmt.write? signalsOnly).toList ++ stmt.children.flatMap (writes signalsOnly) := by
  cases stmt with
  | assign target value immediate line =>
    cases isLeftOut : signalsOnly && immediate <;> simp [writes, write?, children, isLeftOut]
  | selection selector arms default line =>
    cases default <;> simp [writes, write?, children, armWrites_eq_flatMap, bodyWrites_eq_flatMap, defaultWrites,
      flatMap_assoc]
  | _ => simp [writes, write?, children, branchWrites_eq_flatMap, bodyWrites_eq_flatMap, flatMap_assoc]

end

theorem Stmt.writes_subset {stmt : Stmt} (isChild : child ∈ stmt.children) (signalsOnly : Bool) :
    child.writes signalsOnly ⊆ stmt.writes signalsOnly := by
  rw [stmt.writes_eq_append]
  exact fun write isWrite => mem_append_right _ (mem_flatMap.mpr ⟨child, isChild, isWrite⟩)

theorem Stmt.writes_eq_filterMap (signalsOnly : Bool) (stmt : Stmt) :
    stmt.writes signalsOnly = stmt.stmts.filterMap (Stmt.write? signalsOnly) := by
  induction stmt using Stmt.childInduction with
  | step stmt ih =>
    rw [writes_eq_append, stmts_eq_cons, filterMap_cons, filterMap_flatMap, flatMap_congr ih]
    cases stmt.write? signalsOnly <;> rfl

theorem bodyWrites_eq_filterMap (signalsOnly : Bool) (body : List Stmt) :
    bodyWrites signalsOnly body = (bodyStmts body).filterMap (Stmt.write? signalsOnly) := by
  rw [bodyWrites_eq_flatMap, bodyStmts_eq_flatMap, filterMap_flatMap]
  exact flatMap_congr fun inner _ => inner.writes_eq_filterMap signalsOnly

def Assigns (body : List Stmt) (name : String) : Prop :=
  ∃ target value immediate line, .assign target value immediate line ∈ bodyStmts body ∧ target.name = name

def AssignsSignal (body : List Stmt) (name : String) : Prop :=
  ∃ target value line, .assign target value false line ∈ bodyStmts body ∧ target.name = name

theorem Stmt.write?_eq_some {stmt : Stmt} {line : Nat} :
    stmt.write? signalsOnly = some (name, line) ↔ ∃ target value immediate,
      stmt = .assign target value immediate line ∧ target.name = name ∧ (signalsOnly && immediate) = false := by
  cases stmt with
  | assign target value immediate line => cases isLeftOut : signalsOnly && immediate <;> grind [write?]
  | _ => simp [write?]

theorem mem_bodyWrites_signals : name ∈ (bodyWrites true body).map Prod.fst ↔ AssignsSignal body name := by
  simp only [bodyWrites_eq_filterMap, mem_map, mem_filterMap, Prod.exists, exists_and_right,
    exists_eq_right, Stmt.write?_eq_some, AssignsSignal]
  grind

theorem mem_bodyWrites_all : name ∈ (bodyWrites false body).map Prod.fst ↔ Assigns body name := by
  simp only [bodyWrites_eq_filterMap, mem_map, mem_filterMap, Prod.exists, exists_and_right,
    exists_eq_right, Stmt.write?_eq_some, Assigns]
  grind

def Stmt.WritesNode (property : String → Prop) : Stmt → Prop
  | .assign target _ _ _ => property target.name
  | _ => True

theorem Stmt.all_writes_iff (stmt : Stmt) :
    stmt.All (WritesNode property) ↔ ∀ write ∈ stmt.writes false, property write.1 := by
  rw [all_iff_forall_stmts, writes_eq_filterMap, forall_mem_filterMap]
  apply forall₂_congr
  intro inner _
  cases inner <;> simp [WritesNode, write?]

theorem bodyAll_writes_iff (body : List Stmt) :
    bodyAll (Stmt.WritesNode property) body ↔ ∀ write ∈ bodyWrites false body, property write.1 := by
  rw [bodyAll_iff, bodyWrites_eq_flatMap, forall_mem_flatMap]
  exact forall₂_congr fun inner _ => inner.all_writes_iff

/-- A body that starts with an `if` on a level. Its first branch assigns constants only and leaves out
no signal that the body assigns, and there is another branch. -/
inductive StartsWithReset (constants : List String) : List Stmt → LevelTest → List Stmt → Prop where
  | mk {condition reset others otherwise line rest test} (isTest : condition.IsLevelTest test)
      (alternative : others ≠ [] ∨ otherwise ≠ []) (present : reset ≠ [])
      (constant : ∀ stmt ∈ reset, ∃ target value immediate line,
        stmt = .assign target value immediate line ∧ value.IsBuiltFrom constants)
      (covers : ∀ name, AssignsSignal (.conditional ((condition, reset) :: others) otherwise line :: rest) name →
        Assigns reset name) :
      StartsWithReset constants (.conditional ((condition, reset) :: others) otherwise line :: rest) test reset

theorem assignsOnlyConstants_iff :
    assignsOnlyConstants constants body = true ↔ body ≠ [] ∧
      ∀ stmt ∈ body, ∃ target value immediate line,
        stmt = .assign target value immediate line ∧ value.IsBuiltFrom constants := by
  simp only [assignsOnlyConstants, Bool.and_eq_true, Bool.not_eq_true', isEmpty_eq_false_iff, all_eq_true]
  refine and_congr_right fun _ => forall₂_congr fun stmt _ => ?_
  cases stmt with
  | assign target value immediate line =>
    rw [Expr.isConstant_iff_isBuiltFrom]
    constructor
    · intro built
      exact ⟨target, value, immediate, line, rfl, built⟩
    · rintro ⟨_, _, _, _, same, built⟩
      cases same
      exact built
  | _ => simp

theorem resetsEveryRegister_iff :
    resetsEveryRegister reset clocked = true ↔ ∀ name, AssignsSignal clocked name → Assigns reset name := by
  simp only [resetsEveryRegister, all_eq_true, contains_iff_mem, mem_bodyWrites_all,
    ← mem_bodyWrites_signals, forall_mem_map]

theorem syncReset_eq_sync :
    syncReset constants clocked = .sync test reset ↔ StartsWithReset constants clocked test reset := by
  constructor
  · intro found
    unfold syncReset at found
    split at found
    next condition first others otherwise line rest =>
      split at found
      next level isLevel =>
        split at found
        next accepted =>
          obtain ⟨rfl, rfl⟩ := Reset.sync.inj found
          simp only [Bool.and_eq_true, Bool.or_eq_true, Bool.not_eq_true', isEmpty_eq_false_iff,
            assignsOnlyConstants_iff, resetsEveryRegister_iff] at accepted
          obtain ⟨⟨alternative, present, constant⟩, covers⟩ := accepted
          exact .mk (Expr.levelTest?_iff_isLevelTest.mp isLevel) alternative present constant covers
        next => nomatch found
      next => nomatch found
    next => nomatch found
  · rintro ⟨isTest, alternative, present, constant, covers⟩
    have isLevel := Expr.levelTest?_iff_isLevelTest.mpr isTest
    have isConstant := assignsOnlyConstants_iff.mpr ⟨present, constant⟩
    have isCovered := resetsEveryRegister_iff.mpr covers
    simp only [syncReset, isLevel, isConstant, isCovered, Bool.and_true, Bool.or_eq_true,
      Bool.not_eq_true', isEmpty_eq_false_iff, alternative, if_true]

/-- The reset that clocked statements hold. -/
inductive HasSyncReset (constants : List String) (clocked : List Stmt) : Reset → Prop where
  | sync {test reset} (starts : StartsWithReset constants clocked test reset) :
      HasSyncReset constants clocked (.sync test reset)
  | none (free : ∀ test reset, ¬ StartsWithReset constants clocked test reset) : HasSyncReset constants clocked .none

theorem syncReset_ne_async : syncReset constants clocked ≠ .async test body := by
  unfold syncReset
  grind

theorem syncReset_iff_hasSyncReset : syncReset constants clocked = reset ↔ HasSyncReset constants clocked reset := by
  constructor
  · rintro rfl
    cases found : syncReset constants clocked with
    | none =>
      refine .none fun test reset starts => ?_
      rw [syncReset_eq_sync.mpr starts] at found
      nomatch found
    | sync test reset => exact .sync (syncReset_eq_sync.mp found)
    | async test body => exact absurd found syncReset_ne_async
  · rintro (⟨starts⟩ | ⟨free⟩)
    · exact syncReset_eq_sync.mpr starts
    · cases found : syncReset constants clocked with
      | none => rfl
      | sync test reset => exact absurd (syncReset_eq_sync.mp found) (free test reset)
      | async test body => exact absurd found syncReset_ne_async

/-! ### The kinds -/

/-- The processes that have a kind, and the kind that each has. -/
inductive HasKind (constants : List String) : Sensitivity → List Stmt → ProcessKind → Prop where
  | combinational {sensitivity body} (free : ∀ node ∈ bodyNodes body, node.asksEdge = false) :
      HasKind constants sensitivity body .combinational
  | clocked {condition body line clock reset}
      (single : (bodyNodes [.conditional [(condition, body)] [] line]).countP Expr.asksEdge = 1)
      (isEdge : condition.IsEdgeTest clock) (hasReset : HasSyncReset constants body reset) :
      HasKind constants (.listed [clock.clock]) [.conditional [(condition, body)] [] line]
        (.sequential clock reset body)
  | withReset {names condition resetBody edge body line clock test}
      (single : (bodyNodes [.conditional [(condition, resetBody), (edge, body)] [] line]).countP Expr.asksEdge = 1)
      (isLevel : condition.IsLevelTest test) (isEdge : edge.IsEdgeTest clock)
      (differ : test.signal ≠ clock.clock) (sensitive : names.Perm [clock.clock, test.signal]) :
      HasKind constants (.listed names) [.conditional [(condition, resetBody), (edge, body)] [] line]
        (.sequential clock (.async test resetBody) body)

theorem perm_pair_iff {names : List String} :
    names.Perm [first, second] ↔ names = [first, second] ∨ names = [second, first] := by
  constructor
  · intro perm
    obtain ⟨x, y, rfl⟩ : ∃ x y, names = [x, y] := by
      match names, perm.length_eq with
      | [x, y], _ => exact ⟨x, y, rfl⟩
    have isFirst : x = first ∨ x = second := by simpa using perm.mem_iff.mp (mem_cons_self ..)
    rcases isFirst with rfl | rfl
    · exact .inl (congrArg _ (perm_singleton.mp perm.cons_inv))
    · exact .inr (congrArg _ (perm_singleton.mp (perm.trans (.swap ..)).cons_inv))
  · rintro (rfl | rfl)
    · exact .refl _
    · exact .swap ..

section

variable {constants names : List String} {clock : EdgeTest} {kind : ProcessKind}

theorem clockedIf_eq_ok :
    clockedIf constants names clock body alone = .ok kind ↔
      alone = true ∧ names = [clock.clock] ∧ kind = .sequential clock (syncReset constants body) body := by
  have onlyClock : names = [clock.clock] ↔ clock.clock ∈ names ∧ names.length = 1 := by
    constructor
    · rintro rfl
      simp
    · rintro ⟨member, short⟩
      obtain ⟨name, rfl⟩ := length_eq_one_iff.mp short
      rw [mem_singleton.mp member]
  unfold clockedIf
  grind

theorem resetIf_eq_ok :
    resetIf names condition resetBody edge body = .ok kind ↔ ∃ clock test,
      edge.edgeTest? = some clock ∧ condition.levelTest? = some test ∧ test.signal ≠ clock.clock ∧
        names.Perm [clock.clock, test.signal] ∧ kind = .sequential clock (.async test resetBody) body := by
  unfold resetIf
  cases isEdge : edge.edgeTest? with
  | none => simp
  | some clock =>
    cases isLevel : condition.levelTest? with
    | none => simp
    | some test =>
      simp only [perm_pair_iff, Option.some.injEq, exists_eq_left', exists_and_left]
      grind

end

theorem Expr.edgeTest?_of_isLevelTest {expr : Expr} (isLevel : expr.IsLevelTest test) : expr.edgeTest? = none := by
  cases isLevel <;> rfl

theorem HasKind.of_processKind (found : processKind constants sensitivity body = .ok kind) :
    HasKind constants sensitivity body kind := by
  unfold processKind at found
  split at found
  next noEdge =>
    cases found
    rw [bodyEdges_eq_countP, countP_eq_zero] at noEdge
    exact .combinational fun node member => Bool.eq_false_iff.mpr (noEdge node member)
  next someEdge =>
  split at found
  next => nomatch found
  next notMany =>
  -- What is left has exactly one edge test, and only the two shapes of a single `if` are accepted.
  have single : (bodyNodes body).countP Expr.asksEdge = 1 := by
    rw [← bodyEdges_eq_countP]
    omega
  split at found
  next => nomatch found
  next names condition first others otherwise line =>
    split at found
    next clock isEdge =>
      obtain ⟨alone, rfl, rfl⟩ := clockedIf_eq_ok.mp found
      obtain ⟨rfl, rfl⟩ : others = [] ∧ otherwise = [] := by simpa using alone
      exact .clocked single (Expr.edgeTest?_iff_isEdgeTest.mp isEdge) (syncReset_iff_hasSyncReset.mp rfl)
    next =>
      split at found
      next edge second =>
        obtain ⟨clock, test, isEdge, isLevel, differ, sensitive, rfl⟩ := resetIf_eq_ok.mp found
        exact .withReset single (Expr.levelTest?_iff_isLevelTest.mp isLevel)
          (Expr.edgeTest?_iff_isEdgeTest.mp isEdge) differ sensitive
      next => nomatch found
  next => nomatch found

theorem HasKind.processKind_eq (hasKind : HasKind constants sensitivity body kind) :
    processKind constants sensitivity body = .ok kind := by
  unfold processKind
  cases hasKind with
  | combinational free =>
    have noEdge : bodyEdges body = 0 := by
      rw [bodyEdges_eq_countP, countP_eq_zero]
      exact fun node member => Bool.eq_false_iff.mp (free node member)
    rw [if_pos noEdge]
  | clocked single isEdge hasReset =>
    rw [bodyEdges_eq_countP, single, if_neg (by decide), if_neg (by decide)]
    simp only [Expr.edgeTest?_iff_isEdgeTest.mpr isEdge]
    exact clockedIf_eq_ok.mpr ⟨rfl, rfl, by rw [syncReset_iff_hasSyncReset.mpr hasReset]⟩
  | withReset single isLevel isEdge differ sensitive =>
    rw [bodyEdges_eq_countP, single, if_neg (by decide), if_neg (by decide)]
    -- A level test is no edge test, so the first branch is taken for the reset.
    simp only [Expr.edgeTest?_of_isLevelTest isLevel]
    exact resetIf_eq_ok.mpr ⟨_, _, Expr.edgeTest?_iff_isEdgeTest.mpr isEdge,
      Expr.levelTest?_iff_isLevelTest.mpr isLevel, differ, sensitive, rfl⟩

theorem processKind_eq_ok_iff :
    processKind constants sensitivity body = .ok kind ↔ HasKind constants sensitivity body kind :=
  ⟨HasKind.of_processKind, HasKind.processKind_eq⟩

theorem classify_eq_ok :
    classify constants sensitivity body name line = .ok kind ↔ HasKind constants sensitivity body kind := by
  rw [← processKind_eq_ok_iff, classify]
  split <;> simp [*]

/-- The statements that stand outside the clocked ones; a synchronous reset has none. -/
def Reset.ownBody : Reset → List Stmt
  | .async _ body => body
  | _ => []

theorem HasKind.stmts_eq {clocked : List Stmt}
    (hasKind : HasKind constants sensitivity body (.sequential clock reset clocked)) :
    ∃ top, body = [top] ∧ bodyStmts body = top :: (bodyStmts reset.ownBody ++ bodyStmts clocked) := by
  cases hasKind with
  | clocked single isEdge hasReset =>
    refine ⟨_, rfl, ?_⟩
    cases hasReset <;> simp [bodyStmts, Stmt.stmts, branchStmts, Reset.ownBody]
  | withReset single isLevel isEdge differ sensitive =>
    exact ⟨_, rfl, by simp [bodyStmts, Stmt.stmts, branchStmts, Reset.ownBody]⟩

/-- Classification is exact and loses nothing: it finds the kind of a process that has one, it reports
every other process as ambiguous, and apart from the `if` itself, the statements of a clocked process are
those of its reset and the clocked ones. -/
theorem classify_eq_ok_iff_hasKind (constants : List String) (sensitivity : Sensitivity)
    (body : List Stmt) (name : String) (line : Nat) :
    (∀ kind, classify constants sensitivity body name line = .ok kind ↔ HasKind constants sensitivity body kind) ∧
    ((∀ kind, ¬ HasKind constants sensitivity body kind) → ∃ fault,
      classify constants sensitivity body name line = .error ⟨.ambiguousReset name fault, line⟩) ∧
    ∀ clock reset clocked,
      classify constants sensitivity body name line = .ok (.sequential clock reset clocked) →
        ∃ top, body = [top] ∧ bodyStmts body = top :: (bodyStmts reset.ownBody ++ bodyStmts clocked) := by
  refine ⟨fun kind => classify_eq_ok, ?_, fun clock reset clocked accepted => (classify_eq_ok.mp accepted).stmts_eq⟩
  intro hasNone
  unfold classify
  split
  next kind found => exact absurd (HasKind.of_processKind found) (hasNone kind)
  next fault _ => exact ⟨fault, rfl⟩

/-- A register that is cleared while `rst` is high and follows `d` at the rising edges of `clk`. -/
def sampleRegister : List Stmt :=
  let clears := .assign ⟨"q", .whole, 2⟩ (.literal (.bit "0") 2) false 2
  let follows := .assign ⟨"q", .whole, 4⟩ (.name "d" 4) false 4
  [.conditional [(.binary .eq (.literal (.bit "1") 1) (.name "rst" 1) 1, [clears]),
    (.binary .and (.tick (.name "clk" 3) "event" 3)
      (.binary .eq (.name "clk" 3) (.literal (.bit "1") 3) 3) 3, [follows])] [] 1]

theorem classify_sampleRegister :
    (∃ reset clocked, classify [] (.listed ["rst", "clk"]) sampleRegister "p" 1 =
      .ok (.sequential ⟨"clk", .rising⟩ (.async ⟨"rst", .high⟩ reset) clocked) ∧
      ∃ top, sampleRegister = [top] ∧ bodyStmts sampleRegister = top :: (bodyStmts reset ++ bodyStmts clocked)) ∧
    ∃ fault, classify [] .all sampleRegister "p" 1 = .error ⟨.ambiguousReset "p" fault, 1⟩ := by
  obtain ⟨found, _, keeps⟩ := classify_eq_ok_iff_hasKind [] (.listed ["rst", "clk"]) sampleRegister "p" 1
  obtain ⟨_, refuses, _⟩ := classify_eq_ok_iff_hasKind [] .all sampleRegister "p" 1
  have accepted := (found _).mpr (.withReset (by decide) (.flip (.equal ⟨"rst", .high⟩ 1 1 1))
    (.rising 3 3 3 (.equal ⟨"clk", .high⟩ 3 3 3)) (by decide) (.swap ..))
  refine ⟨⟨_, _, accepted, keeps _ _ _ accepted⟩, refuses ?_⟩
  intro kind hasKind
  cases hasKind with
  | combinational free =>
    have isInside : .tick (.name "clk" 3) "event" 3 ∈ bodyNodes sampleRegister := by
      simp [sampleRegister, bodyNodes, Stmt.nodes, branchNodes, Expr.nodes]
    exact absurd (free _ isInside) (by decide)

end RtlBridge.Vhdl

import RtlBridge.Proofs.Vhdl.ParsedTokens

/-! What is parsed from a text: statements, design files and whole texts. -/

namespace RtlBridge.Vhdl

open List (Forall₂ forall_mem_append forall_mem_cons suffix_cons)

namespace Parser

variable {α : Type} {places : Nat → Prop}

/-! ### Statements -/

abbrev SameTokens : List Token → List Token → Prop := Forall₂ fun token other => other.lexeme = token.lexeme

theorem isSymbol_same {token other : Token} (same : other.lexeme = token.lexeme) (text : String) :
    other.isSymbol text = token.isSymbol text := by rw [Token.isSymbol, same, Token.isSymbol]

theorem isKeyword_same {token other : Token} (same : other.lexeme = token.lexeme) (word : String) :
    other.isKeyword word = token.isKeyword word := by rw [Token.isKeyword, same, Token.isKeyword]

theorem afterStatement?_same (same : SameTokens tokens others)
    (found : afterStatement? depth tokens = some (last, rest)) :
    rest <:+ tokens ∧ ∃ last' rest', afterStatement? depth others = some (last', rest') ∧ SameTokens rest rest' := by
  induction same generalizing depth with
  | nil => cases found
  | @cons token other tokens others here later ih =>
    have behind {depth : Int} (found : afterStatement? depth tokens = some (last, rest)) :
        rest <:+ token :: tokens ∧ ∃ last' rest', afterStatement? depth others = some (last', rest') ∧
          SameTokens rest rest' := ⟨(ih found).1.trans (suffix_cons ..), (ih found).2⟩
    simp only [afterStatement?, isSymbol_same here] at found ⊢
    split_ifs at found ⊢
    · exact behind found
    · exact behind found
    · cases found
      exact ⟨suffix_cons .., _, _, rfl, later⟩
    · exact behind found

theorem afterLoop?_same (same : SameTokens tokens others) (found : afterLoop? depth tokens = some rest) :
    rest <:+ tokens ∧ ∃ rest', afterLoop? depth others = some rest' ∧ SameTokens rest rest' := by
  fun_induction afterLoop? depth tokens generalizing others with
  | case1 => cases found
  | case2 depth token isEnd next tokens isLoop outermost =>
    obtain _ | ⟨here, _ | ⟨here', later⟩⟩ := same
    cases found
    refine ⟨(suffix_cons ..).trans (suffix_cons ..), _, ?_, later⟩
    simp [afterLoop?, isKeyword_same here, isKeyword_same here', isEnd, isLoop, outermost]
  | case3 depth token isEnd next tokens isLoop inner ih =>
    obtain _ | ⟨here, _ | ⟨here', later⟩⟩ := same
    obtain ⟨isSuffix, goesOn⟩ := ih later found
    refine ⟨isSuffix.trans ((suffix_cons ..).trans (suffix_cons ..)), ?_⟩
    simpa [afterLoop?, isKeyword_same here, isKeyword_same here', isEnd, isLoop, inner] using goesOn
  | case4 depth token isEnd next tokens notLoop ih =>
    obtain _ | ⟨here, _ | ⟨here', later⟩⟩ := same
    obtain ⟨isSuffix, goesOn⟩ := ih (.cons here' later) found
    refine ⟨isSuffix.trans (suffix_cons ..), ?_⟩
    unfold afterLoop?
    simpa [isKeyword_same here, isKeyword_same here', isEnd, notLoop] using goesOn
  | case5 => cases found
  | case6 depth token tokens notEnd isLoop ih =>
    obtain _ | ⟨here, later⟩ := same
    obtain ⟨isSuffix, goesOn⟩ := ih later found
    refine ⟨isSuffix.trans (suffix_cons ..), ?_⟩
    unfold afterLoop?
    simpa [isKeyword_same here, notEnd, isLoop] using goesOn
  | case7 depth token tokens notEnd notLoop ih =>
    obtain _ | ⟨here, later⟩ := same
    obtain ⟨isSuffix, goesOn⟩ := ih later found
    refine ⟨isSuffix.trans (suffix_cons ..), ?_⟩
    unfold afterLoop?
    simpa [isKeyword_same here, notEnd, notLoop] using goesOn


theorem set_readsAt (alike : first.Alike second) (isSuffix : rest <:+ first.ahead) (same : SameTokens rest rest')
    {placed : α → Prop} (goesOn : Agree places (next ⟨⟩) (next' ⟨⟩) post placed) :
    AgreeAt places first second (MonadStateOf.set { first with ahead := rest } >>= next)
      (MonadStateOf.set { second with ahead := rest' } >>= next') post placed := by
  intro result after ok
  obtain ⟨_, _, ⟨⟩, nextOk⟩ := bind_apply_eq_ok.mp ok
  obtain ⟨result', after', nextOk', alike', related, passed, isAhead, isPlaced⟩ :=
    goesOn _ _ (alike.later isSuffix same) result after nextOk
  obtain ⟨dropped, isWhole⟩ := isSuffix
  refine ⟨result', after', bind_apply_eq_ok.mpr ⟨_, _, rfl, nextOk'⟩, alike', related, dropped ++ passed, ?_,
    fun all => isPlaced (forall_mem_append.mp all).2⟩
  rw [List.append_assoc, ← isWhole]
  exact congrArg (dropped ++ ·) isAhead

theorem captureStatement_reads (kind : CapturedKind) (first first' : Token) :
    Agree places (captureStatement kind first) (captureStatement kind first') (fun _ _ => True) fun _ => True := by
  refine .get fun cursor cursor' alike => ?_
  cases found : afterStatement? 0 cursor.ahead with
  | none => exact (failAt_fails _ _).reads _ _ alike
  | some result =>
    obtain ⟨isSuffix, last', rest', found', same⟩ := afterStatement?_same alike.same found
    simp only [found']
    exact set_readsAt alike isSuffix same ((note_reads _ _).same fun _ => .pure trivial trivial)

theorem captureLoop_reads (first first' : Token) :
    Agree places (captureLoop first) (captureLoop first') (fun _ _ => True) fun _ => True := by
  refine .get fun cursor cursor' alike => ?_
  cases found : afterLoop? 0 cursor.ahead with
  | none => exact (failAt_fails _ _).reads _ _ alike
  | some rest =>
    obtain ⟨isSuffix, rest', found', same⟩ := afterLoop?_same alike.same found
    simp only [found']
    exact set_readsAt alike isSuffix same <| skipIdentifier_reads.same fun _ =>
      (expectSymbol_reads _).andThen fun _ _ _ => (note_reads _ _).same fun _ => .pure trivial trivial

theorem acceptLabel_reads : Steady places acceptLabel
    (fun found found' => (∀ label ∈ found, isLegalName label = true) ∧ found = found') fun _ => True := by
  refine .look fun token other scanned => ?_
  obtain ⟨lexeme, line, start, stop⟩ := token
  cases lexeme with
  | identifier label =>
    refine peekSecond_reads.andThen fun token' other' same => ?_
    rw [isSymbol_same same]
    refine .ite (fun _ => ?_) fun _ => .pure ⟨by simp, rfl⟩ trivial
    exact advance_reads.andThen fun _ _ _ => advance_reads.andThen fun _ _ _ =>
      .pure ⟨by rintro _ ⟨⟩; exact scanned, rfl⟩ trivial
  | _ => exact .pure ⟨by simp, rfl⟩ trivial

/-- Parsed statements that are the same but for lines and places, unless text is captured in them. -/
def SameStmt (stmt other : Stmt) : Prop := stmt.IsParsed ∧ (stmt.IsStructural → stmt.erase = other.erase)

def SameBody (body other : List Stmt) : Prop :=
  (∀ stmt ∈ body, stmt.IsParsed) ∧ ((∀ stmt ∈ body, stmt.IsStructural) → bodyErase body = bodyErase other)

def BodyIsPlaced (places : Nat → Prop) (body : List Stmt) : Prop := ∀ stmt ∈ body, stmt.Uses (Expr.IsPlaced places)

theorem SameBody.nil : SameBody [] [] := ⟨by simp, fun _ => rfl⟩

theorem SameBody.append (isFirst : SameBody first first') (isSecond : SameBody second second')
    : SameBody (first ++ second) (first' ++ second') := by
  refine ⟨forall_mem_append.mpr ⟨isFirst.1, isSecond.1⟩, fun structural => ?_⟩
  obtain ⟨here, later⟩ := forall_mem_append.mp structural
  rw [bodyErase_append, bodyErase_append, isFirst.2 here, isSecond.2 later]

theorem assignment_reads (bound : Nat) : Steady places (assignment bound) SameStmt
    (Stmt.Uses (Expr.IsPlaced places)) := by
  refine .look fun token other _ => (target_reads bound).bind fun target target' isTarget => ?_
  have rest (immediate : Bool) : Agree places (do
      let value ← expression bound
      skipDelay
      let _ ← expectSymbol ";"
      return Stmt.assign target value immediate token.line) (do
      let value ← expression bound
      skipDelay
      let _ ← expectSymbol ";"
      return Stmt.assign target' value immediate other.line) SameStmt fun found =>
        target.part.All (Expr.IsPlaced places) → found.Uses (Expr.IsPlaced places) := by
    refine (expression_reads bound).bind fun value value' isValue => skipDelay_reads.same fun _ =>
      .expectSymbol <| .pure ⟨⟨isTarget.1, isValue.1⟩, fun _ => ?_⟩
        fun valuePlaced targetPlaced => ⟨targetPlaced, valuePlaced⟩
    rw [Stmt.erase, Stmt.erase, isTarget.2, isValue.2]
  refine .ifSymbol (rest false) ?_
  refine .ifSymbol (rest true) ?_
  exact .look fun _ _ _ => (fail_fails _).exits

def SameBranch (branch other : Expr × List Stmt) : Prop := SameExpr branch.1 other.1 ∧ SameBody branch.2 other.2

def SameArm (arm other : List Expr × List Stmt) : Prop :=
  (arm.1 ≠ [] ∧ Forall₂ SameExpr arm.1 other.1) ∧ SameBody arm.2 other.2

theorem branchErase_same (same : Forall₂ SameBranch branches others)
    (structural : branchAll Stmt.StructuralNode branches) : branchErase branches = branchErase others := by
  induction same with
  | nil => rfl
  | cons here _ ih =>
    rw [branchErase, branchErase, here.1.2, here.2.2 ((bodyAll_iff _).mp structural.1), ih structural.2]

theorem armErase_same (same : Forall₂ SameArm arms others) (structural : armAll Stmt.StructuralNode arms)
    : armErase arms = armErase others := by
  induction same with
  | nil => rfl
  | cons here _ ih =>
    rw [armErase, armErase, (SameBy.all here.1.2).2, here.2.2 ((bodyAll_iff _).mp structural.1), ih structural.2]

section Bodies

variable {body : BodyParser} (inner : ∀ closing construct opened opened',
  Agree places (body closing construct opened) (body closing construct opened') SameBody (BodyIsPlaced places))

include inner

theorem conditionedBranch_reads (bound opened opened' : Nat) :
    Agree places (conditionedBranch bound body opened) (conditionedBranch bound body opened') SameBranch
      fun found => found.1.IsPlaced places ∧ BodyIsPlaced places found.2 :=
  (expression_reads bound).bind fun _ _ condition => .expectKeyword <|
    (inner _ _ _ _).bind fun _ _ same => .pure ⟨condition, same⟩ fun inside here => ⟨here, inside⟩

theorem elsifBranches_reads (opened opened' bound : Nat) :
    Agree places (elsifBranches body opened bound) (elsifBranches body opened' bound) (Forall₂ SameBranch)
      fun found => ∀ branch ∈ found, branch.1.IsPlaced places ∧ BodyIsPlaced places branch.2 := by
  induction bound with
  | zero => exact .pure .nil (by simp)
  | succ bound ih =>
    refine .ifKeyword ?_ <| .pure .nil (by simp)
    exact (conditionedBranch_reads inner bound opened opened').bind fun _ _ isFirst => ih.bind fun _ _ areOthers =>
      .pure (.cons isFirst areOthers) fun others first => forall_mem_cons.mpr ⟨first, others⟩

omit inner in
theorem expectEndOf_reads (construct : String) (opened opened' : Nat) :
    Agree places (expectEndOf construct opened) (expectEndOf construct opened') Eq fun _ => True :=
  .expectKeyword <| (acceptKeyword_reads _).same fun _ =>
    .ite (fun _ => .look fun _ _ _ => (failAt_fails _ _).reads) fun _ => .pure rfl trivial

theorem ifStatement_reads (bound : Nat) :
    Steady places (ifStatement bound body) SameStmt (Stmt.Uses (Expr.IsPlaced places)) := by
  refine (expectKeyword_reads _).andThen fun opening opening' _ => ?_
  refine (conditionedBranch_reads inner bound _ _).bind fun first first' isFirst => ?_
  refine (elsifBranches_reads inner _ _ bound).bind fun rest rest' areRest => ?_
  have branches : Forall₂ SameBranch (first :: rest) (first' :: rest') := .cons isFirst areRest
  have ends {otherwise otherwise' : List Stmt} (same : SameBody otherwise otherwise') : Agree places (do
      expectEndOf "if" opening.line
      let _ ← expectSymbol ";"
      return Stmt.conditional (first :: rest) otherwise opening.line) (do
      expectEndOf "if" opening'.line
      let _ ← expectSymbol ";"
      return Stmt.conditional (first' :: rest') otherwise' opening'.line) SameStmt fun found =>
        BodyIsPlaced places otherwise →
        (∀ branch ∈ rest, branch.1.IsPlaced places ∧ BodyIsPlaced places branch.2) →
        first.1.IsPlaced places ∧ BodyIsPlaced places first.2 → found.Uses (Expr.IsPlaced places) := by
    refine (expectEndOf_reads _ _ _).same fun _ => .expectSymbol <| .pure ⟨?_, ?_⟩ ?_
    · have parsed : ∀ branch ∈ first :: rest, branch.1.IsParsed ∧ ∀ stmt ∈ branch.2, stmt.IsParsed :=
        all_of_forall₂ branches fun _ _ same => ⟨same.1.1, same.2.1⟩
      refine ⟨⟨by simp, fun branch member => (parsed branch member).1⟩, ?_, (bodyAll_iff _).mpr same.1⟩
      exact (branchAll_iff _).mpr fun branch member => (bodyAll_iff _).mpr (parsed branch member).2
    · rintro ⟨_, inBranches, inOtherwise⟩
      rw [Stmt.erase, Stmt.erase, branchErase_same branches inBranches, same.2 ((bodyAll_iff _).mp inOtherwise)]
    · intro otherwisePlaced others isFirst
      have placed : ∀ branch ∈ first :: rest, branch.1.IsPlaced places ∧ BodyIsPlaced places branch.2 :=
        forall_mem_cons.mpr ⟨isFirst, others⟩
      refine ⟨fun branch member => (placed branch member).1, ?_, (bodyAll_iff _).mpr otherwisePlaced⟩
      exact (branchAll_iff _).mpr fun branch member => (bodyAll_iff _).mpr (placed branch member).2
  refine .ifKeyword ((inner _ _ _ _).bind fun _ _ same => ends same) ?_
  exact (ends .nil).mono fun _ whole => whole (by simp [BodyIsPlaced])

omit inner in
theorem choice_reads (bound : Nat) : ReadsExpr places (choice bound) :=
  (expression_reads bound).bind fun _ _ same => .look fun _ _ _ => .unless (refuse_fails _ _) <| .pure same id

theorem alternatives_reads (opened opened' bound : Nat) :
    Agree places (alternatives body opened bound) (alternatives body opened' bound)
      (fun found found' => Forall₂ SameArm found.1 found'.1 ∧ Option.Rel SameBody found.2 found'.2) fun found =>
        (∀ arm ∈ found.1, (∀ choice ∈ arm.1, choice.IsPlaced places) ∧ BodyIsPlaced places arm.2) ∧
          ∀ stmts ∈ found.2, BodyIsPlaced places stmts := by
  induction bound with
  | zero => exact .pure ⟨.nil, .none⟩ ⟨by simp, by simp⟩
  | succ bound ih =>
    refine .ifKeyword ?_ <| .pure ⟨.nil, .none⟩ ⟨by simp, by simp⟩
    refine .ifKeyword ?_ ?_
    · refine .expectSymbol <| (inner _ _ _ _).bind fun stmts stmts' same => ?_
      refine ih.bind fun found found' related => ?_
      obtain ⟨arms, default⟩ := found
      obtain ⟨arms', default'⟩ := found'
      obtain ⟨areArms, isDefault⟩ := related
      cases isDefault with
      | none => exact .pure ⟨areArms, .some same⟩ fun placed stmtsPlaced => ⟨placed.1, by simpa using stmtsPlaced⟩
      | some later => exact .pure ⟨areArms, .some later⟩ fun placed _ => placed
    · refine (separated_reads (choice_reads bound) bound).bind fun choices choices' areChoices => ?_
      refine .expectSymbol <| (inner _ _ _ _).bind fun stmts stmts' same => ?_
      refine ih.bind fun found found' related => .pure ⟨.cons ⟨areChoices, same⟩ related.1, related.2⟩ ?_
      exact fun placed stmtsPlaced choicesPlaced =>
        ⟨forall_mem_cons.mpr ⟨⟨choicesPlaced, stmtsPlaced⟩, placed.1⟩, placed.2⟩

theorem caseStatement_reads (bound : Nat) :
    Steady places (caseStatement bound body) SameStmt (Stmt.Uses (Expr.IsPlaced places)) := by
  refine (expectKeyword_reads _).andThen fun opening opening' _ => (expression_reads bound).bind fun selector selector' is => ?_
  refine .expectKeyword <| (alternatives_reads inner _ _ bound).bind fun found found' related => ?_
  obtain ⟨arms, default⟩ := found
  obtain ⟨arms', default'⟩ := found'
  obtain ⟨areArms, isDefault⟩ := related
  refine .look fun _ _ _ => .unless (failAt_fails _ _) <| (expectEndOf_reads _ _ _).same fun _ => ?_
  refine skipIdentifier_reads.same fun _ => .expectSymbol <| .pure ⟨?_, ?_⟩ ?_
  · have inArms : ∀ arm ∈ arms, (arm.1 ≠ [] ∧ ∀ choice ∈ arm.1, choice.IsParsed) ∧ ∀ stmt ∈ arm.2, stmt.IsParsed :=
      all_of_forall₂ areArms fun _ _ same => ⟨⟨same.1.1, (SameBy.all same.1.2).1⟩, same.2.1⟩
    refine ⟨⟨is.1, fun arm member => (inArms arm member).1⟩, ?_, ?_⟩
    · exact (armAll_iff _).mpr fun arm member => (bodyAll_iff _).mpr (inArms arm member).2
    · cases isDefault with
      | none => trivial
      | some same => exact (bodyAll_iff _).mpr same.1
  · rintro ⟨_, inArms, inDefault⟩
    rw [Stmt.erase, Stmt.erase, is.2, armErase_same areArms inArms]
    cases isDefault with
    | none => rfl
    | some same => rw [defaultErase, defaultErase, same.2 ((bodyAll_iff _).mp inDefault)]
  · refine fun placed selectorPlaced => ⟨⟨selectorPlaced, fun arm member => (placed.1 arm member).1⟩, ?_, ?_⟩
    · exact (armAll_iff _).mpr fun arm member => (bodyAll_iff _).mpr (placed.1 arm member).2
    · exact (defaultAll_iff _).mpr fun stmts member => (bodyAll_iff _).mpr (placed.2 stmts member)

theorem sequential_reads (bound : Nat) :
    Steady places (sequential bound body)
      (fun found found' => SameBody found.toList found'.toList) fun found => BodyIsPlaced places found.toList := by
  have whole {parser : Parser Stmt} (reads : Agree places parser parser SameStmt (Stmt.Uses (Expr.IsPlaced places))) :
      Steady places (parser >>= fun stmt => pure (some stmt))
        (fun found found' => SameBody found.toList found'.toList) fun found => BodyIsPlaced places found.toList := by
    refine reads.bind fun stmt stmt' same => .pure ⟨by simpa using same.1, fun structural => ?_⟩ ?_
    · rw [Option.toList_some, Option.toList_some, bodyErase, bodyErase, same.2 (structural stmt (by simp)), bodyErase,
        bodyErase]
    · simp [BodyIsPlaced]
  have captured {parser parser' : Parser Captured} (reads : Agree places parser parser' (fun _ _ => True) fun _ => True) :
      Agree places (parser >>= fun statement => pure (some (Stmt.captured statement)))
        (parser' >>= fun statement => pure (some (Stmt.captured statement)))
        (fun found found' => SameBody found.toList found'.toList) fun found => BodyIsPlaced places found.toList := by
    refine reads.andThen fun statement _ _ => .pure ⟨?_, fun structural => ?_⟩ ?_
    · simp [Stmt.IsParsed, Stmt.All, Stmt.ParsedNode]
    · exact absurd (structural (.captured statement) (by simp)) id
    · simp [BodyIsPlaced, Stmt.Uses, Stmt.All, Stmt.UsesNode]
  refine .look fun first first' _ => acceptLabel_reads.andThen fun _ _ _ => .look fun token other _ => ?_
  refine .ite (fun _ => whole (ifStatement_reads inner bound)) fun _ => ?_
  refine .ite (fun _ => whole (caseStatement_reads inner bound)) fun _ => .ite (fun _ => ?_) fun _ => ?_
  · exact advance_reads.andThen fun _ _ _ => .expectSymbol <| .pure .nil (by simp [BodyIsPlaced])
  refine .ite (fun _ => captured (captureLoop_reads _ _)) fun _ => ?_
  dsimp only
  cases capturedKind? token.lexeme with
  | some kind => exact captured (captureStatement_reads kind _ _)
  | none => exact .ite (fun _ => whole (assignment_reads bound)) fun _ => (fail_fails _).reads

end Bodies

theorem statements_reads (bound : Nat) (closing : List String) (construct : String) (opened opened' : Nat) :
    Agree places (statements bound closing construct opened) (statements bound closing construct opened') SameBody
      (BodyIsPlaced places) := by
  induction bound generalizing closing construct opened opened' with
  | zero => exact (failAt_fails _ _).reads
  | succ bound ih =>
    refine .look fun token other _ => .ite (fun _ => .pure .nil (by simp [BodyIsPlaced])) fun _ => ?_
    refine .unless (failAt_fails _ _) <| (sequential_reads ih bound).bind fun _ _ isFirst => ?_
    exact (ih _ _ _ _).bind fun _ _ areRest => .pure (isFirst.append areRest)
      fun rest first => forall_mem_append.mpr ⟨first, rest⟩


/-! ### Design files -/

theorem expectEnd_reads (construct name : String) (opened opened' : Nat) :
    Agree places (expectEnd construct name opened) (expectEnd construct name opened') Eq fun _ => True := by
  have ends : Steady places (do let _ ← expectSymbol ";") Eq fun _ => True := .expectSymbol <| .pure rfl trivial
  refine .look fun _ _ _ => .unless (failAt_fails _ _) ?_
  refine .expectKeyword <| (acceptKeyword_reads _).same fun _ => .look fun token other _ => ?_
  obtain ⟨lexeme, line, start, stop⟩ := token
  cases lexeme with
  | identifier closing => exact advance_reads.andThen fun _ _ _ => .unless (failAt_fails _ _) <| ends
  | _ => exact ends

theorem portMode_reads : Steady places portMode Eq fun _ => True := by
  refine .ifKeyword (.pure rfl trivial) ?_
  refine .ifKeyword (.pure rfl trivial) ?_
  refine .ifKeyword (.pure rfl trivial) ?_
  refine .ifKeyword (.pure rfl trivial) ?_
  exact .look fun _ _ _ => .unless (refuse_fails _ _) <| .pure rfl trivial

theorem declared_same {δ : Type} {related : δ → δ → Prop} (same : Forall₂ SameName names names')
    {decl decl' : String × Nat → δ}
    (each : ∀ name line line', isLegalName name = true → related (decl (name, line)) (decl' (name, line'))) :
    Forall₂ related (names.map decl) (names'.map decl') := by
  rw [List.forall₂_map_left_iff, List.forall₂_map_right_iff]
  refine same.imp fun name name' isName => ?_
  obtain ⟨spelling, line⟩ := name
  obtain ⟨_, line'⟩ := name'
  obtain ⟨legal, rfl⟩ := isName
  exact each spelling line line' legal

theorem portGroup_reads (bound : Nat) : Steady places (portGroup bound)
    (Forall₂ (SameBy Port.IsParsed Port.erase)) fun _ => True := by
  refine (identifiers_reads bound).andThen fun names names' areNames => .expectSymbol ?_
  refine portMode_reads.same fun direction => (typeMark_reads bound).andThen fun mark mark' isMark => ?_
  have ports : Forall₂ (SameBy Port.IsParsed Port.erase)
      (names.map fun name => ⟨name.1, direction, mark, name.2⟩)
      (names'.map fun name => ⟨name.1, direction, mark', name.2⟩) :=
    declared_same areNames.2 fun name line line' legal => ⟨⟨legal, isMark.1⟩, by simp only [Port.erase, isMark.2]⟩
  refine .ifSymbol ?_ <| .pure ports trivial
  exact (expression_reads bound).andThen fun _ _ _ => (note_reads _ _).same fun _ => .pure ports trivial

theorem ports_reads (bound : Nat) : Steady places (ports bound)
    (Forall₂ (SameBy Port.IsParsed Port.erase)) fun _ => True :=
  (separated_reads (portGroup_reads bound) bound).andThen fun _ _ groups => .pure (List.rel_flatten groups.2) trivial

abbrev SameEntity : Entity TypeMark → Entity TypeMark → Prop := SameBy Entity.IsParsed Entity.erase

theorem entity_reads (bound : Nat) : Steady places (entity bound) SameEntity fun _ => True := by
  refine (expectKeyword_reads _).andThen fun opening opening' _ => expectIdentifier_reads.andThen fun name name' isName => ?_
  obtain ⟨name, line⟩ := name
  obtain ⟨_, line'⟩ := name'
  obtain ⟨legal, rfl⟩ := isName
  have ends {ports ports' : List (Port TypeMark)}
      (same : Forall₂ (SameBy Port.IsParsed Port.erase) ports ports') : Agree places (do
      let token ← peek
      if token.isKeyword "begin" then refuse token.line .entityStatements
      expectEnd "entity" name opening.line
      return (⟨name, ports, opening.line⟩ : Entity TypeMark)) (do
      let token ← peek
      if token.isKeyword "begin" then refuse token.line .entityStatements
      expectEnd "entity" name opening'.line
      return (⟨name, ports', opening'.line⟩ : Entity TypeMark)) SameEntity fun _ => True := by
    refine .look fun _ _ _ => .unless (refuse_fails _ _) <|
      (expectEnd_reads _ _ _ _).same fun _ => .pure ⟨⟨legal, (SameBy.all same).1⟩, ?_⟩ trivial
    rw [Entity.erase, Entity.erase, (SameBy.all same).2]
  refine .expectKeyword <| .look fun _ _ _ => ?_
  refine .unless (refuse_fails _ _) <| (acceptKeyword_reads _).same fun _ => ?_
  refine .ite (fun _ => ?_) fun _ => ends .nil
  exact .expectSymbol <| (ports_reads bound).andThen fun ports ports' same =>
    .expectSymbol <| .expectSymbol <| ends same

theorem initial_reads (bound : Nat) : Steady places (initial bound) (Option.Rel SameExpr)
    fun found => ∀ value ∈ found, value.IsPlaced places :=
  .ifSymbol ((expression_reads bound).bind fun _ _ same => .pure (.some same) fun placed => by simpa using placed) <| .pure .none (by simp)

def InitsArePlaced (places : Nat → Prop) (decls : List (ObjectDecl TypeMark)) : Prop :=
  ∀ decl ∈ decls, ∀ value ∈ decl.init, value.IsPlaced places

abbrev SameObject : ObjectDecl TypeMark → ObjectDecl TypeMark → Prop := SameBy ObjectDecl.IsParsed ObjectDecl.erase

theorem objectGroup_reads (bound : Nat) : Steady places (objectGroup bound)
    (Forall₂ SameObject) (InitsArePlaced places) := by
  refine (identifiers_reads bound).andThen fun names names' areNames => .expectSymbol ?_
  refine (typeMark_reads bound).andThen fun mark mark' isMark => (initial_reads bound).bind fun init init' isInit => ?_
  refine .expectSymbol <| .pure ?_ fun placed => List.forall_mem_map.mpr fun _ _ => placed
  refine declared_same areNames.2 fun name line line' legal => ?_
  cases isInit with
  | none => exact ⟨⟨legal, isMark.1, by simp⟩, by simp only [ObjectDecl.erase, isMark.2]⟩
  | some same =>
    exact ⟨⟨legal, isMark.1, by simpa using same.1⟩, by simp only [ObjectDecl.erase, isMark.2, Option.map_some, same.2]⟩

theorem constantGroup_reads (bound : Nat) : Steady places (constantGroup bound)
    (Forall₂ (SameBy ConstantDecl.IsParsed ConstantDecl.erase)) fun _ => True := by
  refine (identifiers_reads bound).andThen fun names names' areNames => .expectSymbol ?_
  refine (typeMark_reads bound).andThen fun mark mark' isMark => .expectSymbol ?_
  refine (expression_reads bound).andThen fun value value' same => .expectSymbol ?_
  exact .pure (declared_same areNames.2 fun name line line' legal =>
    ⟨⟨legal, isMark.1, same.1⟩, by simp only [ConstantDecl.erase, isMark.2, same.2]⟩) trivial

theorem enumDecl_reads (bound line line' : Nat) : Agree places (enumDecl bound line) (enumDecl bound line')
    (SameBy EnumDecl.IsParsed EnumDecl.erase) fun _ => True := by
  refine expectIdentifier_reads.andThen fun name name' isName => .expectKeyword ?_
  refine (acceptSymbol_reads _).same fun _ => .unless (refuse_fails _ _) ?_
  refine (identifiers_reads bound).andThen fun literals literals' areLiterals => ?_
  refine .expectSymbol <| .expectSymbol <| .pure ?_ trivial
  obtain ⟨legal, same⟩ := SameBy.all areLiterals.2
  refine ⟨⟨isName.1, by simpa using areLiterals.1, List.forall_mem_map.mpr legal⟩, ?_⟩
  simp only [EnumDecl.erase, isName.2, same]

structure SameDeclarations (declared other : Declarations) : Prop where
  signals : Forall₂ SameObject declared.signals other.signals
  constants : Forall₂ (SameBy ConstantDecl.IsParsed ConstantDecl.erase) declared.constants other.constants
  enums : Forall₂ (SameBy EnumDecl.IsParsed EnumDecl.erase) declared.enums other.enums

theorem declarations_reads (name : String) (opened opened' bound : Nat) :
    Agree places (declarations name opened bound) (declarations name opened' bound) SameDeclarations fun _ => True := by
  induction bound with
  | zero => exact (failAt_fails _ _).reads
  | succ bound ih =>
    refine .look fun token other _ => .ite (fun _ => .pure ⟨.nil, .nil, .nil⟩ trivial) fun _ => ?_
    refine .unless (failAt_fails _ _) ?_
    refine .ifKeyword ?_ ?_
    · exact (objectGroup_reads bound).andThen fun _ _ group => ih.andThen fun _ _ rest =>
        .pure ⟨List.rel_append group rest.signals, rest.constants, rest.enums⟩ trivial
    refine .ifKeyword ?_ ?_
    · exact (constantGroup_reads bound).andThen fun _ _ group => ih.andThen fun _ _ rest =>
        .pure ⟨rest.signals, List.rel_append group rest.constants, rest.enums⟩ trivial
    refine .ifKeyword ?_ ?_
    · exact (enumDecl_reads bound _ _).andThen fun _ _ enum => ih.andThen fun _ _ rest =>
        .pure ⟨rest.signals, rest.constants, .cons enum rest.enums⟩ trivial
    dsimp only
    cases unsupportedDeclaration? token.lexeme with
    | some description => exact (refuse_fails _ _).reads
    | none => exact (fail_fails _).reads

theorem processVars_reads (opened opened' bound : Nat) :
    Agree places (processVars opened bound) (processVars opened' bound) (Forall₂ SameObject)
      (InitsArePlaced places) := by
  induction bound with
  | zero => exact (failAt_fails _ _).reads
  | succ bound ih =>
    refine .look fun token other _ => .ite (fun _ => .pure .nil (by simp [InitsArePlaced])) fun _ => ?_
    refine .unless (failAt_fails _ _) <| (acceptKeyword_reads _).same fun _ => ?_
    refine .unless (refuse_fails _ _) <| (objectGroup_reads bound).bind fun _ _ group => ?_
    exact ih.bind fun _ _ rest => .pure (List.rel_append group rest)
      fun others first => forall_mem_append.mpr ⟨first, others⟩

theorem sensitivity_reads (bound opened opened' : Nat) :
    Agree places (sensitivity bound opened) (sensitivity bound opened') (fun found found' => found = found' ∧
      ∀ names, found = .listed names → names ≠ [] ∧ ∀ name ∈ names, isLegalName name = true) fun _ => True := by
  refine (acceptSymbol_reads _).same fun _ => .unless (refuse_fails _ _) ?_
  refine .ifKeyword ?_ ?_
  · exact .expectSymbol <| .pure ⟨rfl, by rintro _ ⟨⟩⟩ trivial
  · refine (identifiers_reads bound).andThen fun names names' areNames => .expectSymbol ?_
    obtain ⟨legal, same⟩ := SameBy.all areNames.2
    refine .pure ⟨by rw [same], ?_⟩ trivial
    rintro _ ⟨⟩
    exact ⟨by simpa using areNames.1, List.forall_mem_map.mpr legal⟩

/-- Parsed statements that are the same but for lines and places, unless text is captured in them. -/
def SameConcurrent (stmt other : Concurrent TypeMark) : Prop :=
  stmt.IsParsed ∧ (stmt.IsStructural → stmt.erase = other.erase)

theorem processBlock_reads (bound : Nat) (legal : ∀ name ∈ label, isLegalName name = true) (line line' : Nat)
    : Agree places (processBlock bound label line) (processBlock bound label line')
      (fun found found' => SameConcurrent (.process found) (.process found'))
      fun found => Concurrent.IsPlaced places (.process found) := by
  refine (expectKeyword_reads _).andThen fun opening opening' _ => (sensitivity_reads bound _ _).andThen fun list list' isList => ?_
  refine (acceptKeyword_reads _).same fun _ => (processVars_reads _ _ bound).bind fun vars vars' areVars => ?_
  refine .expectKeyword <| (statements_reads bound _ _ _ _).bind fun body body' isBody => ?_
  refine .expectKeyword <| (acceptKeyword_reads _).same fun _ => ?_
  refine .unless (failAt_fails _ _) <| skipIdentifier_reads.same fun _ => ?_
  obtain ⟨varsParsed, sameVars⟩ := SameBy.all areVars
  refine .expectSymbol <| .pure ⟨⟨legal, isList.2, varsParsed, isBody.1⟩, fun structural => ?_⟩
    fun bodyPlaced varsPlaced => ⟨varsPlaced, bodyPlaced⟩
  simp only [Concurrent.erase, ProcessBlock.erase, isList.1, sameVars, isBody.2 structural]

theorem choices_reads (bound : Nat) (same : SameExpr value value') :
    Agree places (choices value bound) (choices value' bound) (fun found found' =>
      Forall₂ (fun choice choice' => SameExpr choice.1 choice'.1 ∧ SameExpr choice.2 choice'.2) found.1 found'.1 ∧
        SameExpr found.2 found'.2) fun found => value.IsPlaced places →
      (∀ choice ∈ found.1, choice.1.IsPlaced places ∧ choice.2.IsPlaced places) ∧ found.2.IsPlaced places := by
  induction bound generalizing value value' with
  | zero => exact .pure ⟨.nil, same⟩ fun placed => ⟨by simp, placed⟩
  | succ bound ih =>
    refine .ifKeyword ?_ <| .pure ⟨.nil, same⟩ fun placed => ⟨by simp, placed⟩
    refine (expression_reads bound).bind fun condition condition' isCondition => ?_
    refine (acceptKeyword_reads _).same fun _ => .unless (fail_fails _) ?_
    refine (expression_reads bound).bind fun next next' isNext => (ih isNext).bind fun found found' related => ?_
    refine .pure ⟨.cons ⟨same, isCondition⟩ related.1, related.2⟩ ?_
    intro rest nextPlaced conditionPlaced valuePlaced
    exact ⟨forall_mem_cons.mpr ⟨⟨valuePlaced, conditionPlaced⟩, (rest nextPlaced).1⟩, (rest nextPlaced).2⟩

theorem concurrentAssignment_reads (bound : Nat) : Steady places (concurrentAssignment bound)
    SameConcurrent (Concurrent.IsPlaced places) := by
  refine .look fun first first' _ => (target_reads bound).bind fun target target' isTarget => ?_
  refine .look fun _ _ _ => .unless (refuse_fails _ _) <| .expectSymbol ?_
  refine (expression_reads bound).bind fun value value' isValue => (choices_reads bound isValue).bind fun found found' related => ?_
  obtain ⟨chosen, last⟩ := found
  obtain ⟨chosen', last'⟩ := found'
  obtain ⟨areChosen, isLast⟩ := related
  have parsed : ∀ choice ∈ chosen, choice.1.IsParsed ∧ choice.2.IsParsed :=
    all_of_forall₂ areChosen fun _ _ same => ⟨same.1.1, same.2.1⟩
  have sameChosen : chosen.map (fun choice => (choice.1.erase, choice.2.erase)) =
      chosen'.map fun choice => (choice.1.erase, choice.2.erase) :=
    map_eq_of_forall₂ areChosen fun _ _ _ same => by rw [same.1.2, same.2.2]
  refine skipDelay_reads.same fun _ => .expectSymbol ?_
  cases areChosen with
  | nil =>
    refine .pure ⟨⟨isTarget.1, isLast.1⟩, fun _ => ?_⟩
      fun inside valuePlaced targetPlaced => ⟨targetPlaced, (inside valuePlaced).2⟩
    simp only [Concurrent.erase, isTarget.2, isLast.2]
  | cons =>
    refine .pure ⟨⟨isTarget.1, List.cons_ne_nil _ _, parsed, isLast.1⟩, fun _ => ?_⟩
      fun inside valuePlaced targetPlaced => ⟨targetPlaced, inside valuePlaced⟩
    simp only [Concurrent.erase, isTarget.2, isLast.2, sameChosen]

theorem concurrent_reads (bound : Nat) :
    Steady places (concurrent bound) SameConcurrent (Concurrent.IsPlaced places) := by
  have captured {kind : CapturedKind} {first first' : Token} :
      Agree places (captureStatement kind first >>= fun statement => pure (.captured statement))
        (captureStatement kind first' >>= fun statement => pure (.captured statement)) SameConcurrent
        (Concurrent.IsPlaced places) :=
    (captureStatement_reads kind first first').andThen fun _ _ _ => .pure ⟨trivial, False.elim⟩ trivial
  refine .look fun first first' _ => acceptLabel_reads.andThen fun label label' isLabel => .look fun token other _ => ?_
  obtain ⟨legal, rfl⟩ := isLabel
  refine .ite (fun _ => ?_) fun _ => .ite (fun _ => captured) fun _ => .unless (refuse_fails _ _) ?_
  · exact (processBlock_reads bound legal _ _).bind fun _ _ same => .pure same id
  refine .unless (refuse_fails _ _) <| .unless (refuse_fails _ _) ?_
  exact .ite (fun _ => captured) fun _ => .ite (fun _ => concurrentAssignment_reads bound) fun _ => (fail_fails _).reads

theorem concurrents_reads (name : String) (opened opened' bound : Nat) :
    Agree places (concurrents name opened bound) (concurrents name opened' bound) (Forall₂ SameConcurrent)
      fun found => ∀ stmt ∈ found, stmt.IsPlaced places := by
  induction bound with
  | zero => exact (failAt_fails _ _).reads
  | succ bound ih =>
    refine .look fun token other _ => .ite (fun _ => .pure .nil (by simp)) fun _ => ?_
    refine .unless (failAt_fails _ _) <| (concurrent_reads bound).bind fun _ _ isFirst => ?_
    exact ih.bind fun _ _ areOthers => .pure (.cons isFirst areOthers)
      fun others first => forall_mem_cons.mpr ⟨first, others⟩


/-! ### Statements apart -/

theorem Agree.and {holds : α → Prop} (reads : Agree places parser other post placed)
    (runs : Ensures (fun cursor => ∃ other, cursor.Alike other) parser holds) :
    Agree places parser other (fun value value' => post value value' ∧ holds value) placed := by
  intro first second alike value after ok
  obtain ⟨value', after', ok', alike', related, rest⟩ := reads first second alike value after ok
  exact ⟨value', after', ok', alike', ⟨related, (runs first ⟨second, alike⟩ value after ok).2⟩, rest⟩

theorem Agree.placed {placed : (Nat → Prop) → α → Prop}
    (reads : ∀ places, Agree places parser other post (placed places)) (alike : first.Alike second)
    (ok : (parser first).result = .ok (value, after)) :
    (∃ next, after.Alike next) ∧ placed (· ∈ first.ahead.map Token.start) value ∧
      placed (· ∉ after.ahead.map Token.start) value := by
  obtain ⟨_, next, _, alike', _, passed, isAhead, inside⟩ := reads (· ∈ first.ahead.map Token.start) _ _ alike _ _ ok
  obtain ⟨_, _, _, _, _, passed', isAhead', outside⟩ := reads (· ∉ after.ahead.map Token.start) _ _ alike _ _ ok
  refine ⟨⟨next, alike'⟩, inside fun token isPassed => ?_, outside fun token isPassed isAfter => ?_⟩
  · rw [isAhead]
    exact List.mem_map_of_mem (List.mem_append_left _ isPassed)
  · have distinct := alike.distinct
    rw [isAhead', List.map_append] at distinct
    exact (List.nodup_append.mp distinct).2.2 _ (List.mem_map_of_mem isPassed) _ isAfter rfl

theorem concurrents_apart (name : String) (opened bound : Nat) :
    Ensures (fun cursor => ∃ other, cursor.Alike other) (concurrents name opened bound)
      (List.Pairwise Concurrent.Apart) := by
  have looks : Ensures (fun cursor : Cursor => ∃ other, cursor.Alike other) peek fun _ => True := by
    rintro cursor kept _ _ ⟨⟩
    exact ⟨kept, trivial⟩
  induction bound with
  | zero => exact .throw _
  | succ bound ih =>
    refine looks.andThen fun token => .ite (fun _ => .pure .nil) fun _ => .ite (fun _ => .exits (.throw _)) fun _ => ?_
    rintro cursor ⟨other, alike⟩ result after ok
    obtain ⟨first, between, firstOk, ok⟩ := bind_apply_eq_ok.mp ok
    obtain ⟨rest, _, restOk, ⟨⟩⟩ := bind_apply_eq_ok.mp ok
    obtain ⟨⟨next, alike'⟩, _, outside⟩ := Agree.placed (fun _ => concurrent_reads bound) alike firstOk
    obtain ⟨kept, apart⟩ := ih between ⟨next, alike'⟩ rest after restOk
    obtain ⟨_, inside, _⟩ := Agree.placed (fun _ => concurrents_reads name opened opened bound) alike' restOk
    refine ⟨kept, List.pairwise_cons.mpr ⟨fun stmt member => ⟨_, outside, ?_⟩, apart⟩⟩
    simpa only [not_not] using inside stmt member

/-- Parsed architectures that are the same but for lines and places, unless text is captured in them; no two statements
have aggregates at one place. -/
structure SameArchitecture (entityName : String) (body other : Architecture TypeMark) : Prop where
  parsed : body.IsParsed
  named : body.entityName = entityName
  apart : body.statements.Pairwise Concurrent.Apart
  same : (∀ stmt ∈ body.statements, stmt.IsStructural) → body.erase = other.erase

theorem architecture_reads (bound : Nat) (entityName : String) :
    Steady places (architecture bound entityName) (SameArchitecture entityName) fun _ => True := by
  refine (expectKeyword_reads _).andThen fun opening opening' _ => expectIdentifier_reads.andThen fun name name' isName => ?_
  obtain ⟨name, line⟩ := name
  obtain ⟨_, line'⟩ := name'
  obtain ⟨legal, rfl⟩ := isName
  refine .expectKeyword <| expectIdentifier_reads.andThen fun of of' isOf => ?_
  obtain ⟨of, line⟩ := of
  obtain ⟨_, line'⟩ := of'
  obtain ⟨_, rfl⟩ := isOf
  refine .unless (failAt_fails _ _) <| .expectKeyword ?_
  refine (declarations_reads _ _ _ bound).andThen fun declared declared' areDeclared => ?_
  refine .expectKeyword ?_
  refine ((concurrents_reads _ _ _ bound).and (concurrents_apart _ _ bound)).andThen fun stmts stmts' areStmts => ?_
  obtain ⟨signals, sameSignals⟩ := SameBy.all areDeclared.signals
  obtain ⟨constants, sameConstants⟩ := SameBy.all areDeclared.constants
  obtain ⟨enums, sameEnums⟩ := SameBy.all areDeclared.enums
  refine (expectEnd_reads _ _ _ _).same fun _ => .pure ⟨⟨legal, signals, constants, enums, ?_⟩, rfl, areStmts.2, ?_⟩ trivial
  · exact all_of_forall₂ areStmts.1 fun _ _ same => same.1
  · intro structural
    simp only [Architecture.erase, sameSignals, sameConstants, sameEnums]
    rw [map_eq_of_forall₂ areStmts.1 fun stmt member _ same => same.2 (structural stmt member)]

def SameFile (file other : Option (Entity TypeMark) × Option (Architecture TypeMark)) : Prop :=
  Option.Rel SameEntity file.1 other.1 ∧ (file.2 = none ∧ other.2 = none ∨ ∃ unit body body',
    file.1 = some unit ∧ file.2 = some body ∧ other.2 = some body' ∧ SameArchitecture unit.name body body')

theorem designFile_reads (bound : Nat) {found found' : Option (Entity TypeMark)}
    {body body' : Option (Architecture TypeMark)} (same : SameFile (found, body) (found', body')) :
    Agree places (designFile found body bound) (designFile found' body' bound) SameFile fun _ => True := by
  induction bound generalizing found found' body body' with
  | zero => exact .pure same trivial
  | succ bound ih =>
    refine .look fun token other _ => .ite (fun _ => .pure same trivial) fun _ => ?_
    refine .ite (fun _ => skipClause_reads.same fun _ => ih same) fun _ => ?_
    obtain ⟨isFound, isBody⟩ := same
    cases isFound with
    | none =>
      obtain ⟨⟨⟩, ⟨⟩⟩ | ⟨_, _, _, ⟨⟩, _⟩ := isBody
      refine .ite (fun _ => ?_) fun _ => .ite (fun _ => (fail_fails _).reads) fun _ => ?_
      · exact .ite (fun isSome => absurd isSome (by simp)) fun _ => (entity_reads bound).andThen fun _ _ isEntity =>
          ih ⟨.some isEntity, .inl ⟨rfl, rfl⟩⟩
      · exact .ite (fun _ => (refuse_fails _ _).reads) fun _ =>
          .ite (fun _ => (refuse_fails _ _).reads) fun _ => (fail_fails _).reads
    | @some unit unit' isEntity =>
      refine .ite (fun _ => .ite (fun _ => (fail_fails _).exits) fun first => absurd rfl first) fun _ => ?_
      refine .ite (fun _ => ?_) fun _ => .ite (fun _ => (refuse_fails _ _).reads) fun _ =>
        .ite (fun _ => (refuse_fails _ _).reads) fun _ => (fail_fails _).reads
      have sameName : unit.name = unit'.name := (Entity.mk.inj isEntity.2).1
      obtain ⟨⟨⟩, ⟨⟩⟩ | ⟨_, _, _, _, ⟨⟩, ⟨⟩, _⟩ := isBody
      · refine .ite (fun isSome => absurd isSome (by simp)) fun _ => ?_
        rw [← sameName]
        exact (architecture_reads bound unit.name).andThen fun part part' isPart =>
          ih ⟨.some isEntity, .inr ⟨unit, part, part', rfl, rfl, rfl, isPart⟩⟩
      · exact .ite (fun _ => (fail_fails _).exits) fun first => absurd rfl first


end Parser

theorem parseTokens_same (alike : (Cursor.ofStream text stream).Alike (.ofStream other stream'))
    (ok : (parseTokens text stream).result = .ok unit) : ∃ unit', (parseTokens other stream').result = .ok unit' ∧
      unit.IsParsed ∧ (∀ body ∈ unit.architecture, body.statements.Pairwise Concurrent.Apart) ∧
      (unit.IsStructural → unit.erase = unit'.erase) := by
  simp only [parseTokens, Traced.result_bind] at ok
  obtain ⟨⟨⟨found, body⟩, after⟩, fileOk, ok⟩ := bind_eq_ok.mp ok
  have sameLength : stream.tokens.length = stream'.tokens.length := alike.same.length_eq
  obtain ⟨⟨found', body'⟩, after', fileOk', _, ⟨isFound, isBody⟩, _⟩ :=
    @Parser.designFile_reads (fun _ => True) stream.tokens.length _ _ _ _ ⟨.none, .inl ⟨rfl, rfl⟩⟩ _ _ alike _ _ fileOk
  rw [sameLength] at fileOk'
  simp only [parseTokens, Traced.result_bind, Parser.onTokens, StateT.run, fileOk']
  cases isFound with
  | none => cases ok
  | @some unit unit' isEntity =>
    cases ok
    refine ⟨⟨unit', body'⟩, rfl, ?_⟩
    obtain ⟨⟨⟩, ⟨⟩⟩ | ⟨_, part, part', ⟨⟩, ⟨⟩, ⟨⟩, isPart⟩ := isBody
    · exact ⟨⟨isEntity.1, by simp⟩, by simp, fun _ => by simp only [DesignUnit.erase, isEntity.2]⟩
    · refine ⟨⟨isEntity.1, ?_⟩, ?_, fun structural => ?_⟩
      · rintro _ ⟨⟩
        exact ⟨isPart.parsed, isPart.named⟩
      · rintro _ ⟨⟩
        exact isPart.apart
      · simp only [DesignUnit.erase, isEntity.2, Option.map_some, isPart.same (structural part rfl)]

theorem alike_of_tokenize (ok : tokenize text = .ok stream) (ok' : tokenize other = .ok stream')
    (same : stream'.tokens.map Token.lexeme = stream.tokens.map Token.lexeme) :
    (Cursor.ofStream text stream).Alike (.ofStream other stream') := by
  obtain ⟨scanned, distinct, stops⟩ := tokenize_scanned ok
  refine ⟨scanned, distinct, ?_, stops, (tokenize_scanned ok').2.2⟩
  rw [← List.forall₂_eq_eq_eq, List.forall₂_map_left_iff, List.forall₂_map_right_iff] at same
  exact same.flip

theorem parse_shape (ok : (parse text).result = .ok unit) :
    unit.IsParsed ∧ ∀ body ∈ unit.architecture, body.statements.Pairwise Concurrent.Apart := by
  simp only [parse, Traced.result_bind] at ok
  obtain ⟨stream, scanned, ok⟩ := bind_eq_ok.mp ok
  obtain ⟨_, _, parsed, apart, _⟩ := parseTokens_same (alike_of_tokenize scanned scanned rfl) ok
  exact ⟨parsed, apart⟩

theorem isParsed_of_parse (ok : (parse text).result = .ok unit) : unit.IsParsed := (parse_shape ok).1

theorem apart_of_parse (ok : (parse text).result = .ok unit) (is : unit.architecture = some body)
    : body.statements.Pairwise Concurrent.Apart := (parse_shape ok).2 body is

end RtlBridge.Vhdl

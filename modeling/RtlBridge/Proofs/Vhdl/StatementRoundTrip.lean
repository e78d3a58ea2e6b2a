import RtlBridge.Proofs.Vhdl.ExpressionRoundTrip

/-! Printed statements are parsed back, for statements without captured text. -/

namespace RtlBridge.Vhdl.Parser

open List

/-! ### Assignments -/

theorem target_print {target : Target} (parsed : target.IsParsed) (enough : target.print.length ≤ bound) :
    Parses (Parser.target bound) target.print (Same Target.erase target)
      (Heads (· ≠ .symbol "(")) := by
  obtain ⟨name, part, line⟩ := target
  obtain ⟨_, inside⟩ := parsed
  rw [Target.print] at enough ⊢
  refine Leads.expectIdentifier fun place => ?_
  cases part with
  | whole => refine Leads.acceptSymbol_false (Parses.pure rfl) fun rest follows => follows
  | element subscript =>
    simp only [Part.print, length_cons, length_append] at enough
    refine Leads.ifSymbol ?_
    refine Leads.bind (expression_print inside (by omega)) (fun value same => ?_) fun rest _ => follows_closing rfl _
    refine acceptDirection_none ?_ fun rest _ first head => head_eq first head ▸ by decide
    refine Leads.expectSymbol fun _ => Parses.pure ?_
    simp only [Same, Target.erase, Part.erase, same]
  | range left right =>
    simp only [Part.print, length_cons, length_append] at enough
    refine Leads.ifSymbol ?_
    refine Leads.bind (expression_print inside.1 (by omega)) (fun first firstSame => ?_) fun rest _ =>
      follows_closing rfl _
    refine Leads.token (acceptDirection_print false) ?_
    refine Leads.bind (expression_print inside.2 (by omega)) (fun second secondSame => ?_) fun rest _ =>
      follows_closing rfl _
    refine Leads.expectSymbol fun _ => Parses.pure ?_
    simp only [Same, Target.erase, Part.erase, firstSame, secondSame]

theorem assignment_print {target : Target} (targetParsed : target.IsParsed) (valueParsed : value.IsParsed)
    (immediate : Bool) (line : Nat) (enough : (Stmt.assign target value immediate line).print.length ≤ bound) :
    Parses (assignment bound) (Stmt.assign target value immediate line).print
      (Same Stmt.erase (.assign target value immediate line)) follow := by
  rw [Stmt.print] at enough ⊢
  simp only [length_cons, length_append] at enough
  refine Leads.look fun token => ?_
  refine Leads.bind (target_print targetParsed (by omega)) (fun place placeSame => ?_) fun rest _ =>
    head_ne (by cases immediate <;> simp)
  have goesOn : Parses (do
      let value ← expression bound
      skipDelay
      let _ ← expectSymbol ";"
      return Stmt.assign place value immediate token.line) (value.print loosest ++ [.symbol ";"])
      (Same Stmt.erase (.assign target value immediate line)) follow := by
    refine Leads.bind (expression_print valueParsed (by omega)) (fun found same => ?_) fun rest _ =>
      follows_closing rfl _
    refine Leads.skipDelay (Leads.expectSymbol fun _ => Parses.pure ?_) fun rest _ => head_ne (by simp)
    simp only [Same, Stmt.erase, placeSame, same]
  cases immediate with
  | false => exact Leads.ifSymbol goesOn
  | true => exact Leads.elseSymbol (Leads.skip rfl (Leads.ifSymbol goesOn))

/-! ### Bodies -/

def Closes (closing : List String) (rest : List Lexeme) : Prop :=
  ∃ word after, rest = .keyword word :: after ∧ word ∈ closing

def BodyReads (body : BodyParser) (stmts : List Stmt) : Prop :=
  ∀ closing construct opened, (∀ word ∈ closing, word ∈ ["elsif", "else", "end", "when"]) →
    Parses (body closing construct opened) (bodyPrint stmts) (fun found => bodyErase found = bodyErase stmts)
      (Closes closing)

def IsStmtReadBack (stmt : Stmt) : Prop :=
  ∀ bound, stmt.print.length ≤ bound →
    Parses (sequential bound (statements bound)) stmt.print
      (fun found => found.map Stmt.erase = some stmt.erase) fun _ => True

def isStatementStart : Lexeme → Bool
  | .identifier _ => true
  | .keyword word => word = "if" || word = "case"
  | _ => false

theorem isKeywordIn_of_isStatementStart {first : Lexeme}
    (known : ∀ word ∈ closing, word ∈ ["elsif", "else", "end", "when"]) (starts : isStatementStart first = true) :
    Token.isKeywordIn ⟨first, line, start, stop⟩ closing = false := by
  cases first with
  | keyword word =>
    simp only [isStatementStart, Bool.or_eq_true, decide_eq_true_eq] at starts
    show closing.contains word = false
    rw [contains_eq_mem, decide_eq_false_iff_not]
    intro member
    have closes := known word member
    rcases starts with rfl | rfl <;> simp at closes
  | _ => rfl

theorem isEnd_of_isStatementStart {first : Lexeme} (starts : isStatementStart first = true) :
    Token.isEnd ⟨first, line, start, stop⟩ = false := by cases first <;> first | rfl | cases starts

theorem statements_print (reads : ∀ stmt ∈ stmts, IsStmtReadBack stmt)
    (starts : ∀ stmt ∈ stmts, ∃ first others, stmt.print = first :: others ∧ isStatementStart first = true)
    (enough : (bodyPrint stmts).length < bound) : BodyReads (statements bound) stmts := by
  intro closing construct opened known
  induction stmts generalizing bound with
  | nil =>
    obtain ⟨bound, rfl⟩ : ∃ b, bound = b + 1 := ⟨bound - 1, by omega⟩
    rw [statements]
    refine Leads.peek_end (fun lexeme => ∃ word ∈ closing, lexeme = .keyword word) ?_ ?_
    · rintro token ⟨word, member, spells⟩
      have closes : token.isKeywordIn closing = true := by
        rw [Token.isKeywordIn, spells]
        exact elem_eq_true_of_mem member
      exact Leads.pass closes (Parses.pure rfl)
    · rintro _ ⟨word, after, rfl, member⟩ lexeme head
      exact ⟨word, member, (Option.some.inj head).symm⟩
  | cons stmt rest ih =>
    rw [bodyPrint, length_append] at enough
    obtain ⟨first, others, spelled, isStart⟩ := starts stmt (mem_cons_self ..)
    have positive : 0 < stmt.print.length := by simp [spelled]
    obtain ⟨bound, rfl⟩ : ∃ b, bound = b + 1 := ⟨bound - 1, by omega⟩
    have here := reads stmt (mem_cons_self ..) bound (by omega)
    have fits : (bodyPrint rest).length < bound := by omega
    have later := ih (fun s member => reads s (mem_cons_of_mem stmt member))
      (fun s member => starts s (mem_cons_of_mem stmt member)) fits
    rw [statements, bodyPrint, spelled]
    rw [spelled] at here
    refine Leads.peek fun line start stop => Leads.skip (isKeywordIn_of_isStatementStart known isStart)
      (Leads.skip (isEnd_of_isStatementStart isStart) ?_)
    refine Leads.bind here (fun found same => ?_) fun _ _ => trivial
    refine Parses.map later fun founds sames => ?_
    obtain ⟨value, rfl, valueSame⟩ := Option.map_eq_some_iff.mp same
    rw [bodyErase_append, sames, Option.toList_some, bodyErase, bodyErase, valueSame, bodyErase]
    rfl

/-! ### Conditionals -/

theorem expectEndOf_leads {α : Type} {next : Unit → Parser α} {cont : Parser α → Prop}
    (goesOn : Leads (next ()) others cont follow) :
    Leads (expectEndOf construct opened >>= next) (.keyword "end" :: .keyword construct :: others) cont
      follow := by
  rw [expectEndOf, bind_assoc]
  refine Leads.expectKeyword fun _ => ?_
  rw [bind_assoc]
  exact Leads.acceptKeyword goesOn

theorem closes_cons (member : word ∈ closing) (rest : List Lexeme) : Closes closing (.keyword word :: rest) := ⟨word, rest, rfl, member⟩

theorem Closes.mono (closes : Closes small rest) (subset : ∀ word ∈ small, word ∈ large) : Closes large rest := by
  obtain ⟨word, after, rfl, member⟩ := closes
  exact closes_cons (subset word member) after

theorem Closes.ne (closes : Closes closing rest) (other : word ∉ closing) : ∀ first ∈ rest.head?, first ≠ .keyword word := by
  obtain ⟨found, after, rfl, member⟩ := closes
  rintro first head rfl
  cases head
  exact other member

theorem conditionedBranch_print {condition : Expr} (parsed : condition.IsParsed) (reads : BodyReads body stmts)
    (enough : (condition.print loosest).length ≤ bound) (opened : Nat) :
    Parses (conditionedBranch bound body opened)
      (condition.print loosest ++ .keyword "then" :: bodyPrint stmts)
      (fun found => found.1.erase = condition.erase ∧ bodyErase found.2 = bodyErase stmts)
      (Closes ["elsif", "else", "end"]) := by
  refine Leads.bind (expression_print parsed enough) (fun value same => ?_) fun rest _ => follows_closing rfl _
  refine Leads.expectKeyword fun _ => ?_
  exact Parses.map (reads _ "if" opened (by simp)) fun found sames => ⟨same, sames⟩

theorem elsifBranches_print (parsed : ∀ branch ∈ branches, branch.1.IsParsed)
    (reads : ∀ branch ∈ branches, BodyReads body branch.2) (opened : Nat)
    (enough : (branchPrint "elsif" branches).length ≤ bound) :
    Parses (elsifBranches body opened bound) (branchPrint "elsif" branches)
      (fun found => branchErase found = branchErase branches) (Closes ["else", "end"]) := by
  induction branches generalizing bound with
  | nil =>
    cases bound with
    | zero => exact Parses.pure rfl
    | succ bound => exact Leads.acceptKeyword_false (Parses.pure rfl) fun rest closes => closes.ne (by decide)
  | cons branch rest ih =>
    obtain ⟨condition, stmts⟩ := branch
    rw [branchPrint] at enough ⊢
    simp only [length_cons, length_append] at enough
    obtain ⟨bound, rfl⟩ : ∃ b, bound = b + 1 := ⟨bound - 1, by omega⟩
    have here := conditionedBranch_print (parsed _ (mem_cons_self ..)) (reads _ (mem_cons_self ..))
      (show (condition.print loosest).length ≤ bound by omega) opened
    have later := ih (fun b member => parsed b (mem_cons_of_mem _ member))
      (fun b member => reads b (mem_cons_of_mem _ member))
      (show (branchPrint "elsif" rest).length ≤ bound by omega)
    rw [elsifBranches]
    refine Leads.ifKeyword ?_
    rw [← cons_append, ← append_assoc]
    refine Leads.bind here (fun found same => ?_) fun after closes => ?_
    · refine Parses.map later fun founds sames => ?_
      rw [branchErase, branchErase, same.1, same.2, sames]
    · cases rest with
      | nil => exact closes.mono (by simp)
      | cons next rest => exact closes_cons (by simp) _

theorem otherwise_print (reads : BodyReads body otherwise) (opened : Nat) (branches : List (Expr × List Stmt)) :
    Parses (do
      let otherwise ← do
        if ← acceptKeyword "else" then body ["end"] "if" opened else pure []
      expectEndOf "if" opened
      let _ ← expectSymbol ";"
      return Stmt.conditional branches otherwise opened)
      ((if otherwise.isEmpty then [] else .keyword "else" :: bodyPrint otherwise) ++
        [.keyword "end", .keyword "if", .symbol ";"])
      (Same Stmt.erase (.conditional branches otherwise opened)) follow := by
  have ends (found : List Stmt) (same : bodyErase found = bodyErase otherwise) :
      Parses (do
        expectEndOf "if" opened
        let _ ← expectSymbol ";"
        return Stmt.conditional branches found opened) [.keyword "end", .keyword "if", .symbol ";"]
        (Same Stmt.erase (.conditional branches otherwise opened)) follow := by
    refine expectEndOf_leads (Leads.expectSymbol fun _ => Parses.pure ?_)
    simp only [Same, Stmt.erase, same]
  cases otherwise with
  | nil => exact Leads.elseKeyword (ends [] rfl)
  | cons stmt rest =>
    refine Leads.ifKeyword ?_
    exact Leads.bind (reads ["end"] "if" opened (by simp)) ends fun _ _ => closes_cons (by simp) _

theorem otherwise_closes (otherwise : List Stmt) (rest : List Lexeme) :
    Closes ["else", "end"] ((if otherwise.isEmpty then [] else .keyword "else" :: bodyPrint otherwise) ++
      [.keyword "end", .keyword "if", .symbol ";"] ++ rest) := by
  cases otherwise with
  | nil | cons stmt stmts => exact closes_cons (by simp) _

theorem ifStatement_print (present : branches ≠ []) (parsed : ∀ branch ∈ branches, branch.1.IsParsed)
    (reads : ∀ branch ∈ branches, BodyReads body branch.2) (readsLast : BodyReads body otherwise) (line : Nat)
    (enough : (Stmt.conditional branches otherwise line).print.length ≤ bound) :
    Parses (ifStatement bound body) (Stmt.conditional branches otherwise line).print
      (Same Stmt.erase (.conditional branches otherwise line)) follow := by
  cases branches with
  | nil => exact absurd rfl present
  | cons branch rest =>
    obtain ⟨condition, stmts⟩ := branch
    have shape : (Stmt.conditional ((condition, stmts) :: rest) otherwise line).print =
        .keyword "if" :: ((condition.print loosest ++ .keyword "then" :: bodyPrint stmts) ++
          (branchPrint "elsif" rest ++
            ((if otherwise.isEmpty then [] else .keyword "else" :: bodyPrint otherwise) ++
              [.keyword "end", .keyword "if", .symbol ";"]))) := by
      simp only [Stmt.print, branchPrint, cons_append, append_assoc]
    rw [shape] at enough ⊢
    simp only [length_cons, length_append] at enough
    refine Leads.expectKeyword fun token => ?_
    refine Leads.bind (conditionedBranch_print (parsed _ (mem_cons_self ..))
      (reads _ (mem_cons_self ..)) (show (condition.print loosest).length ≤ bound by omega) token.line)
      (fun first same => ?_) fun after _ => ?_
    · refine Leads.bind (elsifBranches_print (fun b member => parsed b (mem_cons_of_mem _ member))
        (fun b member => reads b (mem_cons_of_mem _ member)) token.line (by omega))
        (fun others sames => ?_) fun after _ => otherwise_closes otherwise after
      refine (otherwise_print readsLast token.line (first :: others)).imp fun found equal => equal.trans ?_
      simp only [Stmt.erase, branchErase, same.1, same.2, sames]
    · cases rest with
      | nil => exact (otherwise_closes otherwise after).mono (by simp)
      | cons next rest => exact closes_cons (by simp) _

/-! ### Selections -/

theorem choice_print {value : Expr} (parsed : value.IsParsed) (enough : (value.print loosest).length ≤ bound) :
    Parses (choice bound) (value.print loosest) (Same Expr.erase value)
      (Heads fun first => first = .symbol "|" ∨ first = .symbol "=>") := by
  rw [← append_nil (value.print loosest)]
  refine Leads.bind (expression_print parsed enough) (fun found same => ?_) fun rest ends => ?_
  · refine Leads.peek_end (fun lexeme => lexeme = .symbol "|" ∨ lexeme = .symbol "=>") (fun token ends => ?_)
      fun rest ends => ends
    have noRange : (token.isKeyword "to" || token.isKeyword "downto") = false := by
      rcases ends with spells | spells <;> simp [Token.isKeyword, spells]
    exact Leads.skip noRange (Parses.pure same)
  · intro first head rank joins
    rcases ends first head with rfl | rfl <;> cases joins

theorem choices_print {choices : List Expr} (present : choices ≠ []) (parsed : ∀ choice ∈ choices, choice.IsParsed)
    (enough : (joined "|" (choices.map fun choice => choice.print loosest)).length ≤ bound) :
    Parses (separated "|" (choice bound) bound) (joined "|" (choices.map fun choice => choice.print loosest))
      (Same (map Expr.erase) choices)
      (Heads (· = .symbol "=>")) := by
  obtain ⟨fewer, shorter⟩ := @length_le_joined _ (fun choice : Expr => choice.print loosest) "|" choices
  have each : ∀ value ∈ choices, Parses (choice bound) (value.print loosest)
      (Same Expr.erase value)
      (Heads fun first => first = .symbol "|" ∨ first = .symbol "=>") := by
    intro value member
    have short := shorter value member
    exact choice_print (parsed value member) (by omega)
  refine Parses.separated present each (fun rest first head => .inl (Option.some.inj head).symm)
    (fun rest ends => ⟨fun first head => .inr (ends first head), fun first head => ?_⟩) (by omega)
  rw [ends first head]
  simp

theorem choices_start {choices : List Expr} (present : choices ≠ [])
    (parsed : ∀ choice ∈ choices, choice.IsParsed) :
    ∃ first others, joined "|" (choices.map fun choice => choice.print loosest) = first :: others ∧
      isExpressionStart first = true := by
  cases choices with
  | nil => exact absurd rfl present
  | cons value rest =>
    obtain ⟨first, others, spelled, starts⟩ := print_starts (parsed value (mem_cons_self ..)) loosest
    exact ⟨first, _, by rw [map_cons, joined, spelled, cons_append], starts⟩

theorem alternatives_print {default : Option (List Stmt)}
    (parsed : ∀ arm ∈ arms, arm.1 ≠ [] ∧ ∀ choice ∈ arm.1, choice.IsParsed) (reads : ∀ arm ∈ arms, BodyReads body arm.2)
    (readsLast : ∀ stmts ∈ default, BodyReads body stmts) (opened : Nat)
    (enough : (armPrint arms ++ defaultPrint default).length ≤ bound) :
    Parses (alternatives body opened bound) (armPrint arms ++ defaultPrint default)
      (fun found => armErase found.1 = armErase arms ∧ defaultErase found.2 = defaultErase default)
      (Closes ["end"]) := by
  have ends (bound : Nat) : Parses (alternatives body opened bound) [] (· = ([], none)) (Closes ["end"]) := by
    cases bound with
    | zero => exact Parses.pure rfl
    | succ bound => exact Leads.acceptKeyword_false (Parses.pure rfl) fun rest closes => closes.ne (by decide)
  induction arms generalizing bound with
  | nil =>
    cases default with
    | none => exact (ends bound).mono (fun found same => by rw [same]; exact ⟨rfl, rfl⟩) fun _ closes => closes
    | some stmts =>
      simp only [armPrint, defaultPrint, nil_append, length_cons] at enough ⊢
      obtain ⟨bound, rfl⟩ : ∃ b, bound = b + 1 := ⟨bound - 1, by omega⟩
      rw [alternatives]
      refine Leads.ifKeyword ?_
      refine Leads.ifKeyword ?_
      refine Leads.expectSymbol fun _ => ?_
      rw [← append_nil (bodyPrint stmts)]
      refine Leads.bind (readsLast stmts rfl _ "case" opened (by simp)) (fun found same => ?_)
        fun _ closes => closes.mono (by simp)
      refine Parses.map (ends bound) fun later none => ?_
      subst none
      exact ⟨rfl, by rw [Option.none_or, defaultErase, defaultErase, same]⟩
  | cons arm rest ih =>
    obtain ⟨choices, stmts⟩ := arm
    obtain ⟨present, choicesParsed⟩ : choices ≠ [] ∧ ∀ choice ∈ choices, choice.IsParsed := parsed _ (mem_cons_self ..)
    have shape : armPrint ((choices, stmts) :: rest) ++ defaultPrint default =
        .keyword "when" :: (joined "|" (choices.map fun choice => choice.print loosest) ++ .symbol "=>" ::
          (bodyPrint stmts ++ (armPrint rest ++ defaultPrint default))) := by
      simp only [armPrint, cons_append, append_assoc]
    rw [shape] at enough ⊢
    simp only [length_cons, length_append] at enough
    obtain ⟨bound, rfl⟩ : ∃ b, bound = b + 1 := ⟨bound - 1, by omega⟩
    have later := ih (fun a member => parsed a (mem_cons_of_mem _ member))
      (fun a member => reads a (mem_cons_of_mem _ member))
      (show (armPrint rest ++ defaultPrint default).length ≤ bound by rw [length_append]; omega)
    rw [alternatives]
    refine Leads.ifKeyword ?_
    refine Leads.acceptKeyword_false (Leads.skip rfl ?_) fun after _ first head => ?_
    · refine Leads.bind (choices_print present choicesParsed (by omega)) (fun found same => ?_) fun _ _ => head_eq
      refine Leads.expectSymbol fun _ => ?_
      refine Leads.bind (reads _ (mem_cons_self ..) _ "case" opened (by simp)) (fun inner innerSame => ?_)
        fun after closes => ?_
      · refine Parses.map later fun others sames => ?_
        exact ⟨by rw [armErase, armErase, same, innerSame, sames.1], sames.2⟩
      · cases rest with
        | nil =>
          cases default with
          | none => exact closes.mono (by simp)
          | some stmts => exact closes_cons (by simp) _
        | cons next rest => exact closes_cons (by simp) _
    · obtain ⟨start, others, spelled, starts⟩ := choices_start present choicesParsed
      rw [spelled] at head
      cases head
      exact ne_others_of_isExpressionStart starts

theorem caseStatement_print (selectorParsed : selector.IsParsed) {default : Option (List Stmt)}
    (parsed : ∀ arm ∈ arms, arm.1 ≠ [] ∧ ∀ choice ∈ arm.1, choice.IsParsed) (reads : ∀ arm ∈ arms, BodyReads body arm.2)
    (readsLast : ∀ stmts ∈ default, BodyReads body stmts) (line : Nat)
    (enough : (Stmt.selection selector arms default line).print.length ≤ bound) :
    Parses (caseStatement bound body) (Stmt.selection selector arms default line).print
      (Same Stmt.erase (.selection selector arms default line)) follow := by
  rw [Stmt.print, ← append_assoc (armPrint arms)] at enough ⊢
  simp only [length_cons, length_append] at enough
  refine Leads.expectKeyword fun token => ?_
  refine Leads.bind (expression_print selectorParsed (by omega)) (fun value same => ?_) fun rest _ =>
    follows_closing rfl _
  refine Leads.expectKeyword fun _ => ?_
  refine Leads.bind (alternatives_print parsed reads readsLast token.line
    (by rw [length_append]; omega)) (fun found sames => ?_) fun _ _ => closes_cons (by simp) _
  refine Leads.peek fun line start stop => Leads.skip rfl ?_
  refine expectEndOf_leads (Leads.skipIdentifier (Leads.expectSymbol fun _ => Parses.pure ?_)
    fun rest _ first head => head_eq first head ▸ rfl)
  simp only [Same, Stmt.erase, same, sames.1, sames.2]

/-! ### All statements -/

section Labels

variable {α : Type} {next : Option String → Parser α} {others : List Lexeme} {cont : Parser α → Prop}
  {follow : List Lexeme → Prop}

theorem acceptLabel_keyword (goesOn : Leads (next none) (.keyword word :: others) cont follow) :
    Leads (acceptLabel >>= next) (.keyword word :: others) cont follow := by
  rw [acceptLabel, bind_assoc]
  exact Leads.peek fun line start stop => goesOn

theorem acceptLabel_name (notColon : second ≠ .symbol ":")
    (goesOn : Leads (next none) (.identifier name :: second :: others) cont follow) :
    Leads (acceptLabel >>= next) (.identifier name :: second :: others) cont follow := by
  rw [acceptLabel, bind_assoc]
  refine Leads.peek fun line start stop => ?_
  simp only [bind_assoc]
  refine Leads.peekSecond fun line start stop => ?_
  rw [if_neg (by simpa [Token.isSymbol] using notColon)]
  exact goesOn

theorem acceptLabel_label (goesOn : Leads (next (some name)) others cont follow) :
    Leads (acceptLabel >>= next) (.identifier name :: .symbol ":" :: others) cont follow := by
  rw [acceptLabel, bind_assoc]
  refine Leads.peek fun line start stop => ?_
  simp only [bind_assoc]
  refine Leads.peekSecond fun line start stop => ?_
  rw [if_pos isSymbol_mk, bind_assoc]
  refine Leads.advance fun _ _ => ?_
  rw [bind_assoc]
  exact Leads.advance fun _ _ => goesOn

end Labels

theorem target_second (target : Target) (symbol : String) (notColon : symbol ≠ ":") (rest : List Lexeme) :
    ∃ second others, target.print ++ .symbol symbol :: rest = .identifier target.name :: second :: others ∧
      second ≠ .symbol ":" := by
  obtain ⟨name, part, line⟩ := target
  cases part with
  | whole => exact ⟨.symbol symbol, rest, rfl, by simpa using notColon⟩
  | element subscript | range left right => exact ⟨.symbol "(", _, rfl, by simp⟩

theorem stmt_starts {stmt : Stmt} (parsed : stmt.IsParsed) (structural : stmt.IsStructural) :
    ∃ first others, stmt.print = first :: others ∧ isStatementStart first = true := by
  cases stmt with
  | assign target value immediate line => exact ⟨_, _, by rw [Stmt.print, Target.print, cons_append], rfl⟩
  | conditional branches otherwise line =>
    obtain ⟨⟨present, _⟩, _⟩ := parsed
    cases branches with
    | nil => exact absurd rfl present
    | cons branch rest => exact ⟨_, _, by rw [Stmt.print, branchPrint, cons_append], rfl⟩
  | selection selector arms default line => exact ⟨_, _, by rw [Stmt.print], rfl⟩
  | captured statement => exact absurd structural id

theorem length_branchPrint (member : branch ∈ branches) (word : String) :
    (bodyPrint branch.2).length < (branchPrint word branches).length := by
  induction branches generalizing word with
  | nil => simp at member
  | cons first rest ih =>
    simp only [branchPrint, length_cons, length_append]
    rcases mem_cons.mp member with rfl | later
    · omega
    · have shorter := ih later "elsif"
      omega

theorem length_armPrint (member : arm ∈ arms) : (bodyPrint arm.2).length < (armPrint arms).length := by
  induction arms with
  | nil => simp at member
  | cons first rest ih =>
    simp only [armPrint, length_cons, length_append]
    rcases mem_cons.mp member with rfl | later
    · omega
    · have shorter := ih later
      omega

theorem body_print (reads : ∀ stmt ∈ stmts, stmt.IsParsed → stmt.IsStructural → IsStmtReadBack stmt)
    (parsed : ∀ stmt ∈ stmts, stmt.IsParsed) (structural : ∀ stmt ∈ stmts, stmt.IsStructural)
    (enough : (bodyPrint stmts).length < bound) : BodyReads (statements bound) stmts :=
  statements_print (fun stmt member => reads stmt member (parsed stmt member) (structural stmt member))
    (fun stmt member => stmt_starts (parsed stmt member) (structural stmt member)) enough

theorem some_print {stmt : Stmt} (parses : Parses parser lexemes (Same Stmt.erase stmt) fun _ => True) :
    Parses (parser >>= fun found => pure (some found)) lexemes
      (fun found => found.map Stmt.erase = some stmt.erase) fun _ => True := by
  exact Parses.map parses fun found same => by rw [Option.map_some, same]

theorem sequential_if {stmt : Stmt} (parses : Parses (ifStatement bound body) (.keyword "if" :: others)
      (Same Stmt.erase stmt) fun _ => True) :
    Parses (sequential bound body) (.keyword "if" :: others)
      (fun found => found.map Stmt.erase = some stmt.erase) fun _ => True := by
  exact Leads.look fun first => acceptLabel_keyword (Leads.peek fun line start stop =>
    Leads.pass rfl (some_print parses))

theorem sequential_case {stmt : Stmt} (parses : Parses (caseStatement bound body) (.keyword "case" :: others)
      (Same Stmt.erase stmt) fun _ => True) :
    Parses (sequential bound body) (.keyword "case" :: others)
      (fun found => found.map Stmt.erase = some stmt.erase) fun _ => True := by
  exact Leads.look fun first => acceptLabel_keyword (Leads.peek fun line start stop =>
    Leads.skip rfl (Leads.pass rfl (some_print parses)))

theorem sequential_assignment {target : Target} (targetParsed : target.IsParsed) (valueParsed : value.IsParsed)
    (immediate : Bool) (line : Nat) : IsStmtReadBack (.assign target value immediate line) := by
  intro bound enough
  have parses : Parses _ _ _ fun _ => True := assignment_print targetParsed valueParsed immediate line enough
  obtain ⟨second, others, spelled, notColon⟩ :=
    target_second target (if immediate then ":=" else "<=") (by cases immediate <;> decide)
      (value.print loosest ++ [.symbol ";"])
  rw [Stmt.print, spelled] at parses ⊢
  exact Leads.look fun first => acceptLabel_name notColon (Leads.peek fun line start stop => some_print parses)

theorem isStmtReadBack (stmt : Stmt) (parsed : stmt.IsParsed) (structural : stmt.IsStructural) :
    IsStmtReadBack stmt := by
  induction stmt using Stmt.induction with
  | assign target value immediate line => exact sequential_assignment parsed.1 parsed.2 immediate line
  | conditional branches otherwise line inBranches inOtherwise =>
    obtain ⟨⟨present, conditions⟩, branchesParsed, otherwiseParsed⟩ := parsed
    obtain ⟨_, branchesStructural, otherwiseStructural⟩ := structural
    simp only [branchAll_iff, bodyAll_iff] at branchesParsed otherwiseParsed
    simp only [branchAll_iff, bodyAll_iff] at branchesStructural otherwiseStructural
    intro bound enough
    have lengths := enough
    rw [Stmt.print, length_append, length_append] at lengths
    have branchReads : ∀ branch ∈ branches, BodyReads (statements bound) branch.2 := by
      intro branch member
      have shorter := length_branchPrint member "if"
      exact body_print (inBranches branch member) (branchesParsed branch member)
        (branchesStructural branch member) (by omega)
    have otherwiseReads : BodyReads (statements bound) otherwise := by
      refine body_print inOtherwise otherwiseParsed otherwiseStructural ?_
      cases otherwise with
      | nil => simp [bodyPrint] at lengths ⊢; omega
      | cons first rest => simp at lengths; omega
    have parses : Parses _ _ _ fun _ => True :=
      ifStatement_print present conditions branchReads otherwiseReads line enough
    cases branches with
    | nil => exact absurd rfl present
    | cons branch rest =>
      rw [Stmt.print, branchPrint, cons_append] at parses ⊢
      exact sequential_if parses
  | selection selector arms default line inArms inDefault =>
    obtain ⟨⟨selectorParsed, choices⟩, armsParsed, defaultParsed⟩ := parsed
    obtain ⟨_, armsStructural, defaultStructural⟩ := structural
    simp only [armAll_iff, defaultAll_iff, bodyAll_iff] at armsParsed defaultParsed
    simp only [armAll_iff, defaultAll_iff, bodyAll_iff] at armsStructural defaultStructural
    intro bound enough
    have lengths := enough
    simp only [Stmt.print, length_cons, length_append] at lengths
    have armReads : ∀ arm ∈ arms, BodyReads (statements bound) arm.2 := by
      intro arm member
      have shorter := length_armPrint member
      exact body_print (inArms arm member) (armsParsed arm member) (armsStructural arm member) (by omega)
    have defaultReads : ∀ stmts ∈ default, BodyReads (statements bound) stmts := by
      rintro stmts rfl
      simp only [defaultPrint, length_cons] at lengths
      exact body_print (inDefault stmts rfl) (defaultParsed stmts rfl) (defaultStructural stmts rfl) (by omega)
    have parses : Parses _ _ _ fun _ => True :=
      caseStatement_print selectorParsed choices armReads defaultReads line enough
    rw [Stmt.print] at parses ⊢
    exact sequential_case parses
  | captured statement => exact absurd structural id

end RtlBridge.Vhdl.Parser

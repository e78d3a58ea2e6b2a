import RtlBridge.Proofs.Vhdl.StatementRoundTrip

/-! Printed design units are parsed back. -/

namespace RtlBridge.Vhdl.Parser

open List

/-! ### Ports -/

theorem typeMark_print {mark : TypeMark} (parsed : mark.IsParsed) (enough : mark.print.length ≤ bound) :
    Parses (typeMark bound) mark.print (Same TypeMark.erase mark)
      (Heads fun first => first ≠ .symbol "(" ∧ first ≠ .keyword "range") := by
  obtain ⟨name, range, line⟩ := mark
  have inside := parsed.bounds
  rw [TypeMark.print] at enough ⊢
  refine Leads.expectIdentifier fun place => ?_
  cases range with
  | none =>
    refine Leads.acceptSymbol_false (Leads.skip rfl ?_) fun rest ends first head => (ends first head).1
    exact Leads.acceptKeyword_false (Parses.pure rfl) fun rest ends first head => (ends first head).2
  | some range =>
    obtain ⟨leftParsed, rightParsed⟩ := inside range rfl
    simp only [length_cons, length_append] at enough
    have parses : Parses (bounds bound name) (range.left.print loosest ++ directionLexeme range.ascending ::
        range.right.print loosest)
        (fun found => (⟨found.left.erase, found.right.erase, found.ascending⟩ : Bounds) =
          ⟨range.left.erase, range.right.erase, range.ascending⟩) (Follows loosest) := by
      refine Leads.bind (expression_print leftParsed (by omega)) (fun left leftSame => ?_) fun rest _ =>
        follows_closing (by cases range.ascending <;> rfl) _
      refine Leads.token (acceptDirection_print range.ascending) ?_
      refine Parses.map (expression_print rightParsed (by omega)) fun right rightSame => ?_
      simp only [leftSame, rightSame]
    refine Leads.ifSymbol ?_
    rw [← cons_append, ← append_assoc]
    refine Leads.bind parses (fun found same => ?_) fun rest _ => follows_closing rfl _
    refine Leads.expectSymbol fun _ => Parses.pure ?_
    simp only [Same, TypeMark.erase, Option.map_some, same]

theorem portMode_print (direction : Direction) : Parses portMode [direction.lexeme] (· = direction) fun _ => True := by
  cases direction with
  | input => exact Leads.ifKeyword (Parses.pure rfl)
  | output => exact Leads.elseKeyword (Leads.ifKeyword (Parses.pure rfl)) (by decide)
  | inout => exact Leads.elseKeyword (Leads.elseKeyword (Leads.ifKeyword (Parses.pure rfl)) (by decide)) (by decide)
  | buffer =>
    refine Leads.elseKeyword (Leads.elseKeyword (Leads.elseKeyword ?_ (by decide)) (by decide)) (by decide)
    exact Leads.ifKeyword (Parses.pure rfl)

theorem identifiers_leads {α : Type} {next : List (String × Nat) → Parser α} {cont : Parser α → Prop}
    (goesOn : ∀ line, Leads (next [(name, line)]) others cont follow)
    (notComma : ∀ rest, follow rest → ∀ first ∈ (others ++ rest).head?, first ≠ .symbol ",") :
    Leads (identifiers bound >>= next) (.identifier name :: others) cont follow := by
  have single : Parses (identifiers bound) [.identifier name] (fun found => found.map Prod.fst = [name])
      (Heads (· ≠ .symbol ",")) :=
    Parses.identifiers (cons_ne_nil name []) (fun rest ends => ends) (by simp)
  rw [← singleton_append]
  refine Leads.bind single (fun found same => ?_) notComma
  obtain ⟨⟨_, line⟩, rfl, rfl⟩ := map_eq_singleton_iff.mp same
  exact goesOn line

theorem portGroup_print {port : Port TypeMark} (parsed : port.type.IsParsed) (enough : port.print.length ≤ bound) :
    Parses (portGroup bound) port.print (fun found => found.map Port.erase = [port.erase])
      (Heads fun first => first = .symbol ";" ∨ first = .symbol ")") := by
  rw [Port.print] at enough ⊢
  simp only [length_cons] at enough
  refine identifiers_leads (fun line => ?_) fun rest _ => head_ne (by simp)
  refine Leads.expectSymbol fun _ => Leads.token (portMode_print port.direction) ?_
  rw [← append_nil port.type.print]
  refine Leads.bind (typeMark_print parsed (by omega)) (fun mark same => ?_) fun rest ends first head => ?_
  · refine Leads.acceptSymbol_false (Parses.pure ?_) fun rest ends first head => ?_
    · simp only [map_cons, map_nil, Port.erase, same]
    · rcases ends first head with rfl | rfl <;> simp
  · rcases ends first head with rfl | rfl <;> simp

theorem ports_print (present : list ≠ []) (parsed : ∀ port ∈ list, port.type.IsParsed)
    (enough : (joined ";" (list.map Port.print)).length ≤ bound) :
    Parses (ports bound) (joined ";" (list.map Port.print))
      (Same (map Port.erase) list)
      (Heads (· = .symbol ")")) := by
  obtain ⟨fewer, shorter⟩ := @length_le_joined _ Port.print ";" list
  have each : ∀ port ∈ list, Parses (portGroup bound) port.print
      (fun found => found.map Port.erase = [port.erase])
      (Heads fun first => first = .symbol ";" ∨ first = .symbol ")") := by
    intro port member
    have short := shorter port member
    exact portGroup_print (parsed port member) (by omega)
  have groups : Parses (separated ";" (portGroup bound) bound) (joined ";" (list.map Port.print))
      (fun found => found.map (map Port.erase) = list.map fun port => [port.erase])
      (Heads (· = .symbol ")")) := by
    refine Parses.separated present each (fun rest first head => .inl (head_eq first head))
      (fun rest ends => ⟨fun first head => .inr (ends first head), fun first head => ?_⟩) (by omega)
    rw [ends first head]
    simp
  refine Parses.map groups fun found same => ?_
  rw [Same, map_flatten, same, ← flatMap_def, map_eq_flatMap]

theorem expectEnd_print : Parses (expectEnd construct name opened)
    [.keyword "end", .keyword construct, .identifier name, .symbol ";"] (fun _ => True) fun _ => True := by
  refine Leads.peek fun line start stop => Leads.skip rfl (Leads.expectKeyword fun _ => Leads.acceptKeyword ?_)
  refine Leads.peek fun line start stop => Leads.advance fun _ _ => ?_
  rw [if_neg (not_not_intro rfl)]
  exact Leads.expectSymbol fun _ => Parses.pure trivial

theorem entity_print {unit : Entity TypeMark} (parsed : unit.IsParsed) (enough : unit.print.length ≤ bound + 1) :
    Parses (entity bound) unit.print (Same Entity.erase unit) fun _ => True := by
  obtain ⟨name, list, line⟩ := unit
  have ends (opened : Nat) (found : List (Port TypeMark)) (same : found.map Port.erase = list.map Port.erase) :
      Parses (do
        let token ← peek
        if token.isKeyword "begin" then refuse token.line .entityStatements
        expectEnd "entity" name opened
        return (⟨name, found, opened⟩ : Entity TypeMark))
        [.keyword "end", .keyword "entity", .identifier name, .symbol ";"]
        (fun found => found.erase = (⟨name, list, line⟩ : Entity TypeMark).erase) fun _ => True := by
    refine Leads.peek fun line start stop => Leads.skip rfl (Parses.map expectEnd_print fun _ _ => ?_)
    simp only [Entity.erase, same]
  rw [Entity.print] at enough ⊢
  refine Leads.expectKeyword fun token => Leads.expectIdentifier fun _ => Leads.expectKeyword fun _ => ?_
  cases list with
  | nil =>
    refine Leads.peek fun line start stop => Leads.skip rfl ?_
    exact Leads.elseKeyword (ends token.line [] rfl)
  | cons port rest =>
    simp only [isEmpty_cons, Bool.false_eq_true, if_false, cons_append, append_assoc,
      length_cons, length_append] at enough ⊢
    refine Leads.peek fun line start stop => Leads.skip rfl (Leads.ifKeyword (Leads.expectSymbol fun _ => ?_))
    refine Leads.bind (ports_print (cons_ne_nil port rest) (fun p member => (parsed.ports p member).type)
      (by omega)) (fun found same => ?_) fun _ _ => head_eq
    exact Leads.expectSymbol fun _ => Leads.expectSymbol fun _ => ends token.line found same

/-! ### Declarations -/

theorem follows_semicolon (ends : ∀ first ∈ rest.head?, first = .symbol ";") : Follows loosest rest := by
  intro first head rank joins
  rw [ends first head] at joins
  cases joins

theorem initial_print (parsed : ∀ value ∈ init, value.IsParsed) (enough : (initPrint init).length ≤ bound) :
    Parses (initial bound) (initPrint init) (Same (Option.map Expr.erase) init)
      (Heads (· = .symbol ";")) := by
  cases init with
  | none =>
    refine Leads.acceptSymbol_false (Parses.pure rfl) fun rest ends first head => ?_
    rw [ends first head]
    simp
  | some value =>
    rw [initPrint, length_cons] at enough
    rw [initPrint]
    refine Leads.ifSymbol ?_
    rw [← append_nil (value.print loosest)]
    refine Leads.bind (expression_print (parsed value rfl) (by omega)) (fun found same => Parses.pure ?_)
      fun rest => follows_semicolon
    rw [Same, Option.map_some, Option.map_some, same]

theorem initPrint_starts (init : Option Expr) (rest : List Lexeme) :
    ∀ first ∈ (initPrint init ++ [Lexeme.symbol ";"] ++ rest).head?,
      first ≠ .symbol "(" ∧ first ≠ .keyword "range" := by
  intro first head
  cases init <;> (cases head; simp)

theorem objectGroup_print {decl : ObjectDecl TypeMark} (parsed : decl.IsParsed)
    (enough : (decl.print word).length ≤ bound + 1) :
    Parses (objectGroup bound) (decl.print word).tail (fun found => found.map ObjectDecl.erase = [decl.erase])
      fun _ => True := by
  obtain ⟨name, mark, init, line⟩ := decl
  have typed : mark.IsParsed := parsed.type
  have valued : ∀ value ∈ init, value.IsParsed := parsed.init
  rw [ObjectDecl.print] at enough ⊢
  simp only [length_cons, length_append] at enough
  dsimp only
  refine identifiers_leads (fun place => Leads.expectSymbol fun _ => ?_) fun rest _ => head_ne (by simp)
  refine Leads.bind (typeMark_print typed (by omega)) (fun type typeSame => ?_) fun rest _ => initPrint_starts init rest
  refine Leads.bind (initial_print valued (by omega)) (fun value same => ?_) fun _ _ => head_eq
  refine Leads.expectSymbol fun _ => Parses.pure ?_
  simp only [map_cons, map_nil, ObjectDecl.erase, typeSame, same]

theorem constantGroup_print {decl : ConstantDecl TypeMark} (typed : decl.type.IsParsed) (valued : decl.value.IsParsed)
    (enough : decl.print.length ≤ bound + 1) :
    Parses (constantGroup bound) decl.print.tail (fun found => found.map ConstantDecl.erase = [decl.erase])
      fun _ => True := by
  rw [ConstantDecl.print] at enough ⊢
  simp only [length_cons, length_append] at enough
  refine identifiers_leads (fun place => Leads.expectSymbol fun _ => ?_) fun rest _ => head_ne (by simp)
  refine Leads.bind (typeMark_print typed (by omega)) (fun type typeSame => Leads.expectSymbol fun _ => ?_)
    fun rest _ first head => head_eq first head ▸ by decide
  refine Leads.bind (expression_print valued (by omega)) (fun value same => ?_) fun _ _ => follows_closing rfl _
  refine Leads.expectSymbol fun _ => Parses.pure ?_
  simp only [map_cons, map_nil, ConstantDecl.erase, typeSame, same]

theorem enumDecl_print {decl : EnumDecl} (present : decl.type.literals ≠ []) (enough : decl.print.length ≤ bound + 1)
    (line : Nat) :
    Parses (enumDecl bound line) decl.print.tail (Same EnumDecl.erase decl) fun _ => True := by
  rw [EnumDecl.print] at enough ⊢
  simp only [length_cons, length_append] at enough
  obtain ⟨fewer, _⟩ := @length_le_joined _ (fun literal => [Lexeme.identifier literal]) "," decl.type.literals
  refine Leads.expectIdentifier fun _ => Leads.expectKeyword fun _ => Leads.acceptSymbol (Leads.skip rfl ?_)
  have literals : Parses (identifiers bound) _ _ (Heads (· ≠ .symbol ",")) :=
    Parses.identifiers present (fun rest ends => ends) (by omega)
  refine Leads.bind literals (fun found same => ?_) fun _ _ => head_ne (by simp)
  refine Leads.expectSymbol fun _ => Leads.expectSymbol fun _ => Parses.pure ?_
  simp only [Same, EnumDecl.erase, same]

def Begins (rest : List Lexeme) : Prop := ∀ first ∈ rest.head?, first = .keyword "begin"

def Declares (signals : List (ObjectDecl TypeMark)) (constants : List (ConstantDecl TypeMark))
    (enums : List EnumDecl) (found : Declarations) : Prop :=
  found.signals.map ObjectDecl.erase = signals.map ObjectDecl.erase ∧
    found.constants.map ConstantDecl.erase = constants.map ConstantDecl.erase ∧
    found.enums.map EnumDecl.erase = enums.map EnumDecl.erase

section Declarations

variable {name : String} {opened bound : Nat} {others : List Lexeme}
  {signals : List (ObjectDecl TypeMark)} {constants : List (ConstantDecl TypeMark)} {enums : List EnumDecl}

theorem declarations_signal (parsed : decl.IsParsed) (enough : (decl.print "signal").length ≤ bound + 1)
    (later : Parses (declarations name opened bound) others (Declares signals constants enums) Begins) :
    Parses (declarations name opened (bound + 1)) (decl.print "signal" ++ others)
      (Declares (decl :: signals) constants enums) Begins := by
  refine Leads.peek fun line start stop => Leads.skip rfl (Leads.skip rfl (Leads.ifKeyword ?_))
  refine Leads.bind (objectGroup_print parsed enough) (fun group same => ?_) fun _ _ => trivial
  refine Parses.map later fun rest sames => ?_
  exact ⟨by simp [same, sames.1], sames.2⟩

theorem declarations_constant (typed : decl.type.IsParsed) (valued : decl.value.IsParsed)
    (enough : decl.print.length ≤ bound + 1)
    (later : Parses (declarations name opened bound) others (Declares signals constants enums) Begins) :
    Parses (declarations name opened (bound + 1)) (decl.print ++ others)
      (Declares signals (decl :: constants) enums) Begins := by
  refine Leads.peek fun line start stop => Leads.skip rfl (Leads.skip rfl ?_)
  refine Leads.elseKeyword (Leads.skip rfl (Leads.ifKeyword ?_))
  refine Leads.bind (constantGroup_print typed valued enough) (fun group same => ?_) fun _ _ => trivial
  refine Parses.map later fun rest sames => ?_
  exact ⟨sames.1, by simp [same, sames.2.1], sames.2.2⟩

theorem declarations_enum (present : decl.type.literals ≠ []) (enough : decl.print.length ≤ bound + 1)
    (later : Parses (declarations name opened bound) others (Declares signals constants enums) Begins) :
    Parses (declarations name opened (bound + 1)) (decl.print ++ others)
      (Declares signals constants (decl :: enums)) Begins := by
  refine Leads.peek fun line start stop => Leads.skip rfl (Leads.skip rfl ?_)
  refine Leads.elseKeyword (Leads.skip rfl (Leads.elseKeyword (Leads.skip rfl ?_)))
  refine Leads.ifKeyword ?_
  refine Leads.bind (enumDecl_print present enough line) (fun enum same => ?_) fun _ _ => trivial
  refine Parses.map later fun rest sames => ?_
  exact ⟨sames.1, sames.2.1, by simp [same, sames.2.2]⟩

theorem declarations_done (bound : Nat) :
    Parses (declarations name opened (bound + 1)) [] (Declares [] [] []) Begins := by
  rw [declarations]
  refine Leads.peek_end (· = .keyword "begin") (fun token isBegin => ?_) fun _ begins => begins
  exact Leads.pass (by simp [Token.isKeyword, isBegin]) (Parses.pure ⟨rfl, rfl, rfl⟩)

theorem declarations_print (signalsParsed : ∀ decl ∈ signals, decl.IsParsed)
    (constantsParsed : ∀ decl ∈ constants, decl.IsParsed)
    (enumsPresent : ∀ decl ∈ enums, decl.type.literals ≠ [])
    (enough : (signals.flatMap (ObjectDecl.print "signal") ++ (constants.flatMap ConstantDecl.print ++
      enums.flatMap EnumDecl.print)).length < bound) :
    Parses (declarations name opened bound)
      (signals.flatMap (ObjectDecl.print "signal") ++ (constants.flatMap ConstantDecl.print ++
        enums.flatMap EnumDecl.print))
      (Declares signals constants enums) Begins := by
  refine Parses.rounds (Declares · constants enums) (fun _ => Nat.succ_pos _)
    (fun decl member => declarations_signal (signalsParsed decl member)) (fun bound enough => ?_) enough
  refine Parses.rounds (Declares [] · enums) (fun _ => Nat.succ_pos _) (fun decl member =>
    declarations_constant (constantsParsed decl member).type (constantsParsed decl member).value) (fun bound enough => ?_) enough
  rw [← append_nil (enums.flatMap EnumDecl.print)] at enough ⊢
  refine Parses.rounds (Declares [] []) (fun _ => Nat.succ_pos _)
    (fun decl member => declarations_enum (enumsPresent decl member)) (fun bound enough => ?_) enough
  obtain ⟨less, rfl⟩ : ∃ less, bound = less + 1 := ⟨bound - 1, by omega⟩
  exact declarations_done less

end Declarations

/-! ### Processes -/

theorem processVars_print {vars : List (ObjectDecl TypeMark)} (parsed : ∀ decl ∈ vars, decl.IsParsed)
    (enough : (vars.flatMap (ObjectDecl.print "variable")).length < bound) :
    Parses (processVars opened bound) (vars.flatMap (ObjectDecl.print "variable"))
      (Same (map ObjectDecl.erase) vars) Begins := by
  rw [← append_nil (vars.flatMap _)] at enough ⊢
  refine Parses.rounds (fun vars found => map ObjectDecl.erase found = vars.map ObjectDecl.erase)
    (fun _ => Nat.succ_pos _) (fun decl member bound rest lexemes short later => ?_) (fun bound enough => ?_) enough
  · refine Leads.peek fun line start stop => Leads.skip rfl (Leads.skip rfl (Leads.acceptKeyword (Leads.skip rfl ?_)))
    refine Leads.bind (objectGroup_print (parsed decl member) short) (fun group same => ?_) fun _ _ => trivial
    refine Parses.map later fun rest sames => ?_
    rw [map_append, same, sames]
    rfl
  · obtain ⟨less, rfl⟩ : ∃ less, bound = less + 1 := ⟨bound - 1, by omega⟩
    refine Leads.peek_end (· = .keyword "begin") (fun token isBegin => ?_) fun _ begins => begins
    exact Leads.pass (by simp [Token.isKeyword, isBegin]) (Parses.pure rfl)

theorem sensitivity_print (present : ∀ names, list = .listed names → names ≠ []) (enough : list.print.length ≤ bound) :
    Parses (sensitivity bound opened) (.symbol "(" :: (list.print ++ [.symbol ")"])) (· = list) fun _ => True := by
  refine Leads.acceptSymbol (Leads.skip rfl ?_)
  cases list with
  | all =>
    refine Leads.ifKeyword ?_
    rw [pure_bind]
    exact Leads.expectSymbol fun _ => Parses.pure rfl
  | listed names =>
    obtain ⟨fewer, _⟩ := @length_le_joined _ (fun name => [Lexeme.identifier name]) "," names
    have parses : Parses (identifiers bound) _ _ (Heads (· ≠ .symbol ",")) :=
      Parses.identifiers (present names rfl) (fun rest ends => ends)
        (show names.length ≤ bound + 1 by rw [Sensitivity.print] at enough; omega)
    refine Leads.acceptKeyword_false ?_ fun rest _ first head => ?_
    · simp only [Bool.false_eq_true, if_false, pure_bind]
      refine Leads.bind parses (fun found same => ?_) fun _ _ => head_ne (by simp)
      exact Leads.expectSymbol fun _ => Parses.pure (congrArg _ same)
    · cases names with
      | nil => exact absurd rfl (present [] rfl)
      | cons name names =>
        cases head
        simp

theorem processBlock_print {block : ProcessBlock TypeMark} (parsed : block.IsParsed)
    (structural : ∀ stmt ∈ block.body, stmt.IsStructural) (enough : block.unlabelledPrint.length ≤ bound) (line : Nat) :
    Parses (processBlock bound block.label line) block.unlabelledPrint (Same ProcessBlock.erase block)
      fun _ => True := by
  obtain ⟨label, list, vars, body, place⟩ := block
  have listed : ∀ names, list = .listed names → names ≠ [] := fun names is => (parsed.sensitivity names is).1
  have declared : ∀ decl ∈ vars, decl.IsParsed := parsed.vars
  simp only [ProcessBlock.unlabelledPrint, length_cons, length_append] at enough ⊢
  have reads : BodyReads (statements bound) body := by
    have short : (bodyPrint body).length < bound := by omega
    exact body_print (fun stmt _ => isStmtReadBack stmt) parsed.body structural short
  refine Leads.expectKeyword fun token => ?_
  rw [append_cons list.print, ← cons_append]
  refine Leads.bind (sensitivity_print listed (by omega)) (fun _ is => is ▸ ?_) fun _ _ => trivial
  refine Leads.acceptKeyword_false ?_ fun rest _ first head => by cases vars <;> (cases head; simp)
  refine Leads.bind (processVars_print declared (by omega)) (fun found same => ?_) fun _ _ => head_eq
  refine Leads.expectKeyword fun _ => ?_
  refine Leads.bind (reads ["end"] "process" token.line (by simp)) (fun stmts bodySame => ?_) fun _ _ =>
    closes_cons (by simp) _
  refine Leads.expectKeyword fun _ => Leads.acceptKeyword (Leads.skip rfl ?_)
  refine Leads.skipIdentifier (Leads.expectSymbol fun _ => Parses.pure ?_) fun _ _ first head => head_eq first head ▸ rfl
  simp only [Same, ProcessBlock.erase, same, bodySame]

/-! ### Concurrent statements -/

theorem choices_values_print (lastParsed : last.IsParsed) (parsed : ∀ pair ∈ pairs, pair.1.IsParsed ∧ pair.2.IsParsed)
    (enough : (choicesPrint last pairs).length ≤ bound) (fits : bound ≤ large) :
    Parses (expression large >>= fun value => choices value bound) (choicesPrint last pairs)
      (fun found => found.1.map (fun pair => (pair.1.erase, pair.2.erase)) =
        pairs.map (fun pair => (pair.1.erase, pair.2.erase)) ∧ found.2.erase = last.erase)
      (Heads (· = .symbol ";")) := by
  induction pairs generalizing large bound with
  | nil =>
    rw [choicesPrint] at enough ⊢
    rw [← append_nil (last.print loosest)]
    refine Leads.bind (expression_print lastParsed (by omega)) (fun value same => ?_) fun _ => follows_semicolon
    cases bound with
    | zero => exact Parses.pure ⟨rfl, same⟩
    | succ bound =>
      refine Leads.acceptKeyword_false (Parses.pure ⟨rfl, same⟩) fun rest ends first head => ?_
      rw [ends first head]
      simp
  | cons pair pairs ih =>
    obtain ⟨value, condition⟩ := pair
    obtain ⟨valueParsed, conditionParsed⟩ : value.IsParsed ∧ condition.IsParsed := parsed _ (mem_cons_self ..)
    rw [choicesPrint] at enough ⊢
    simp only [length_cons, length_append] at enough
    obtain ⟨bound, rfl⟩ : ∃ less, bound = less + 1 := ⟨bound - 1, by omega⟩
    have later := ih (fun other member => parsed other (mem_cons_of_mem _ member))
      (show (choicesPrint last pairs).length ≤ bound by omega) (Nat.le_refl bound)
    refine Leads.bind (expression_print valueParsed (by omega)) (fun first firstSame => ?_) fun _ _ =>
      follows_closing rfl _
    refine Leads.ifKeyword ?_
    refine Leads.bind (expression_print conditionParsed (by omega)) (fun guard guardSame => ?_) fun _ _ => follows_closing rfl _
    refine Leads.acceptKeyword (Leads.skip rfl ?_)
    rw [← bind_assoc]
    refine Parses.map later fun found same => ?_
    simp only [map_cons, firstSame, guardSame, same, and_self]

theorem concurrentAssignment_print {target : Target} (targetParsed : target.IsParsed) (lastParsed : last.IsParsed)
    (parsed : ∀ pair ∈ pairs, pair.1.IsParsed ∧ pair.2.IsParsed) (line : Nat)
    (enough : (chosenPrint target last pairs).length ≤ bound) :
    Parses (concurrentAssignment bound) (chosenPrint target last pairs)
      (fun found => found.erase = ((if pairs.isEmpty then .assign ⟨target, last, line⟩
        else .conditional ⟨target, pairs, last, line⟩) : Concurrent TypeMark).erase)
      fun _ => True := by
  simp only [chosenPrint, length_cons, length_append] at enough ⊢
  refine Leads.look fun first => ?_
  refine Leads.bind (target_print targetParsed (by omega)) (fun found targetSame => ?_) fun _ _ => head_ne (by simp)
  refine Leads.peek fun _ _ _ => Leads.skip rfl (Leads.expectSymbol fun _ => ?_)
  rw [← bind_assoc]
  refine Leads.bind (choices_values_print lastParsed parsed (show _ ≤ bound by omega) (Nat.le_refl bound))
    (fun values same => ?_) fun _ _ => head_eq
  obtain ⟨choices, value⟩ := values
  obtain ⟨choicesSame, valueSame⟩ := same
  refine Leads.skipDelay (Leads.expectSymbol fun _ => ?_) fun _ _ => head_ne (by simp)
  have emptySame : choices.isEmpty = pairs.isEmpty := by rw [← isEmpty_map, choicesSame, isEmpty_map]
  cases empty : pairs.isEmpty with
  | true =>
    refine Leads.pass (emptySame.trans empty) (Parses.pure ?_)
    simp only [Concurrent.erase, targetSame, valueSame, if_true]
  | false =>
    refine Leads.skip (emptySame.trans empty) (Parses.pure ?_)
    simp only [Concurrent.erase, targetSame, choicesSame, valueSame, Bool.false_eq_true, if_false]

theorem concurrent_assignment {target : Target}
    (parses : Parses (concurrentAssignment bound) (chosenPrint target last pairs) good fun _ => True) :
    Parses (concurrent bound) (chosenPrint target last pairs) good fun _ => True := by
  obtain ⟨second, others, spelled, notColon⟩ := target_second target "<=" (by decide) _
  rw [chosenPrint, spelled] at parses ⊢
  exact Leads.look fun first => acceptLabel_name notColon (Leads.peek fun line start stop => parses)

theorem concurrent_process (parsed : block.IsParsed) (structural : ∀ stmt ∈ block.body, stmt.IsStructural)
    (enough : block.print.length ≤ bound) :
    Parses (concurrent bound) block.print (Same Concurrent.erase (.process block))
      fun _ => True := by
  -- Behind a label as without one, the next word decides.
  have behindLabel {other : Token → Parser (Concurrent TypeMark)} (line : Nat)
      (short : block.unlabelledPrint.length ≤ bound) :
      Parses (peek >>= fun token =>
          if token.isKeyword "process" = true then
            processBlock bound block.label line >>= fun block => pure (.process block)
          else other token)
        block.unlabelledPrint (Same Concurrent.erase (.process block)) fun _ => True := by
    refine Leads.peek fun _ _ _ => Leads.pass rfl ?_
    refine (processBlock_print parsed structural short line).map fun found same => ?_
    rw [Same, Concurrent.erase, Concurrent.erase, same]
  obtain ⟨label, list, vars, body, line⟩ := block
  cases label with
  | none => exact Leads.look fun first => acceptLabel_keyword (behindLabel first.line enough)
  | some label =>
    rw [ProcessBlock.print] at enough ⊢
    simp only [length_cons] at enough
    exact Leads.look fun first => acceptLabel_label (behindLabel first.line (by omega))

theorem concurrent_print {stmt : Concurrent TypeMark} (parsed : stmt.IsParsed) (structural : stmt.IsStructural)
    (enough : stmt.print.length ≤ bound) :
    Parses (concurrent bound) stmt.print (Same Concurrent.erase stmt) fun _ => True := by
  cases stmt with
  | process block => exact concurrent_process parsed structural enough
  | assign assignment =>
    obtain ⟨target, value, line⟩ := assignment
    have parses : Parses _ (chosenPrint target value []) _ _ :=
      concurrentAssignment_print parsed.1 parsed.2 (by simp) line enough
    exact concurrent_assignment parses
  | conditional assignment =>
    obtain ⟨target, pairs, last, line⟩ := assignment
    obtain ⟨targetParsed, present, pairsParsed, lastParsed⟩ := parsed
    have parses := concurrentAssignment_print targetParsed lastParsed pairsParsed line enough
    rw [if_neg (by simpa using present)] at parses
    exact concurrent_assignment parses
  | captured statement => exact absurd structural id

theorem concurrent_starts {stmt : Concurrent TypeMark} (structural : stmt.IsStructural) :
    ∃ first others, stmt.print = first :: others ∧ first ≠ .keyword "end" ∧ first ≠ .endOfFile := by
  cases stmt with
  | process block =>
    obtain ⟨label, list, vars, body, line⟩ := block
    cases label <;> exact ⟨_, _, rfl, by simp, by simp⟩
  | assign assignment | conditional assignment => exact ⟨_, _, rfl, by simp, by simp⟩
  | captured statement => exact absurd structural id

theorem concurrents_print {stmts : List (Concurrent TypeMark)} (parsed : ∀ stmt ∈ stmts, stmt.IsParsed)
    (structural : ∀ stmt ∈ stmts, stmt.IsStructural) (enough : (stmts.flatMap Concurrent.print).length < bound) :
    Parses (concurrents name opened bound) (stmts.flatMap Concurrent.print)
      (Same (map Concurrent.erase) stmts)
      (Heads (· = .keyword "end")) := by
  obtain ⟨bound, rfl⟩ : ∃ less, bound = less + 1 := ⟨bound - 1, by omega⟩
  induction stmts generalizing bound with
  | nil =>
    rw [concurrents]
    refine Leads.peek_end (· = .keyword "end") (fun token isEnd => ?_) fun _ ends => ends
    exact Leads.pass (by simp [Token.isKeyword, isEnd]) (Parses.pure rfl)
  | cons stmt stmts ih =>
    rw [flatMap_cons] at enough ⊢
    rw [length_append] at enough
    have first := concurrent_print (parsed stmt (mem_cons_self ..))
      (structural stmt (mem_cons_self ..)) (show _ ≤ bound by omega)
    obtain ⟨lexeme, others, spelled, notEnd, notStop⟩ := concurrent_starts (structural stmt (mem_cons_self ..))
    have positive : 0 < stmt.print.length := by rw [spelled]; exact Nat.succ_pos _
    obtain ⟨bound, rfl⟩ : ∃ less, bound = less + 1 := ⟨bound - 1, by omega⟩
    have later := ih (fun other member => parsed other (mem_cons_of_mem stmt member))
      (fun other member => structural other (mem_cons_of_mem stmt member)) bound (by omega)
    rw [concurrents]
    rw [spelled] at first ⊢
    refine Leads.peek fun line start stop => Leads.skip (by simpa [Token.isKeyword] using notEnd)
      (Leads.skip (by simpa [Token.isEnd] using notStop) ?_)
    refine Leads.bind first (fun found same => later.map fun rest sames => ?_) fun _ _ => trivial
    rw [Same, map_cons, map_cons, same, sames]

/-! ### Design files -/

theorem architecture_print {unit : Architecture TypeMark} (parsed : unit.IsParsed)
    (structural : ∀ stmt ∈ unit.statements, stmt.IsStructural) (enough : unit.print.length ≤ bound + 1) :
    Parses (architecture bound unit.entityName) unit.print (Same Architecture.erase unit) fun _ => True := by
  obtain ⟨name, entityName, signals, constants, enums, statements, line⟩ := unit
  have declared : ∀ {opened}, Parses (declarations name opened bound) _ (Declares signals constants enums) Begins :=
    fun {opened} => declarations_print parsed.signals parsed.constants
      (fun decl member => (parsed.enums decl member).present) (by
        simp only [Architecture.print, length_cons, length_append] at enough ⊢
        omega)
  have stated : ∀ {opened}, Parses (concurrents name opened bound) _ _ _ :=
    fun {opened} => concurrents_print parsed.statements structural (by
        simp only [Architecture.print, length_cons, length_append] at enough ⊢
        omega)
  rw [Architecture.print]
  refine Leads.expectKeyword fun token => Leads.expectIdentifier fun _ => Leads.expectKeyword fun _ =>
    Leads.expectIdentifier fun _ => ?_
  simp only [ne_eq, not_true_eq_false, if_false]
  refine Leads.expectKeyword fun _ => ?_
  refine Leads.bind declared (fun found same => ?_) fun _ _ => head_eq
  refine Leads.expectKeyword fun _ => ?_
  refine Leads.bind stated (fun stmts sames => ?_) fun _ _ => head_eq
  refine Parses.map expectEnd_print fun _ _ => ?_
  obtain ⟨sameSignals, sameConstants, sameEnums⟩ := same
  simp only [Same, Architecture.erase, sameSignals, sameConstants, sameEnums, sames]

theorem designFile_done (bound : Nat) :
    Parses (designFile (some found) body bound) [] (· = (some found, body))
      (Heads (· = .endOfFile)) := by
  cases bound with
  | zero => exact Parses.pure rfl
  | succ bound =>
    rw [designFile]
    refine Leads.peek_end (· = .endOfFile) (fun token isStop => ?_) fun _ ends => ends
    exact Leads.pass (by simp [Token.isEnd, isStop]) (Parses.pure rfl)

theorem designFile_architecture {unit : Architecture TypeMark} (parsed : unit.IsParsed)
    (ofEntity : unit.entityName = found.name) (structural : ∀ stmt ∈ unit.statements, stmt.IsStructural)
    (enough : unit.print.length ≤ bound) :
    Parses (designFile (some found) none bound) unit.print
      (fun result => ∃ body, result = (some found, some body) ∧ body.erase = unit.erase)
      (Heads (· = .endOfFile)) := by
  have positive : 0 < unit.print.length := Nat.succ_pos _
  obtain ⟨bound, rfl⟩ : ∃ less, bound = less + 1 := ⟨bound - 1, by omega⟩
  have parses := architecture_print parsed structural enough
  rw [← append_nil unit.print, designFile]
  rw [ofEntity] at parses
  refine Leads.peek fun line start stop => Leads.skip rfl (Leads.skip rfl (Leads.skip rfl (Leads.pass rfl ?_)))
  refine Leads.bind parses (fun body same => ?_) fun _ _ => trivial
  exact (designFile_done bound).imp fun result is => ⟨body, is, same⟩

theorem designFile_print {unit : DesignUnit TypeMark} (parsed : unit.IsParsed) (structural : unit.IsStructural)
    (enough : unit.print.length ≤ bound) :
    Parses (designFile none none bound) unit.print
      (fun result => ∃ found : DesignUnit TypeMark, result = (some found.entity, found.architecture) ∧
        found.erase = unit.erase)
      (Heads (· = .endOfFile)) := by
  obtain ⟨entity, body⟩ := unit
  simp only [DesignUnit.print, length_append] at enough
  have positive : 0 < entity.print.length := Nat.succ_pos _
  obtain ⟨bound, rfl⟩ : ∃ less, bound = less + 1 := ⟨bound - 1, by omega⟩
  have entityParsed : entity.IsParsed := parsed.entity
  have parses := entity_print entityParsed (show entity.print.length ≤ bound + 1 by omega)
  rw [DesignUnit.print, designFile]
  refine Leads.peek fun line start stop => Leads.skip rfl (Leads.skip rfl (Leads.pass rfl ?_))
  refine Leads.bind parses (fun found same => ?_) fun _ _ => trivial
  cases body with
  | none =>
    refine (designFile_done bound).imp fun result is => ⟨⟨found, none⟩, is, ?_⟩
    rw [DesignUnit.erase, DesignUnit.erase, same]
  | some unit =>
    obtain ⟨unitParsed, ofEntity⟩ := parsed.architecture unit rfl
    have sameName : found.name = entity.name := by simpa [Entity.erase] using congrArg Entity.name same
    have short : unit.print.length ≤ bound := by simp only at enough; omega
    refine (designFile_architecture unitParsed (ofEntity.trans sameName.symm) (structural unit rfl)
      short).imp ?_
    rintro result ⟨body, is, bodySame⟩
    refine ⟨⟨found, some body⟩, is, ?_⟩
    rw [DesignUnit.erase, DesignUnit.erase, same, Option.map_some, Option.map_some, bodySame]

end Parser

/-- Parsing undoes printing. Tokens that say a design unit of the parsed shape, without captured text in it,
are parsed as this design unit, whatever lines and positions they have. -/
theorem parseTokens_print {unit : DesignUnit TypeMark} (parsed : unit.IsParsed) (structural : unit.IsStructural)
    (text : List Char) {stream : TokenStream} (spells : stream.tokens.map (·.lexeme) = unit.print)
    (ends : stream.stop.lexeme = .endOfFile) :
    ∃ found, (parseTokens text stream).result = .ok found ∧ found.erase = unit.erase := by
  have enough : unit.print.length ≤ stream.tokens.length := by simp [← spells]
  have stops : ∀ first ∈ (Cursor.mk [] stream.stop text).lexemes.head?, first = .endOfFile := by
    intro first head
    cases head
    exact ends
  obtain ⟨_, ok, found, rfl, same⟩ := (Parser.designFile_print parsed structural enough).result spells stops
  have atStart : Cursor.behind stream.tokens ⟨[], stream.stop, text⟩ = .ofStream text stream := by
    simp [Cursor.behind, Cursor.ofStream]
  rw [atStart] at ok
  refine ⟨found, ?_, same⟩
  simp only [parseTokens, Parser.onTokens, StateT.run, Traced.result_bind, ok]
  rfl

/-- A counter that steps unless it is held, with its top bit as output. -/
def sampleUnit : DesignUnit TypeMark where
  entity := ⟨"counter", [⟨"clk", .input, ⟨"std_logic", none, 1⟩, 1⟩, ⟨"top", .output, ⟨"std_logic", none, 1⟩, 1⟩], 1⟩
  architecture := some {
    name := "rtl"
    entityName := "counter"
    signals := [⟨"count", ⟨"unsigned", some ⟨.literal (.decimal "3") 2, .literal (.decimal "0") 2, false⟩, 2⟩, none, 2⟩]
    constants := []
    enums := [⟨⟨"mode", ["run", "hold"]⟩, 3⟩]
    statements := [
      .process ⟨some "step", .listed ["clk"], [],
        [.conditional [(.call "rising_edge" [.name "clk" 5] 5,
          [.assign ⟨"count", .whole, 6⟩
            (.binary .mul (.binary .add (.name "count" 6) (.literal (.decimal "1") 6) 6)
              (.literal (.decimal "1") 6) 6) false 6])] [] 5], 4⟩,
      .conditional ⟨⟨"top", .whole, 9⟩, [(.literal (.bit "1") 9,
        .binary .eq (.call "count" [.literal (.decimal "3") 9] 9) (.literal (.bit "1") 9) 9)],
        .literal (.bit "0") 9, 9⟩]
    line := 2 }

theorem parseTokens_sampleUnit :
    ∃ found, (parseTokens [] ⟨sampleUnit.print.map (⟨·, 7, 0, 0⟩), ⟨.endOfFile, 8, 0, 0⟩⟩).result = .ok found ∧
      found.erase = sampleUnit.erase := by
  have name (spelling : String) (legal : isLegalName spelling = true ∧ isTruthName spelling = false)
      (line : Nat) : (Expr.name spelling line).IsParsed := legal
  have call {function : String} (legal : isLegalName function = true ∧ isTruthName function = false)
      {argument : Expr} (parsed : argument.IsParsed) (line : Nat) :
      (Expr.call function [argument] line).IsParsed := ⟨⟨legal, by simp⟩, parsed, trivial⟩
  have decimal (digits : String) (areDigits : digits.toList ≠ [] ∧ digits.toList.all Text.isDigit = true)
      (line : Nat) : (Expr.literal (.decimal digits) line).IsParsed := ⟨areDigits.1, List.all_eq_true.mp areDigits.2⟩
  have one (line : Nat) : (Expr.literal (.bit "1") line).IsParsed := ⟨'1', by decide⟩
  refine parseTokens_print ⟨⟨rfl, ?_⟩, ?_⟩ ?_ [] ?_ rfl
  · rintro port (_ | ⟨_, _ | ⟨_, ⟨⟩⟩⟩) <;> exact ⟨by decide +kernel, by decide +kernel, fun _ bounds => nomatch bounds⟩
  · rintro body ⟨⟩
    refine ⟨⟨rfl, ?_, ?_, ?_, ?_⟩, rfl⟩
    · rintro decl (_ | ⟨_, ⟨⟩⟩)
      refine ⟨rfl, ⟨by decide +kernel, ?_⟩, fun _ init => nomatch init⟩
      rintro bounds ⟨⟩
      exact ⟨decimal "3" (by decide) 2, decimal "0" (by decide) 2⟩
    · rintro decl ⟨⟩
    · rintro decl (_ | ⟨_, ⟨⟩⟩)
      exact ⟨rfl, by decide, by decide +kernel⟩
    · rintro stmt (_ | ⟨_, _ | ⟨_, ⟨⟩⟩⟩)
      · refine ⟨by rintro label ⟨⟩; rfl, by rintro names ⟨⟩; exact ⟨by decide, by decide +kernel⟩,
          fun _ decl => (nomatch decl), ?_⟩
        rintro inner (_ | ⟨_, ⟨⟩⟩)
        refine ⟨⟨by simp, ?_⟩, ⟨⟨⟨?_, ?_⟩, trivial⟩, trivial⟩, trivial⟩
        · rintro branch (_ | ⟨_, ⟨⟩⟩)
          exact call (by decide +kernel) (name "clk" (by decide +kernel) 5) 5
        · exact ⟨by decide +kernel, trivial⟩
        · exact ⟨trivial, ⟨trivial, name "count" (by decide +kernel) 6, decimal "1" (by decide) 6⟩,
            decimal "1" (by decide) 6⟩
      · refine ⟨⟨rfl, trivial⟩, by simp, ?_, ⟨'0', by decide⟩⟩
        rintro choice (_ | ⟨_, ⟨⟩⟩)
        exact ⟨one 9, trivial, call (by decide +kernel) (decimal "3" (by decide) 9) 9, one 9⟩
  · rintro body ⟨⟩ stmt (_ | ⟨_, _ | ⟨_, ⟨⟩⟩⟩)
    · rintro inner (_ | ⟨_, ⟨⟩⟩)
      exact ⟨trivial, ⟨⟨trivial, trivial⟩, trivial⟩, trivial⟩
    · trivial
  · rw [List.map_map]
    exact List.map_id _

end RtlBridge.Vhdl

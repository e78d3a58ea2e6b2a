import RtlBridge.Proofs.Verilog.StatementTokens

/-! Reading written statements back. A reader of `if`, `else if`, `else`, `case` and assignments finds in the
tokens of statements their outline: the nesting of branches and arms with the tokens of all expressions, and
nothing for a comment. -/

namespace RtlBridge.Verilog

open List

/-! ### Outlines and their reader -/

/-- The structure of a statement, with the tokens of its expressions. -/
inductive Outline where
  | assign (target : List Token) (blocking : Bool) (value : List Token)
  | conditional (branches : List (List Token × List Outline)) (otherwise : Option (List Outline))
  | selection (selector : List Token) (arms : List (List Token × List Outline)) (default : Option (List Outline))

namespace StatementReader

def TokenReader (α : Type) : Type := List Token → Option (α × List Token)

def skip (token : Token) : List Token → Option (List Token)
  | [] => none
  | first :: rest => if first = token then some rest else none

def block (body : TokenReader (List Outline)) : TokenReader (List Outline) := fun ahead => do
  let rest ← skip (.word "begin") ahead
  let (list, rest) ← body rest
  let rest ← skip (.word "end") rest
  return (list, rest)

/-- The branches behind an `if`, and the last one without a condition. A reader of a list is told a bound that
is at least its length. -/
def branches (body : TokenReader (List Outline)) :
    Nat → TokenReader (List (List Token × List Outline) × Option (List Outline))
  | 0, _ => none
  | bound + 1, ahead => do
    let rest ← skip (.mark '(') ahead
    let (condition, rest) ← upTo ')' 0 rest
    let (inner, rest) ← block body rest
    match skip (.word "else") rest with
    | none => return (([(condition, inner)], none), rest)
    | some next =>
      match skip (.word "if") next with
      | none => do
        let (last, rest) ← block body next
        return (([(condition, inner)], some last), rest)
      | some next => do
        let ((others, otherwise), rest) ← branches body bound next
        return (((condition, inner) :: others, otherwise), rest)

/-- The arms of a `case` up to its end; the default is the last of them. -/
def arms (body : TokenReader (List Outline)) :
    Nat → TokenReader (List (List Token × List Outline) × Option (List Outline))
  | 0, _ => none
  | bound + 1, ahead =>
    match skip (.word "endcase") ahead, skip (.word "default") ahead with
    | some rest, _ => some (([], none), rest)
    | none, some rest => do
      let rest ← skip (.mark ':') rest
      let (last, rest) ← block body rest
      let rest ← skip (.word "endcase") rest
      return (([], some last), rest)
    | none, none => do
      let (label, rest) ← upTo ':' 0 ahead
      let (inner, rest) ← block body rest
      let ((others, default), rest) ← arms body bound rest
      return (((label, inner) :: others, default), rest)

def place : TokenReader (List Token)
  | .word name :: rest =>
    match skip (.mark '[') rest with
    | none => some ([.word name], rest)
    | some rest => do
      let (part, rest) ← upTo ']' 0 rest
      return (.word name :: .mark '[' :: (part ++ [.mark ']']), rest)
  | _ => none

def assignment : TokenReader Outline := fun ahead => do
  let (target, rest) ← place ahead
  let blocking := (skip (.mark '<') rest).isNone
  let rest ← skip (.mark '=') ((skip (.mark '<') rest).getD rest)
  let (value, rest) ← upTo ';' 0 rest
  return (.assign target blocking value, rest)

def selection (body : TokenReader (List Outline)) (bound : Nat) : TokenReader Outline := fun ahead => do
  let rest ← skip (.mark '(') ahead
  let (selector, rest) ← upTo ')' 0 rest
  let ((list, default), rest) ← arms body bound rest
  return (.selection selector list default, rest)

def statement (body : TokenReader (List Outline)) : TokenReader Outline := fun ahead =>
  match skip (.word "if") ahead, skip (.word "case") ((skip (.word "unique") ahead).getD ahead) with
  | some rest, _ => do
    let ((list, otherwise), rest) ← branches body ahead.length rest
    return (.conditional list otherwise, rest)
  | none, some rest => selection body ahead.length rest
  | none, none => assignment ahead

def ends (ahead : List Token) : Bool :=
  match ahead.head? with
  | none => true
  | some token => token = .word "end" || token = .word "endcase"

/-- Statements up to the end of the block or the `case` around them. Every statement in another follows a token
that has been passed, so a bound above the number of tokens ahead is enough. -/
def statements : Nat → TokenReader (List Outline)
  | 0, _ => none
  | bound + 1, ahead =>
    if ends ahead then some ([], ahead)
    else do
      let (first, rest) ← statement (statements bound) ahead
      let (others, rest) ← statements bound rest
      return (first :: others, rest)

end StatementReader

def readStatements (text : List Char) : Option (List Outline) :=
  match StatementReader.statements ((scan text).length + 1) (scan text) with
  | some (list, []) => some list
  | _ => none

/-! ### Outlines of statements -/

mutual

def Stmt.outline? : Stmt → Option Outline
  | .assign target blocking value _ => some (.assign target.tokens blocking value.tokens)
  | .conditional branches otherwise => some (.conditional (branchOutlines branches) (elseOutlines otherwise))
  | .selection _ selector arms default => some (.selection selector.tokens (armOutlines arms) (elseOutlines default))
  | .placeholder _ => none

def bodyOutlines : List Stmt → List Outline
  | [] => []
  | first :: rest => first.outline?.toList ++ bodyOutlines rest

def branchOutlines : List (Expr × List Stmt) → List (List Token × List Outline)
  | [] => []
  | (condition, body) :: rest => (condition.tokens, bodyOutlines body) :: branchOutlines rest

def armOutlines : List (List Expr × List Stmt) → List (List Token × List Outline)
  | [] => []
  | (choices, body) :: rest => (labelTokens choices, bodyOutlines body) :: armOutlines rest

def elseOutlines : Option (List Stmt) → Option (List Outline)
  | none => none
  | some body => some (bodyOutlines body)

end

/-! ### Reading tokens back -/

namespace StatementReader

theorem skip_self (token : Token) (rest : List Token) : skip token (token :: rest) = some rest := by simp [skip]

theorem skip_eq_none (other : list.head? ≠ some token) : skip token list = none := by
  cases list with
  | nil => rfl
  | cons first rest => rw [skip, if_neg fun same => other (congrArg some same)]

theorem skip_keyword (quiet : Quiet text) (isKeyword : word ∈ keywords) (c : Char) (rest : List Token)
    : skip (.word word) (tokens text ++ .mark c :: rest) = none := by
  apply skip_eq_none
  cases spelled : tokens text with
  | nil => simp
  | cons first others =>
    intro same
    have isFirst : first = .word word := by simpa using same
    exact quiet.plain word (spelled ▸ isFirst ▸ mem_cons_self ..) isKeyword

theorem upTo_tokens {expr : Expr} (isClean : expr.IsClean false) (isStop : stop ∈ expressionStops) (after : List Token) :
    upTo stop 0 (expr.tokens ++ .mark stop :: after) = some (expr.tokens, after) :=
  (expr.inert_text isClean isStop (absurd · Bool.false_ne_true)).passes.upTo_eq after

/-- A reader of bodies finds the outlines of a body in its tokens. -/
def Reads (body : TokenReader (List Outline)) (list : List Stmt) : Prop :=
  ∀ rest, ends rest = true → body (bodyTokens list ++ rest) = some (bodyOutlines list, rest)

variable {body : TokenReader (List Outline)}

theorem block_reads (reads : Reads body list) (rest : List Token) :
    block body (blockTokens (bodyTokens list) ++ rest) = some (bodyOutlines list, rest) := by
  have inner := reads (.word "end" :: rest) rfl
  simp [block, blockTokens, skip_self, inner]

theorem branchTokens_cons (opening : List Token) (first : Expr × List Stmt) (rest : List (Expr × List Stmt)) :
    branchTokens opening (first :: rest) = opening ++ branchTokens [] (first :: rest) := rfl

theorem branches_read (present : list ≠ []) (conditions : ∀ branch ∈ list, branch.1.IsClean false)
    (bodies : ∀ branch ∈ list, Reads body branch.2) (last : ∀ inner ∈ otherwise, Reads body inner)
    (enough : list.length ≤ bound) (noElse : rest.head? ≠ some (.word "else")) :
    branches body bound (branchTokens [] list ++ (elseTokens otherwise ++ rest)) =
      some ((branchOutlines list, elseOutlines otherwise), rest) := by
  induction list generalizing bound with
  | nil => exact absurd rfl present
  | cons first tail ih =>
    obtain ⟨condition, inner⟩ := first
    obtain ⟨bound, rfl⟩ := Nat.exists_eq_succ_of_ne_zero (show bound ≠ 0 by rw [length_cons] at enough; omega)
    obtain ⟨isClean, conditions⟩ := forall_mem_cons.mp conditions
    obtain ⟨inBody, bodies⟩ := forall_mem_cons.mp bodies
    have tested := upTo_tokens isClean (show ')' ∈ expressionStops by decide)
    have entered := block_reads inBody
    cases tail with
    | nil =>
      cases otherwise with
      | none =>
        simp [branches, branchTokens, elseTokens, skip_self, tested, entered, skip_eq_none noElse,
          branchOutlines, elseOutlines]
      | some final =>
        have finished := block_reads (last final rfl) rest
        have noIf : skip (.word "if") (blockTokens (bodyTokens final) ++ rest) = none :=
          skip_eq_none (by simp [blockTokens])
        simp [branches, branchTokens, elseTokens, skip_self, tested, entered, finished, noIf, branchOutlines,
          elseOutlines]
    | cons second more =>
      have later := ih (cons_ne_nil _ _) conditions bodies (Nat.le_of_succ_le_succ enough)
      rw [branchTokens, branchTokens_cons]
      simp [branches, skip_self, tested, entered, later, branchOutlines]

theorem arms_read {default : Option (List Stmt)} (choices : ∀ arm ∈ list, ∀ choice ∈ arm.1, choice.IsClean false)
    (bodies : ∀ arm ∈ list, Reads body arm.2) (last : ∀ inner ∈ default, Reads body inner)
    (enough : list.length < bound) (rest : List Token) :
    arms body bound (armTokens list ++ (defaultTokens default ++ .word "endcase" :: rest)) =
      some ((armOutlines list, elseOutlines default), rest) := by
  induction list generalizing bound with
  | nil =>
    obtain ⟨bound, rfl⟩ := Nat.exists_eq_succ_of_ne_zero (Nat.ne_of_gt enough)
    cases default with
    | none => simp [arms, armTokens, defaultTokens, skip_self, armOutlines, elseOutlines]
    | some final =>
      have finished := block_reads (last final rfl) (.word "endcase" :: rest)
      simp [arms, armTokens, defaultTokens, skip, finished, armOutlines, elseOutlines]
  | cons first tail ih =>
    obtain ⟨label, inner⟩ := first
    obtain ⟨bound, rfl⟩ := Nat.exists_eq_succ_of_ne_zero (Nat.ne_of_gt (Nat.zero_lt_of_lt enough))
    obtain ⟨areClean, choices⟩ := forall_mem_cons.mp choices
    obtain ⟨inBody, bodies⟩ := forall_mem_cons.mp bodies
    have inert := inert_label areClean
    have labelled (after : List Token) :
        upTo ':' 0 (labelTokens label ++ .mark ':' :: after) = some (labelTokens label, after) :=
      inert.passes.upTo_eq after
    have noEnd (after : List Token) : skip (.word "endcase") (labelTokens label ++ .mark ':' :: after) = none :=
      skip_keyword inert.toQuiet (by decide) ':' after
    have noDefault (after : List Token) : skip (.word "default") (labelTokens label ++ .mark ':' :: after) = none :=
      skip_keyword inert.toQuiet (by decide) ':' after
    have entered := block_reads inBody
    have later := ih choices bodies (Nat.lt_of_succ_lt_succ enough)
    simp [arms, armTokens, noEnd, noDefault, labelled, entered, later, armOutlines]

theorem tokens_index (name : IsPlainName text) (subscript : Expr) :
    (Expr.index (.name text) subscript).tokens = .word text :: .mark '[' :: (subscript.tokens ++ [.mark ']']) := by
  rw [Expr.tokens, Expr.toList_text_index, tokens_append_mark rfl, tokens_append_mark rfl]
  exact congrArg (· ++ _) name.tokens_eq

theorem tokens_slice (name : IsPlainName text) (left right : Expr) :
    (Expr.slice (.name text) left right).tokens =
      .word text :: .mark '[' :: (left.tokens ++ .mark ':' :: (right.tokens ++ [.mark ']'])) := by
  rw [Expr.tokens, Expr.toList_text_slice, tokens_append_mark rfl, tokens_append_mark rfl,
    tokens_append_mark rfl]
  exact congrArg (· ++ _) name.tokens_eq

theorem tokens_place {target : Expr} (isPlace : target.IsPlace) :
    ∃ text rest, target.tokens = .word text :: rest ∧ text ∉ keywords := by
  match target, isPlace with
  | .name text, isName => exact ⟨text, [], isName.tokens_eq, isName.notKeyword⟩
  | .index (.name text) subscript, isPart => exact ⟨text, _, tokens_index isPart.1 subscript, isPart.1.notKeyword⟩
  | .slice (.name text) left right, isPart => exact ⟨text, _, tokens_slice isPart.1 left right, isPart.1.notKeyword⟩

theorem place_reads {target : Expr} (isPlace : target.IsPlace) (whole : rest.head? ≠ some (.mark '['))
    : place (target.tokens ++ rest) = some (target.tokens, rest) := by
  match target, isPlace with
  | .name text, isName =>
    have spelled : (Expr.name text).tokens = [.word text] := isName.tokens_eq
    simp [spelled, place, skip_eq_none whole]
  | .index (.name text) subscript, isPart =>
    have found := upTo_tokens isPart.2 (show ']' ∈ expressionStops by decide) rest
    simp [tokens_index isPart.1, place, skip_self, found]
  | .slice (.name text) left right, isPart =>
    have first : Inert ']' 0 left.text.toList := left.inert_text isPart.2.1 (by decide) nofun
    have second : Inert ']' 0 right.text.toList := right.inert_text isPart.2.2 (by decide) nofun
    have bounds : Passes ']' 0 (left.tokens ++ .mark ':' :: right.tokens) :=
      first.passes.append (Passes.append (.single ⟨rfl, rfl⟩ (.inl (by decide))) second.passes)
    have found := bounds.upTo_eq rest
    simp only [append_assoc, cons_append] at found
    simp [tokens_slice isPart.1, place, skip_self, found]

theorem assignment_reads (isPlace : target.IsPlace) (isClean : value.IsClean false) (blocking : Bool)
    (remarks : List Remark) (rest : List Token) :
    assignment ((Stmt.assign target blocking value remarks).tokens ++ rest) =
      some (.assign target.tokens blocking value.tokens, rest) := by
  have found := upTo_tokens isClean (show ';' ∈ expressionStops by decide)
  cases blocking with
  | true =>
    have placed (after : List Token) : place (target.tokens ++ .mark '=' :: after) = _ := place_reads isPlace (by simp)
    simp [Stmt.tokens, assignment, placed, skip, found]
  | false =>
    have placed (after : List Token) : place (target.tokens ++ .mark '<' :: after) = _ := place_reads isPlace (by simp)
    simp [Stmt.tokens, assignment, placed, skip, found]

theorem length_branchTokens (list : List (Expr × List Stmt)) (opening : List Token) :
    list.length ≤ (branchTokens opening list).length ∧
      ∀ branch ∈ list, (bodyTokens branch.2).length < (branchTokens opening list).length := by
  induction list generalizing opening with
  | nil => exact ⟨Nat.zero_le _, forall_mem_nil _⟩
  | cons first rest ih =>
    obtain ⟨many, later⟩ := ih [.word "else", .word "if"]
    simp only [branchTokens, blockTokens, length_append, length_cons, length_nil, forall_mem_cons]
    exact ⟨by omega, by omega, fun branch member => by have shorter := later branch member; omega⟩

theorem length_armTokens (list : List (List Expr × List Stmt)) :
    list.length ≤ (armTokens list).length ∧ ∀ arm ∈ list, (bodyTokens arm.2).length < (armTokens list).length := by
  induction list with
  | nil => exact ⟨Nat.zero_le _, forall_mem_nil _⟩
  | cons first rest ih =>
    obtain ⟨many, later⟩ := ih
    simp only [armTokens, blockTokens, length_append, length_cons, length_nil, forall_mem_cons]
    exact ⟨by omega, by omega, fun arm member => by have shorter := later arm member; omega⟩

theorem head_of_tidy {stmt : Stmt} (tidy : stmt.IsTidy) :
    (stmt.outline? = none ∧ stmt.tokens = []) ∨
      ∃ outline word rest, stmt.outline? = some outline ∧ stmt.tokens = .word word :: rest ∧
        word ∉ ["end", "endcase", "else"] := by
  cases tidy with
  | assign isPlace isClean oneLine =>
    obtain ⟨text, rest, spelled, notKeyword⟩ := tokens_place isPlace
    have areKeywords : ["end", "endcase", "else"] ⊆ keywords := by decide
    rw [Stmt.tokens, spelled]
    exact .inr ⟨_, text, _, rfl, rfl, fun member => notKeyword (areKeywords member)⟩
  | conditional present conditions bodies last =>
    obtain ⟨first, rest, rfl⟩ := exists_cons_of_ne_nil present
    exact .inr ⟨_, "if", _, rfl, rfl, by decide⟩
  | selection isClean choices bodies last =>
    rename_i unique selector arms default
    cases unique with
    | true => exact .inr ⟨_, "unique", _, rfl, rfl, by decide⟩
    | false => exact .inr ⟨_, "case", _, rfl, rfl, by decide⟩
  | placeholder isTidy => exact .inl ⟨rfl, rfl⟩

theorem no_else_of_tidy (tidy : ∀ stmt ∈ list, stmt.IsTidy) (isEnd : ends rest = true)
    : (bodyTokens list ++ rest).head? ≠ some (.word "else") := by
  induction list with
  | nil =>
    intro same
    rw [bodyTokens, nil_append] at same
    rw [ends, same] at isEnd
    exact absurd isEnd (by decide)
  | cons first others ih =>
    obtain ⟨isTidy, tidy⟩ := forall_mem_cons.mp tidy
    rcases head_of_tidy isTidy with ⟨_, none⟩ | ⟨_, word, more, _, spelled, other⟩
    · rw [bodyTokens, none, nil_append]
      exact ih tidy
    · rw [bodyTokens, spelled]
      intro same
      cases same
      exact other (by decide)

/-- A statement is read from its tokens, whatever statements follow. -/
def ReadsBack (stmt : Stmt) : Prop :=
  ∀ outline ∈ stmt.outline?, ∀ bound, stmt.tokens.length ≤ bound → ∀ rest, rest.head? ≠ some (.word "else") →
    statement (statements bound) (stmt.tokens ++ rest) = some (outline, rest)

theorem statements_read (tidy : ∀ stmt ∈ list, stmt.IsTidy) (each : ∀ stmt ∈ list, ReadsBack stmt)
    (enough : (bodyTokens list).length < bound) : Reads (statements bound) list := by
  obtain ⟨bound, rfl⟩ := Nat.exists_eq_succ_of_ne_zero (Nat.ne_of_gt (Nat.zero_lt_of_lt enough))
  intro rest isEnd
  induction list generalizing bound with
  | nil => simp [statements, bodyTokens, bodyOutlines, isEnd]
  | cons first others ih =>
    obtain ⟨isTidy, othersTidy⟩ := forall_mem_cons.mp tidy
    obtain ⟨isRead, othersRead⟩ := forall_mem_cons.mp each
    rw [bodyTokens, length_append] at enough
    rcases head_of_tidy isTidy with ⟨none, empty⟩ | ⟨outline, word, more, is, spelled, other⟩
    · rw [bodyTokens, bodyOutlines, none, empty]
      exact ih othersTidy othersRead bound (by omega)
    · have goesOn : ends (.word word :: (more ++ (bodyTokens others ++ rest))) = false := by
        simp only [mem_cons, not_mem_nil, or_false, not_or] at other
        simp [ends, other]
      have head := isRead outline is bound (by omega) (bodyTokens others ++ rest) (no_else_of_tidy othersTidy isEnd)
      rw [spelled, cons_append] at head
      rw [spelled, length_cons] at enough
      have tail : statements bound (bodyTokens others ++ rest) = some (bodyOutlines others, rest) := by
        obtain ⟨bound, rfl⟩ := Nat.exists_eq_succ_of_ne_zero (show bound ≠ 0 by omega)
        exact ih othersTidy othersRead bound (by omega)
      simp [bodyTokens, bodyOutlines, statements, spelled, is, goesOn, head, tail]

theorem readsBack_of_tidy (tidy : stmt.IsTidy) : ReadsBack stmt := by
  induction tidy with
  | assign isPlace isClean oneLine =>
    rename_i target value blocking remarks
    intro outline is bound _ rest _
    cases is
    obtain ⟨text, more, spelled, notKeyword⟩ := tokens_place isPlace
    have read := assignment_reads isPlace isClean blocking remarks rest
    have notWord {word : String} (isKeyword : word ∈ keywords) :
        skip (.word word) ((Stmt.assign target blocking value remarks).tokens ++ rest) = none := by
      apply skip_eq_none
      rw [Stmt.tokens, spelled]
      intro same
      cases same
      exact notKeyword isKeyword
    have noIf := notWord (show "if" ∈ keywords by decide)
    have noCase := notWord (show "case" ∈ keywords by decide)
    have noUnique := notWord (show "unique" ∈ keywords by decide)
    simp [statement, noIf, noCase, noUnique, read]
  | conditional present conditions bodies last inBodies inLast =>
    rename_i list otherwise
    intro outline is bound enough rest noElse
    cases is
    rw [Stmt.tokens, length_append] at enough
    have bodiesRead : ∀ branch ∈ list, Reads (statements bound) branch.2 := by
      intro branch member
      have shorter := (length_branchTokens list [.word "if"]).2 branch member
      exact statements_read (bodies branch member) (inBodies branch member) (by omega)
    have lastRead : ∀ inner ∈ otherwise, Reads (statements bound) inner := by
      rintro inner ⟨⟩
      simp only [elseTokens, blockTokens, length_append, length_cons] at enough
      exact statements_read (last inner rfl) (inLast inner rfl) (by omega)
    obtain ⟨first, tail, rfl⟩ := exists_cons_of_ne_nil present
    have read {count : Nat} (many : (first :: tail).length ≤ count) :=
      branches_read present conditions bodiesRead lastRead many noElse
    rw [Stmt.tokens, branchTokens_cons, append_assoc, append_assoc]
    have many := (length_branchTokens (first :: tail) []).1
    simp only [statement, singleton_append, skip_self]
    rw [read (by simp only [length_cons, length_append] at many ⊢; omega)]
    rfl
  | selection isClean choices bodies last inBodies inLast =>
    rename_i unique selector list default
    intro outline is bound enough rest noElse
    cases is
    rw [Stmt.tokens] at enough
    simp only [length_append, length_cons] at enough
    have bodiesRead : ∀ arm ∈ list, Reads (statements bound) arm.2 := by
      intro arm member
      have shorter := (length_armTokens list).2 arm member
      exact statements_read (bodies arm member) (inBodies arm member) (by omega)
    have lastRead : ∀ inner ∈ default, Reads (statements bound) inner := by
      rintro inner ⟨⟩
      simp only [defaultTokens, blockTokens, length_append, length_cons] at enough
      exact statements_read (last inner rfl) (inLast inner rfl) (by omega)
    have selected := upTo_tokens isClean (show ')' ∈ expressionStops by decide)
    have read {count : Nat} (many : list.length < count) :
        selection (statements bound) count (.mark '(' :: (selector.tokens ++ .mark ')' :: (armTokens list ++
          (defaultTokens default ++ .word "endcase" :: rest)))) =
          some (.selection selector.tokens (armOutlines list) (elseOutlines default), rest) := by
      simp [selection, skip_self, selected, arms_read choices bodiesRead lastRead many]
    have many := (length_armTokens list).1
    cases unique with
    | true =>
      simp only [statement, skip, Stmt.tokens, if_true, cons_append, nil_append, append_assoc,
        Token.word.injEq, String.reduceEq, if_false, Option.getD_some, length_cons, length_append]
      apply read
      omega
    | false =>
      simp only [statement, skip, Stmt.tokens, Bool.false_eq_true, cons_append, nil_append,
        append_assoc, Token.word.injEq, String.reduceEq, if_true, if_false, Option.getD_none, length_cons,
        length_append]
      apply read
      omega
  | placeholder isTidy => rintro _ ⟨⟩

end StatementReader

theorem readStatements_lines (blank : IsBlankText unit) (tidy : ∀ stmt ∈ list, stmt.IsTidy) (depth : Nat) :
    readStatements ("\n".intercalate (bodyLines unit depth list) ++ "\n").toList = some (bodyOutlines list) := by
  have scans := scans_body (fun stmt member => (tidy stmt member).scans blank) depth
  have read := StatementReader.statements_read tidy (fun stmt member => StatementReader.readsBack_of_tidy (tidy stmt member))
    (Nat.lt_succ_self _) [] rfl
  rw [append_nil] at read
  rw [readStatements, scans.scan_text, read]

end RtlBridge.Verilog

import Mathlib.Data.Bool.AllAny
import RtlBridge.Proofs.Vhdl.Printing

/-! Printed expressions are parsed back. Operators of one rank group to the left, so an operation is parsed
along its left spine: after the tokens of the left operand, the parser stands in the middle of a chain of
operators (`LeadsTo`). -/

namespace RtlBridge.Vhdl.Parser

open List

/-! ### Levels of operators -/

def opAt : Nat → Lexeme → Option BinaryOp
  | 1 => productOp?
  | 2 => sumOp?
  | 3 => shiftOp?
  | 4 => relationOp?
  | 5 => logicalOp?
  | _ => fun _ => none

def rung (bound : Nat) (term : Parser Expr) : Nat → Parser Expr
  | 0 => term
  | rank + 1 => level (opAt (rank + 1)) bound (rung bound term rank)

theorem opAt_lexeme (op : BinaryOp) : opAt op.rank op.lexeme = some op := by cases op <;> rfl

theorem eq_of_opAt (found : opAt rank lexeme = some op) : lexeme = op.lexeme ∧ rank = op.rank := by
  unfold opAt at found
  split at found
  · unfold productOp? at found
    split at found <;> cases found <;> exact ⟨rfl, rfl⟩
  · unfold sumOp? at found
    split at found <;> cases found <;> exact ⟨rfl, rfl⟩
  · unfold shiftOp? at found
    split at found <;> cases found <;> exact ⟨rfl, rfl⟩
  · unfold relationOp? at found
    split at found <;> cases found <;> exact ⟨rfl, rfl⟩
  · unfold logicalOp? at found
    split at found <;> cases found <;> exact ⟨rfl, rfl⟩
  · cases found

/-- The rank at which a token goes on with an expression: a selection or an attribute goes on with a name,
and an operator with its operands. -/
def joins? (lexeme : Lexeme) : Option Nat :=
  if lexeme ∈ [.symbol "(", .symbol "'", .symbol "."] then some 0
  else if lexeme = .symbol "&" then some loosest
  else [1, 2, 3, 4, 5].find? fun rank => (opAt rank lexeme).isSome

theorem joins?_lexeme (op : BinaryOp) : joins? op.lexeme = some op.rank := by cases op <;> rfl

def Follows (limit : Nat) (rest : List Lexeme) : Prop :=
  ∀ first ∈ rest.head?, ∀ rank, joins? first = some rank → limit < rank

theorem Follows.mono (follows : Follows high rest) (le : low ≤ high) : Follows low rest :=
  fun first head rank joins => Nat.lt_of_le_of_lt le (follows first head rank joins)

theorem follows_operator (op : BinaryOp) (lower : limit < op.rank) (rest : List Lexeme) :
    Follows limit (op.lexeme :: rest) := by
  intro first head rank joins
  cases head
  rw [joins?_lexeme] at joins
  cases joins
  exact lower

theorem follows_closing (closing : joins? lexeme = none) (rest : List Lexeme) : Follows limit (lexeme :: rest) := by
  intro first head rank joins
  cases head
  rw [closing] at joins
  cases joins

theorem Follows.opAt_eq_none (follows : Follows limit rest) (head : first ∈ rest.head?) : opAt limit first = none := by
  cases found : opAt limit first with
  | none => rfl
  | some op =>
    obtain ⟨rfl, rfl⟩ := eq_of_opAt found
    exact absurd (follows _ head _ (joins?_lexeme op)) (Nat.lt_irrefl _)

theorem Follows.ne (follows : Follows limit rest) (joins : joins? lexeme = some rank) (inside : rank ≤ limit)
    : ∀ first ∈ rest.head?, first ≠ lexeme := by
  rintro first head rfl
  exact absurd (follows first head rank joins) (Nat.not_lt.mpr inside)

theorem chain_ends (rank : Nat) (operand : Parser Expr) (left : Nat) (lhs : Expr) :
    Parses (chain (opAt rank) operand left lhs) [] (· = lhs) (Follows rank) := by
  cases left with
  | zero => exact Parses.pure rfl
  | succ left =>
    rw [chain]
    refine Leads.peek_end (fun lexeme => opAt rank lexeme = none) (fun token none => ?_)
      fun rest follows first head => follows.opAt_eq_none head
    rw [none]
    exact Parses.pure rfl

/-- The level above a rank comes to a good left operand and goes on with the chain from there. -/
def LeadsTo (bound rank : Nat) (lexemes : List Lexeme) (good : Expr → Prop) : Prop :=
  Leads (rung bound (term bound) (rank + 1)) lexemes
    (fun next => ∃ left value, next = chain (opAt (rank + 1)) (rung bound (term bound) rank) left value ∧
      bound ≤ left + lexemes.length ∧ good value)
    (Follows rank)

theorem LeadsTo.parses (leads : LeadsTo bound rank lexemes good) :
    Parses (rung bound (term bound) (rank + 1)) lexemes good (Follows (rank + 1)) := by
  rw [← append_nil lexemes]
  refine Leads.trans leads ?_ fun rest follows => follows.mono (Nat.le_succ rank)
  rintro _ ⟨left, value, rfl, _, isGood⟩
  exact (chain_ends (rank + 1) _ left value).imp fun _ same => same ▸ isGood

theorem LeadsTo.of_parses (parses : Parses (rung bound (term bound) rank) lexemes good (Follows rank)) :
    LeadsTo bound rank lexemes good := by
  rw [LeadsTo, rung, level, ← append_nil lexemes]
  refine Leads.bind parses (fun value isGood => Leads.here ⟨bound, value, rfl, ?_, isGood⟩) fun _ follows => follows
  omega

theorem LeadsTo.binary (ranked : op.rank = rank + 1)
    (leads : LeadsTo bound rank leftLexemes (Same Expr.erase lhs))
    (parses : Parses (rung bound (term bound) rank) rightLexemes (Same Expr.erase rhs)
      (Follows rank)) (enough : (leftLexemes ++ op.lexeme :: rightLexemes).length ≤ bound) (line : Nat) :
    LeadsTo bound rank (leftLexemes ++ op.lexeme :: rightLexemes)
      (Same Expr.erase (.binary op lhs rhs line)) := by
  rw [length_append, length_cons] at enough
  refine Leads.trans leads ?_ fun rest _ => follows_operator op (by omega) _
  rintro _ ⟨left, value, rfl, budget, same⟩
  obtain ⟨left, rfl⟩ : ∃ n, left = n + 1 := ⟨left - 1, by omega⟩
  rw [chain]
  refine Leads.peek fun line start stop => ?_
  have found : opAt (rank + 1) op.lexeme = some op := ranked ▸ opAt_lexeme op
  rw [found]
  refine Leads.advance fun _ _ => ?_
  rw [← append_nil rightLexemes]
  refine Leads.bind parses (fun right rightSame => Leads.here ⟨left, _, rfl, ?_, ?_⟩) fun _ follows => follows
  · simp only [length_append, length_cons, length_nil]
    omega
  · simp only [Same, Expr.erase, same, rightSame]

/-! ### Ranks of places -/

theorem follows_ampersand (rest : List Lexeme) : Follows 5 (.symbol "&" :: rest) := by
  intro first head rank joins
  cases head
  cases joins
  decide

theorem Follows.ne_ampersand (follows : Follows loosest rest) :
    Follows 5 rest ∧ ∀ first ∈ rest.head?, first ≠ .symbol "&" :=
  ⟨follows.mono (by decide), follows.ne rfl (Nat.le_refl _)⟩

/-- The parser of a place that takes operators up to a rank reads the lexemes as a good value. -/
def Reads (bound : Nat) (good : Expr → Prop) : Nat → List Lexeme → Prop
  | 0, lexemes => Parses (term bound) lexemes good (Follows 0)
  | rank + 1, lexemes =>
    if rank < 5 then LeadsTo bound rank lexemes good
    else Parses (expression bound) lexemes good (Follows loosest)

namespace Reads

variable {bound rank : Nat} {good : Expr → Prop} {lexemes : List Lexeme}

theorem parses_rung (reads : Reads bound good rank lexemes) (inside : rank ≤ 5) :
    Parses (rung bound (term bound) rank) lexemes good (Follows rank) := by
  cases rank with
  | zero => exact reads
  | succ rank =>
    rw [Reads, if_pos (by omega)] at reads
    exact reads.parses

theorem parses_expression (reads : Reads bound good loosest lexemes) :
    Parses (expression bound) lexemes good (Follows loosest) := reads

theorem expression_of_logical (parses : Parses (logical bound (term bound)) lexemes good (Follows 5)) :
    Parses (expression bound) lexemes good (Follows loosest) := by
  refine Leads.look fun token => ?_
  have single : ∀ piece ∈ [lexemes], Parses (logical bound (term bound)) piece
      (fun value => good value = True) (Follows 5) := by
    intro piece member
    rw [mem_singleton.mp member]
    exact parses.imp fun _ isGood => eq_true isGood
  have list : Parses (separated "&" (logical bound (term bound)) bound) (joined "&" [lexemes])
      (fun values => values.map good = [True]) (Follows loosest) := by
    have enough : [lexemes].length ≤ bound + 1 := by simp
    have list := Parses.separated (cons_ne_nil lexemes []) single follows_ampersand
      (fun rest => Follows.ne_ampersand) enough
    rwa [map_id'] at list
  have joinedEq : joined "&" [lexemes] = lexemes ++ [] := by simp [joined]
  rw [joinedEq] at list
  rw [← append_nil lexemes, ← append_nil (lexemes ++ [])]
  refine Leads.bind list (fun values same => ?_) fun rest follows => follows
  obtain ⟨value, rfl, isGood⟩ := map_eq_singleton_iff.mp same
  exact Parses.pure (of_eq_true isGood)

theorem succ (reads : Reads bound good rank lexemes) (inside : rank < loosest) :
    Reads bound good (rank + 1) lexemes := by
  rw [loosest] at inside
  rw [Reads]
  have parses := reads.parses_rung (by omega)
  split
  · exact LeadsTo.of_parses parses
  · have five : rank = 5 := by omega
    subst five
    exact expression_of_logical parses

theorem climb (reads : Reads bound good rank lexemes) (le : rank ≤ limit) (inside : limit ≤ loosest)
    : Reads bound good limit lexemes := by
  induction limit with
  | zero =>
    have zero : rank = 0 := by omega
    rwa [zero] at reads
  | succ limit ih =>
    rcases Nat.lt_or_eq_of_le le with lower | rfl
    · exact (ih (by omega) (by omega)).succ (by omega)
    · exact reads

end Reads

/-! ### Terms -/

section Terms

variable {bound : Nat} {good : Expr → Prop} {first : Lexeme} {others : List Lexeme} {follow : List Lexeme → Prop}

def isPrimaryStart : Lexeme → Bool
  | .identifier _ => true
  | .number _ => true
  | .character _ => true
  | .string _ => true
  | .bitString _ _ => true
  | .symbol text => text = "("
  | _ => false

theorem term_of_primary (starts : isPrimaryStart first = true)
    (parses : Parses (primary bound (expression bound)) (first :: others) good follow) :
    Parses (term (bound + 1)) (first :: others) good follow := by
  refine Leads.peek fun line start stop => ?_
  have notSign : signOp? first = none := by
    unfold signOp?
    split <;> simp_all [isPrimaryStart]
  have other {lexeme : Lexeme} (isOther : isPrimaryStart lexeme = false) : (first == lexeme) = false := by
    rw [beq_eq_false_iff_ne]
    rintro rfl
    rw [starts] at isOther
    cases isOther
  rw [notSign]
  exact Leads.skip (other rfl) (Leads.skip (other rfl) parses)

theorem term_of_sign (op : UnaryOp)
    (parses : Parses (term bound) lexemes (Same Expr.erase operand) follow) (line : Nat) :
    Parses (term (bound + 1)) (op.lexeme :: lexemes)
      (Same Expr.erase (.unary op operand line)) follow := by
  refine Leads.peek fun line start stop => ?_
  have sign : signOp? op.lexeme = some op := by cases op <;> rfl
  rw [sign]
  refine Leads.advance fun _ _ => ?_
  refine Parses.map parses fun value same => ?_
  simp only [Same, Expr.erase, same]

theorem term_of_parenthesized
    (parses : Parses (expression bound) (first :: others) good (Follows loosest))
    (notOthers : first ≠ .keyword "others") :
    Parses (term (bound + 1)) (.symbol "(" :: (first :: others ++ [.symbol ")"])) good follow := by
  refine term_of_primary rfl (Leads.peek fun line start stop => Leads.pass rfl (Leads.advance fun _ _ => ?_))
  refine Leads.elseKeyword (Leads.skip rfl ?_) notOthers
  refine Leads.bind parses (fun value isGood => ?_) fun rest _ => follows_closing rfl rest
  exact Leads.peek fun line start stop => Leads.skip rfl (Leads.expectSymbol fun _ => Parses.pure isGood)

theorem term_of_aggregate
    (parses : Parses (expression bound) lexemes (Same Expr.erase fill) (Follows loosest)) (site : Site)
    (line : Nat) :
    Parses (term (bound + 1)) (.symbol "(" :: .keyword "others" :: .symbol "=>" :: (lexemes ++ [.symbol ")"]))
      (Same Expr.erase (.aggregate fill site line)) follow := by
  refine term_of_primary rfl (Leads.peek fun line start stop => Leads.pass rfl (Leads.advance fun _ _ => ?_))
  refine Leads.ifKeyword ?_
  refine Leads.expectSymbol fun _ => Leads.bind parses (fun value same => ?_) fun rest _ => follows_closing rfl rest
  refine Leads.expectSymbol fun _ => Parses.pure ?_
  simp only [Same, Expr.erase, same]

theorem stringBits_eq_ok (present : digits.toList ≠ []) (inside : ∀ d ∈ digits.toList, d ∈ "01xz".toList)
    : stringBits digits = .ok (.binary digits) := by
  have ascii : ∀ d ∈ "01xz".toList, d.toNat < 0x80 ∧ d.toLower = d := all_iff_forall_prop.mp rfl
  have lowered : Text.lower digits = digits := by
    rw [Text.lower, Text.lowerFrom_of_ascii false fun d member => (ascii d (inside d member)).1,
      map_congr_left fun d member => (ascii d (inside d member)).2]
    simp
  have notEmpty : digits.isEmpty = false := by simpa [String.isEmpty_iff, ← String.toList_eq_nil_iff] using present
  have bits : (digits.toList.any fun c => decide (c ∉ ['0', '1', 'x', 'z'])) = false := by
    rw [any_eq_false]
    intro c member
    rw [decide_eq_true_eq, Decidable.not_not]
    exact inside c member
  rw [stringBits, lowered, notEmpty, bits]
  rfl

theorem term_of_literal (parsed : value.IsParsed) (line : Nat) :
    Parses (term (bound + 1)) [value.lexeme] (Same Expr.erase (.literal value line)) follow := by
  refine term_of_primary (by cases value <;> rfl) (Leads.peek fun line start stop => ?_)
  cases value with
  | bit text =>
    obtain ⟨c, lowered⟩ := parsed
    simp only [Literal.lexeme, lower_bitCharacter lowered]
    exact Leads.advance fun _ _ => Parses.pure rfl
  | hex digits =>
    have notEmpty : digits.isEmpty = false := by simpa [String.isEmpty_iff, ← String.toList_eq_nil_iff] using parsed.1
    simp only [Literal.lexeme, bitString, notEmpty]
    exact Leads.advance fun _ _ => Parses.pure rfl
  | binary digits =>
    simp only [Literal.lexeme, stringBits_eq_ok parsed.1 parsed.2]
    exact Leads.advance fun _ _ => Parses.pure rfl
  | decimal digits => exact Leads.advance fun _ _ => Parses.pure rfl

end Terms

/-! ### Names -/

/-- What can stand behind a name with its subscripts: no further subscripts, and no selected part. -/
def NotSelected (rest : List Lexeme) : Prop := ∀ first ∈ rest.head?, first ≠ .symbol "(" ∧ first ≠ .symbol "."

/-- The parser of names comes to a good value and goes on with its attributes. -/
def LeadsToTicks (bound : Nat) (lexemes : List Lexeme) (good : Expr → Prop) : Prop :=
  Leads (named bound (expression bound)) lexemes
    (fun next => ∃ line left value, next = ticks line left value ∧ bound ≤ left + lexemes.length ∧ good value)
    NotSelected

theorem ticks_ends (line left : Nat) (base : Expr) : Parses (ticks line left base) [] (· = base) (Follows 0) := by
  cases left with
  | zero => exact Parses.pure rfl
  | succ left =>
    rw [ticks]
    exact Leads.acceptSymbol_false (Parses.pure rfl) fun rest follows => follows.ne rfl (Nat.le_refl 0)

theorem LeadsToTicks.parses (leads : LeadsToTicks bound lexemes good) :
    Parses (named bound (expression bound)) lexemes good (Follows 0) := by
  rw [← append_nil lexemes]
  refine Leads.trans leads ?_ fun rest follows first head =>
    ⟨follows.ne rfl (Nat.le_refl 0) first head, follows.ne rfl (Nat.le_refl 0) first head⟩
  rintro _ ⟨line, left, value, rfl, _, isGood⟩
  exact (ticks_ends line left value).imp fun _ same => same ▸ isGood

theorem acceptDirection_print (ascending : Bool) :
    Parses acceptDirection [directionLexeme ascending] (· = some ascending) fun _ => True := by
  cases ascending with
  | false => exact Leads.ifKeyword (Parses.pure rfl)
  | true => exact Leads.elseKeyword (Leads.ifKeyword (Parses.pure rfl)) (by decide)

theorem acceptDirection_none {α : Type} {next : Option Bool → Parser α} {cont : Parser α → Prop}
    (goesOn : Leads (next none) lexemes cont follow)
    (fits : ∀ rest, follow rest → ∀ first ∈ (lexemes ++ rest).head?, first ≠ .keyword "downto" ∧
      first ≠ .keyword "to") : Leads (acceptDirection >>= next) lexemes cont follow := by
  rw [acceptDirection, bind_assoc]
  refine Leads.acceptKeyword_false ?_ fun rest follows first head => (fits rest follows first head).1
  simp only [Bool.false_eq_true, if_false, bind_assoc]
  refine Leads.acceptKeyword_false ?_ fun rest follows first head => (fits rest follows first head).2
  simp only [Bool.false_eq_true, if_false, pure_bind]
  exact goesOn

theorem head_of_list {γ : Type} {print : γ → List Lexeme} (items : List γ) {closing : Lexeme} (rest : List Lexeme) :
    ∀ first ∈ ((items.flatMap fun x => .symbol symbol :: print x) ++ [closing] ++ rest).head?,
      first = .symbol symbol ∨ first = closing := by
  intro first head
  cases items with
  | nil => exact .inr (Option.some.inj head).symm
  | cons x items => exact .inl (Option.some.inj head).symm

section Names

variable {bound : Nat} {name : String} {others : List Lexeme} {cont : Parser Expr → Prop}

theorem named_leads (notTruth : isTruthName name = false)
    (notDot : ∀ rest, NotSelected rest → ∀ first ∈ (others ++ rest).head?, first ≠ .symbol ".")
    (goesOn : ∀ line, Leads (do
      let base ← do
        if ← acceptSymbol "(" then subscripts bound (expression bound) name line
        else pure (Expr.name name line)
      ticks line bound base) others cont NotSelected) :
    Leads (named bound (expression bound)) (.identifier name :: others) cont NotSelected := by
  simp only [isTruthName, Bool.or_eq_false_iff, decide_eq_false_iff_not] at notTruth
  refine Leads.expectIdentifier fun line => ?_
  have none : Parses (listAfter "." expectIdentifier bound) [] (· = []) (Heads (· ≠ .symbol ".")) := by
    cases bound with
    | zero => exact Parses.pure rfl
    | succ bound => exact Leads.acceptSymbol_false (Parses.pure rfl) fun rest follows => follows
  rw [← nil_append others]
  refine Leads.bind none (fun suffixes empty => ?_) notDot
  subst empty
  simp only [getLast?_nil, Option.map_none, Option.getD_none, notTruth, if_false]
  exact goesOn line

theorem leadsToTicks_name (notTruth : isTruthName name = false) (line : Nat) :
    LeadsToTicks bound [.identifier name] (Same Expr.erase (.name name line)) := by
  refine named_leads notTruth (fun rest notSelected first head => (notSelected first head).2) fun place => ?_
  refine Leads.acceptSymbol_false ?_ fun rest notSelected first head => (notSelected first head).1
  simp only [Bool.false_eq_true, if_false, pure_bind]
  exact Leads.here ⟨place, bound, _, rfl, by simp, rfl⟩

theorem subscripts_arguments (present : arguments ≠ [])
    (parses : ∀ argument ∈ arguments, Parses (expression bound) (argument.print loosest)
      (Same Expr.erase argument) (Follows loosest)) (enough : arguments.length ≤ bound) (line : Nat) :
    Parses (subscripts bound (expression bound) name line)
      (joined "," (arguments.map fun argument => argument.print loosest) ++ [.symbol ")"])
      (Same Expr.erase (.call name arguments line)) follow := by
  cases arguments with
  | nil => exact absurd rfl present
  | cons first rest =>
    rw [map_cons, joined, flatMap_map, append_assoc]
    refine Leads.bind (parses first (mem_cons_self ..)) (fun value same => ?_) ?_
    · have list : Parses (listAfter "," (expression bound) bound)
          (rest.flatMap fun argument => .symbol "," :: argument.print loosest)
          (Same (map Expr.erase) rest)
          fun after => after.head? = some (.symbol ")") := by
        refine Parses.listAfter (fun argument member => parses argument (mem_cons_of_mem first member))
          (fun after => follows_closing rfl after) (fun after closes => ?_) (Nat.le_of_succ_le enough)
        cases after with
        | nil => cases closes
        | cons lexeme after =>
          cases closes
          exact ⟨follows_closing rfl after, by simp⟩
      refine acceptDirection_none ?_ fun after _ lexeme head => ?_
      · refine Leads.bind list (fun values sames => ?_) fun after _ => rfl
        refine Leads.expectSymbol fun _ => Parses.pure ?_
        simp only [Same, Expr.erase, Expr.eraseAll_eq_map, map_cons, same, sames]
      · rcases head_of_list rest _ lexeme head with rfl | rfl <;> simp
    · intro after _
      cases rest with
      | nil => exact follows_closing rfl after
      | cons second rest => exact follows_closing rfl _

theorem subscripts_range
    (leftParses : Parses (expression bound) (left.print loosest) (Same Expr.erase left)
      (Follows loosest))
    (rightParses : Parses (expression bound) (right.print loosest) (Same Expr.erase right)
      (Follows loosest)) (place line : Nat) :
    Parses (subscripts bound (expression bound) name line)
      (left.print loosest ++ .keyword "downto" :: (right.print loosest ++ [.symbol ")"]))
      (Same Expr.erase (.slice (.name name place) left right line)) follow := by
  refine Leads.bind leftParses (fun first firstSame => ?_) fun rest _ => follows_closing rfl _
  refine Leads.token (acceptDirection_print false) ?_
  refine Leads.bind rightParses (fun second secondSame => ?_) fun rest _ => follows_closing rfl _
  refine Leads.expectSymbol fun _ => Parses.pure ?_
  simp only [Same, Expr.erase, firstSame, secondSame]

theorem leadsToTicks_subscripts (notTruth : isTruthName name = false) {base : Expr}
    (parses : ∀ line, Parses (subscripts bound (expression bound) name line) lexemes
      (Same Expr.erase base) fun _ => True) :
    LeadsToTicks bound (.identifier name :: .symbol "(" :: lexemes) (Same Expr.erase base) := by
  refine named_leads notTruth (fun rest _ first head => ?_) fun place => ?_
  · cases head
    simp
  · refine Leads.ifSymbol ?_
    rw [← append_nil lexemes]
    refine Leads.bind (parses place) (fun value same => Leads.here ⟨place, bound, _, rfl, ?_, same⟩) fun _ _ => trivial
    omega

theorem attributeLexeme_cases (attributeName : String) :
    attributeLexeme attributeName = .keyword attributeName ∨
      attributeLexeme attributeName = .identifier attributeName := by
  rw [attributeLexeme]
  split <;> simp

theorem leadsToTicks_tick (leads : LeadsToTicks bound lexemes (Same Expr.erase base))
    (lowered : Text.lower attributeName = attributeName) (enough : lexemes.length < bound) (line : Nat) :
    LeadsToTicks bound (lexemes ++ [.symbol "'", attributeLexeme attributeName])
      (Same Expr.erase (.tick base attributeName line)) := by
  refine Leads.trans leads ?_ fun rest _ first head => ?_
  · rintro _ ⟨place, left, value, rfl, budget, same⟩
    obtain ⟨left, rfl⟩ : ∃ n, left = n + 1 := ⟨left - 1, by omega⟩
    rw [ticks]
    refine Leads.ifSymbol ?_
    have notParen : (attributeLexeme attributeName == .symbol "(") = false := by
      rcases attributeLexeme_cases attributeName with word | word <;> rw [word] <;> rfl
    refine Leads.peek fun line start stop => Leads.skip notParen (Leads.advance fun token spells => ?_)
    have goesOn : Leads (ticks place left (.tick value attributeName place)) [] (fun next =>
        ∃ line left value, next = ticks line left value ∧
          bound ≤ left + (lexemes ++ [.symbol "'", attributeLexeme attributeName]).length ∧
          value.erase = (Expr.tick base attributeName line).erase) NotSelected := by
      refine Leads.here ⟨place, left, _, rfl, ?_, ?_⟩
      · simp only [length_append, length_cons, length_nil]
        omega
      · simp only [Expr.erase, same]
    rcases attributeLexeme_cases attributeName with word | word <;>
      simp only [spells, word, lowered] <;> rw [word] at goesOn <;> exact goesOn
  · cases head
    simp

end Names

/-! ### Whole expressions -/

def isExpressionStart (lexeme : Lexeme) : Bool := isPrimaryStart lexeme || (signOp? lexeme).isSome

theorem print_of_takesAttribute {expr : Expr} (parsed : expr.IsParsed) (takes : expr.takesAttribute = true) :
    ∃ name others, expr.print 0 = .identifier name :: others := by
  induction expr using Expr.induction with
  | name spelling line => exact ⟨spelling, [], rfl⟩
  | call function arguments line _ => exact ⟨function, _, rfl⟩
  | slice base left right line _ _ _ =>
    obtain ⟨named, _⟩ := parsed
    cases base with
    | name spelling place => exact ⟨spelling, _, rfl⟩
    | _ => simp [Expr.ParsedNode, Expr.isName] at named
  | tick base attributeName line ih =>
    obtain ⟨name, others, spelled⟩ := ih parsed.2 parsed.1.1
    exact ⟨name, _, by rw [Expr.print, spelled, cons_append]⟩
  | _ => simp [Expr.takesAttribute] at takes

theorem print_starts {expr : Expr} (parsed : expr.IsParsed) (limit : Nat) :
    ∃ first others, expr.print limit = first :: others ∧ isExpressionStart first = true := by
  induction expr using Expr.induction generalizing limit with
  | name spelling line | call function arguments line _ | aggregate fill site line _ => exact ⟨_, _, rfl, rfl⟩
  | literal value line => exact ⟨_, _, rfl, by cases value <;> rfl⟩
  | binary op lhs rhs line left _ =>
    obtain ⟨first, others, spelled, starts⟩ := left parsed.2.1 op.rank
    rw [Expr.print, grouped]
    split
    · exact ⟨_, _, rfl, rfl⟩
    · exact ⟨first, _, by rw [spelled, cons_append], starts⟩
  | unary op operand line _ => exact ⟨op.lexeme, _, rfl, by cases op <;> rfl⟩
  | concat parts line ih =>
    obtain ⟨two, inside⟩ := parsed
    rw [Expr.areAll_iff] at inside
    rw [Expr.print, grouped]
    split
    · exact ⟨_, _, rfl, rfl⟩
    · cases parts with
      | nil => simp [Expr.ParsedNode] at two
      | cons part rest =>
        obtain ⟨first, others, spelled, starts⟩ := ih part (mem_cons_self ..)
          (inside part (mem_cons_self ..)) (loosest - 1)
        exact ⟨first, _, by rw [Expr.print.prints, joined, spelled, cons_append], starts⟩
  | index base subscript line _ _ => exact absurd parsed.1 id
  | slice base left right line _ _ _ | tick base attributeName line _ =>
    obtain ⟨name, others, spelled⟩ := print_of_takesAttribute parsed rfl
    exact ⟨_, _, spelled, rfl⟩

theorem ne_others_of_isExpressionStart (starts : isExpressionStart lexeme = true) : lexeme ≠ .keyword "others" := by
  rintro rfl
  cases starts

theorem Reads.grouped {good : Expr → Prop} {rank : Nat} {inner : List Lexeme} (inside : rank ≤ loosest)
    (starts : ∃ first others, inner = first :: others ∧ isExpressionStart first = true)
    (reads : ∀ bound, inner.length ≤ bound → Reads bound good rank inner) {limit : Nat}
    (limited : limit ≤ loosest) {bound : Nat} (enough : (grouped (limit < rank) inner).length ≤ bound) :
    Reads bound good limit (grouped (limit < rank) inner) := by
  rw [Vhdl.grouped] at enough ⊢
  split at enough
  · rename_i tighter
    rw [if_pos tighter]
    obtain ⟨first, others, rfl, starts⟩ := starts
    simp only [length_cons, length_append] at enough
    obtain ⟨bound, rfl⟩ : ∃ b, bound = b + 1 := ⟨bound - 1, by omega⟩
    have whole := (reads bound (by simp only [length_cons]; omega)).climb inside (Nat.le_refl _)
    have term : Reads (bound + 1) good 0 (.symbol "(" :: (first :: others ++ [.symbol ")"])) :=
      term_of_parenthesized whole.parses_expression (ne_others_of_isExpressionStart starts)
    exact term.climb (Nat.zero_le limit) limited
  · rename_i tight
    rw [if_neg tight]
    exact (reads bound enough).climb (by simpa using tight) limited

/-- The tokens of an expression are read at every place they are printed for. -/
def IsReadBack (expr : Expr) : Prop :=
  ∀ limit ≤ loosest, ∀ bound, (expr.print limit).length ≤ bound →
    Reads bound (Same Expr.erase expr) limit (expr.print limit)

/-- The tokens of a name with subscripts and attributes lead to further attributes. -/
def IsReadAsName (expr : Expr) : Prop :=
  ∀ bound, (expr.print 0).length ≤ bound + 1 → LeadsToTicks bound (expr.print 0) (Same Expr.erase expr)

theorem IsReadBack.expression {expr : Expr} (reads : IsReadBack expr) {bound : Nat}
    (enough : (expr.print loosest).length ≤ bound) :
    Parses (expression bound) (expr.print loosest) (Same Expr.erase expr) (Follows loosest) :=
  (reads loosest (Nat.le_refl _) bound enough).parses_expression

theorem IsReadBack.of_term (same : ∀ limit, expr.print limit = expr.print 0)
    (reads : ∀ bound, (expr.print 0).length ≤ bound + 1 →
      Parses (term (bound + 1)) (expr.print 0) (Same Expr.erase expr) (Follows 0))
    (present : expr.print 0 ≠ []) : IsReadBack expr := by
  intro limit limited bound enough
  rw [same] at enough ⊢
  have positive := length_pos_iff.mpr present
  obtain ⟨bound, rfl⟩ : ∃ b, bound = b + 1 := ⟨bound - 1, by omega⟩
  have term : Reads (bound + 1) (Same Expr.erase expr) 0 (expr.print 0) := reads bound enough
  exact term.climb (Nat.zero_le limit) limited

theorem IsReadAsName.isReadBack (named : IsReadAsName expr) (parsed : expr.IsParsed)
    (takes : expr.takesAttribute = true) : IsReadBack expr := by
  obtain ⟨name, others, spelled⟩ := print_of_takesAttribute parsed takes
  refine IsReadBack.of_term ?_ (fun bound enough => ?_) (by simp [spelled])
  · intro limit
    cases expr <;> first | rfl | simp [Expr.takesAttribute] at takes
  · have parses := (named bound enough).parses
    rw [spelled] at parses ⊢
    exact term_of_primary rfl (Leads.peek fun line start stop => parses)

theorem isReadBack_binary (left : IsReadBack lhs) (right : IsReadBack rhs)
    (parsed : (Expr.binary op lhs rhs line).IsParsed) : IsReadBack (.binary op lhs rhs line) := by
  have ranked : op.rank ≤ 5 ∧ 0 < op.rank := by cases op <;> decide
  intro limit limited bound enough
  rw [Expr.print] at enough ⊢
  refine Reads.grouped (Nat.le_succ_of_le ranked.1) ?_ (fun bound enough => ?_) limited enough
  · obtain ⟨first, others, spelled, starts⟩ := print_starts parsed.2.1 op.rank
    exact ⟨first, _, by rw [spelled, cons_append], starts⟩
  · obtain ⟨rank, same⟩ : ∃ rank, op.rank = rank + 1 := ⟨op.rank - 1, by omega⟩
    have both := enough
    rw [length_append, length_cons] at both
    have leads := left op.rank (Nat.le_succ_of_le ranked.1) bound (by omega)
    have operand := (right (op.rank - 1) (by rw [loosest]; omega) bound (by omega)).parses_rung (by omega)
    rw [same, Nat.add_sub_cancel] at operand enough ⊢
    rw [same, Reads, if_pos (by omega)] at leads
    rw [Reads, if_pos (by omega)]
    exact LeadsTo.binary same leads operand enough line

theorem isReadBack_concat (reads : ∀ part ∈ parts, IsReadBack part) (parsed : (Expr.concat parts line).IsParsed)
    : IsReadBack (.concat parts line) := by
  have two : 2 ≤ parts.length := parsed.1
  have inside := (Expr.areAll_iff parts).mp parsed.2
  intro limit limited bound enough
  rw [Expr.print_concat] at enough ⊢
  refine Reads.grouped (Nat.le_refl _) ?_ (fun bound enough => ?_) limited enough
  · cases parts with
    | nil => simp at two
    | cons part rest =>
      obtain ⟨first, others, spelled, starts⟩ := print_starts (inside part (mem_cons_self ..)) (loosest - 1)
      exact ⟨first, _, by rw [map_cons, joined, spelled, cons_append], starts⟩
  · obtain ⟨fewer, shorter⟩ := @length_le_joined _ (fun part : Expr => part.print (loosest - 1)) "&" parts
    have list : Parses (separated "&" (logical bound (term bound)) bound)
        (joined "&" (parts.map fun part => part.print (loosest - 1)))
        (Same (map Expr.erase) parts) (Follows loosest) := by
      refine Parses.separated ?_ (fun part member => ?_) follows_ampersand (fun rest => Follows.ne_ampersand) (by omega)
      · rintro rfl
        simp at two
      · have short := shorter part member
        exact (reads part member (loosest - 1) (by decide) bound (by omega)).parses_rung (by decide)
    refine Leads.look fun token => ?_
    rw [← append_nil (joined _ _)]
    refine Leads.bind list (fun values same => ?_) fun _ follows => follows
    have long : 2 ≤ values.length := by
      have lengths := congrArg length same
      simp only [length_map] at lengths
      omega
    obtain _ | ⟨first, _ | ⟨second, rest⟩⟩ := values
    · simp at long
    · simp at long
    · refine Parses.pure ?_
      simp only [Same, Expr.erase, Expr.eraseAll_eq_map, same]

theorem isReadAsName_call (reads : ∀ argument ∈ arguments, IsReadBack argument)
    (parsed : (Expr.call function arguments line).IsParsed) : IsReadAsName (.call function arguments line) := by
  obtain ⟨⟨⟨_, notTruth⟩, present⟩, _⟩ := parsed
  intro bound enough
  rw [Expr.print_call] at enough ⊢
  simp only [length_cons, length_append] at enough
  obtain ⟨fewer, shorter⟩ := @length_le_joined _ (fun argument : Expr => argument.print loosest) "," arguments
  refine leadsToTicks_subscripts notTruth fun place => ?_
  refine (subscripts_arguments present (fun argument member => ?_) (by omega) place).mono
    (fun value same => same.trans rfl) fun _ _ => trivial
  have short := shorter argument member
  exact (reads argument member).expression (by omega)

theorem isReadAsName_slice (first : IsReadBack left) (second : IsReadBack right)
    (parsed : (Expr.slice base left right line).IsParsed) : IsReadAsName (.slice base left right line) := by
  obtain ⟨named, baseParsed, _⟩ := parsed
  cases base with
  | name spelling place =>
    intro bound enough
    rw [Expr.print] at enough ⊢
    simp only [Expr.print, length_cons, length_append, length_nil] at enough
    refine leadsToTicks_subscripts baseParsed.2 fun opened => ?_
    exact (subscripts_range (first.expression (by omega)) (second.expression (by omega)) place opened).mono
      (fun value same => same.trans rfl) fun _ _ => trivial
  | _ => simp [Expr.ParsedNode, Expr.isName] at named

theorem isReadBack (expr : Expr) (parsed : expr.IsParsed) :
    IsReadBack expr ∧ (expr.takesAttribute = true → IsReadAsName expr) := by
  have asName {e : Expr} (named : IsReadAsName e) (parsed : e.IsParsed) (takes : e.takesAttribute = true) :
      IsReadBack e ∧ (e.takesAttribute = true → IsReadAsName e) := ⟨named.isReadBack parsed takes, fun _ => named⟩
  have unnamed {e : Expr} (read : IsReadBack e) (plain : e.takesAttribute = false) :
      IsReadBack e ∧ (e.takesAttribute = true → IsReadAsName e) := by
    refine ⟨read, fun takes => ?_⟩
    rw [plain] at takes
    cases takes
  induction expr using Expr.induction with
  | name spelling line => exact asName (fun bound _ => leadsToTicks_name parsed.2 line) parsed rfl
  | literal value line =>
    exact unnamed (.of_term (fun _ => rfl) (fun bound _ => term_of_literal parsed line) (by simp [Expr.print])) rfl
  | binary op lhs rhs line left right =>
    exact unnamed (isReadBack_binary (left parsed.2.1).1 (right parsed.2.2).1 parsed) rfl
  | unary op operand line ih =>
    refine unnamed (.of_term (fun _ => rfl) (fun bound enough => ?_) (by simp [Expr.print])) rfl
    rw [Expr.print, length_cons] at enough
    exact term_of_sign op ((ih parsed.2).1 0 (Nat.zero_le _) bound (by omega)) line
  | call function arguments line ih =>
    have inside := (Expr.areAll_iff arguments).mp parsed.2
    exact asName (isReadAsName_call (fun e member => (ih e member (inside e member)).1) parsed) parsed rfl
  | aggregate fill site line ih =>
    refine unnamed (.of_term (fun _ => rfl) (fun bound enough => ?_) (by simp [Expr.print])) rfl
    simp only [Expr.print, length_cons, length_append] at enough
    exact term_of_aggregate ((ih parsed.2).1.expression (by omega)) site line
  | concat parts line ih =>
    have inside := (Expr.areAll_iff parts).mp parsed.2
    exact unnamed (isReadBack_concat (fun e member => (ih e member (inside e member)).1) parsed) rfl
  | index base subscript line _ _ => exact absurd parsed.1 id
  | slice base left right line _ first second =>
    exact asName (isReadAsName_slice (first parsed.2.2.1).1 (second parsed.2.2.2).1 parsed) parsed rfl
  | tick base attributeName line ih =>
    obtain ⟨⟨takes, _, lowered⟩, inside⟩ := parsed
    refine asName (fun bound enough => ?_) ⟨⟨takes, ‹_›, lowered⟩, inside⟩ rfl
    rw [Expr.print, length_append] at enough
    simp only [length_cons, length_nil] at enough
    exact leadsToTicks_tick ((ih inside).2 takes bound (by omega)) lowered (by omega) line

theorem expression_print {expr : Expr} (parsed : expr.IsParsed) (enough : (expr.print loosest).length ≤ bound) :
    Parses (expression bound) (expr.print loosest) (Same Expr.erase expr) (Follows loosest) :=
  (isReadBack expr parsed).1.expression enough

end RtlBridge.Vhdl.Parser

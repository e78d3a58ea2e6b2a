import RtlBridge.Proofs.Verilog.Lexing

/-! Written expressions are read back as they were built. Since operands that are operations stand in
parentheses, the ranks of two operators never compete; what has to be shown is that every construct ends
where its text ends. -/

namespace RtlBridge.Verilog

open List

namespace Expr

def numberTree (digits : String) : Tree :=
  match digits.toList with
  | '-' :: rest => .unary "-" (.number (String.ofList rest))
  | _ => .number digits

def tree : Expr → Tree
  | .name text => .name text
  | .number digits => numberTree digits
  | .sized width base digits => .based (toString width) base.letter digits
  | .fill bit => .fill bit
  | .unary op operand => .unary op.text operand.tree
  | .binary op lhs rhs => .binary op.text lhs.tree rhs.tree
  | .paren inner => inner.tree
  | .concat parts => .concat (trees parts)
  | .replicate count part => .replicate (.number (toString count)) [part.tree]
  | .index base subscript => .index base.tree subscript.tree
  | .slice base left right => .slice base.tree left.tree right.tree
  | .choose condition yes no => .choose condition.tree yes.tree no.tree
where
  trees : List Expr → List Tree
    | [] => []
    | first :: rest => first.tree :: trees rest

end Expr

namespace Reader

/-- The tokens behind an expression that is inside something else. -/
def Closes (rest : List Lexeme) : Prop :=
  ∀ lexeme ∈ rest.head?, lexeme ∈ [")", "]", "\x7b", "\x7d", ",", ":"].map Lexeme.symbol

@[simp] theorem closes_nil : Closes [] := by simp [Closes]

@[simp] theorem closes_symbol (text : String) (rest : List Lexeme) :
    Closes (.symbol text :: rest) ↔ text ∈ [")", "]", "\x7b", "\x7d", ",", ":"] := by simp [Closes]

/-- Tokens that no operation of a rank up to the given one goes on with. -/
def Ends (rank : Nat) (rest : List Lexeme) : Prop :=
  ∀ op, rest.head? = some (.symbol op) → ∀ found, rank? op = some found → rank < found

theorem Ends.mono (ends : Ends high rest) (le : low ≤ high) : Ends low rest :=
  fun op head found ranked => Nat.lt_of_le_of_lt le (ends op head found ranked)

theorem Closes.ends (closes : Closes rest) (rank : Nat) : Ends rank rest := by
  intro op head found ranked
  have closing := closes _ head
  simp only [map_cons, map_nil, mem_cons, Lexeme.symbol.injEq, not_mem_nil, or_false] at closing
  rcases closing with rfl | rfl | rfl | rfl | rfl | rfl <;> cases ranked

theorem Closes.head_ne (closes : Closes rest) (other : text ∉ [")", "]", "\x7b", "\x7d", ",", ":"])
    : rest.head? ≠ some (.symbol text) := by
  intro head
  have closing := closes _ head
  rw [mem_map] at closing
  obtain ⟨found, member, same⟩ := closing
  cases same
  exact other member

@[simp] theorem skip_symbol (text : String) (rest : List Lexeme) : skip text (.symbol text :: rest) = some rest := by
  simp [skip]

theorem skip_eq_none (head : rest.head? ≠ some (.symbol text)) : skip text rest = none := by
  unfold skip
  split
  · rename_i found after
    exact if_neg fun same => head (by rw [same, head?_cons])
  · rfl

/-! ### Operations -/

theorem operator?_eq_none (ends : Ends rank rest) : operator? rank rest = none := by
  unfold operator?
  split
  · rename_i op after
    exact if_neg fun ranked => Nat.lt_irrefl rank (ends op rfl rank ranked)
  · rfl

theorem chain_ends (ends : Ends rank rest) (bound : Nat) (lhs : Tree)
    : chain rank operand bound lhs rest = some (lhs, rest) := by
  cases bound with
  | zero => rfl
  | succ bound => rw [chain, operator?_eq_none ends]

theorem operations_of_term {term : Reader Tree} (read : term ahead = some (tree, rest)) (ends : Ends rank rest)
    (bound : Nat) : operations bound term rank ahead = some (tree, rest) := by
  induction rank with
  | zero => exact read
  | succ rank ih =>
    rw [operations, ih (ends.mono (Nat.le_succ rank)), Option.bind_some]
    exact chain_ends ends bound tree

theorem operations_of_binary {term : Reader Tree} (ranked : rank? op = some opRank) (positive : 0 < opRank)
    (left : term ahead = some (lhs, .symbol op :: middle)) (right : term middle = some (rhs, rest))
    (inside : opRank ≤ rank) (ends : Ends rank rest) (bound : Nat) :
    operations (bound + 1) term rank ahead = some (.binary op lhs rhs, rest) := by
  induction rank with
  | zero => omega
  | succ rank ih =>
    rw [operations]
    rcases Nat.lt_or_eq_of_le inside with lower | rfl
    · rw [ih (Nat.le_of_lt_succ lower) (ends.mono (Nat.le_succ rank)), Option.bind_some]
      exact chain_ends ends (bound + 1) _
    · have stops : Ends rank (Lexeme.symbol op :: middle) := by
        intro found head k foundRank
        cases head
        rw [ranked] at foundRank
        cases foundRank
        exact Nat.lt_succ_self rank
      have passed : operator? (rank + 1) (.symbol op :: middle) = some (op, middle) := by rw [operator?, if_pos ranked]
      rw [operations_of_term left stops, Option.bind_some]
      simp only [chain, passed]
      rw [operations_of_term right (ends.mono (Nat.le_succ rank)), Option.bind_some]
      exact chain_ends ends bound _

theorem conditional_of_operations {term : Reader Tree}
    (read : operations (bound + 1) term loosest ahead = some (tree, rest)) (head : rest.head? ≠ some (.symbol "?"))
    : conditional term (bound + 1) ahead = some (tree, rest) := by
  rw [conditional, read, Option.bind_some]
  simp only [skip_eq_none head]

/-! ### Primaries -/

theorem selects_ends {expression : Reader Tree} (head : rest.head? ≠ some (.symbol "[")) (bound : Nat) (base : Tree) :
    selects expression bound base rest = some (base, rest) := by
  cases bound with
  | zero => rfl
  | succ bound => rw [selects, skip_eq_none head]

theorem term_word (bound : Nat) (text : String) (rest : List Lexeme) :
    term (bound + 1) (.word text :: rest) = selects (conditional (term bound) bound) bound (.name text) rest := rfl

theorem term_paren (bound : Nat) (rest : List Lexeme) :
    term (bound + 1) (.symbol "(" :: rest) = (conditional (term bound) bound rest).bind fun (inner, rest) =>
        (skip ")" rest).bind fun rest => some (inner, rest) := rfl

theorem term_brace (bound : Nat) (rest : List Lexeme) :
    term (bound + 1) (.symbol "\x7b" :: rest) = braced (conditional (term bound) bound) bound rest := rfl

/-- A reader reads the expression in front of any token that closes it. -/
def Yields (expression : Reader Tree) (expr : Expr) : Prop :=
  ∀ rest, Closes rest → expression (expr.lexemes ++ rest) = some (expr.tree, rest)

theorem items_separated {expression : Reader Tree} (present : parts ≠ [])
    (yields : ∀ part ∈ parts, Yields expression part) (enough : parts.length ≤ bound) (closes : Closes rest)
    (head : rest.head? ≠ some (.symbol ",")) :
    items expression bound (Expr.lexemes.separated parts ++ rest) = some (Expr.tree.trees parts, rest) := by
  induction parts generalizing bound with
  | nil => exact absurd rfl present
  | cons part others ih =>
    cases bound with
    | zero => simp at enough
    | succ bound =>
      cases others with
      | nil =>
        rw [Expr.lexemes.separated, items, yields part (by simp) rest closes, Option.bind_some]
        simp only [skip_eq_none head]
        rfl
      | cons second others =>
        have fewer : (second :: others).length ≤ bound := by simpa using enough
        have next := ih (by simp) (fun p member => yields p (by simp [member])) fewer
        rw [Expr.lexemes.separated, append_assoc, cons_append, items,
          yields part (by simp) _ (by simp), Option.bind_some]
        · simp only [skip_symbol]
          rw [next, Option.bind_some]
          rfl
        · simp

end Reader

/-! ### Expressions -/

namespace Expr

open Reader

attribute [local simp] lexemes lexemes.separated tree

/-- The expression is read as an operand, if nothing goes on selecting from it. -/
def ReadsAsTerm (expr : Expr) : Prop :=
  ∀ bound rest, expr.lexemes.length ≤ bound → rest.head? ≠ some (.symbol "[") →
    term bound (expr.lexemes ++ rest) = some (expr.tree, rest)

def ReadsAsChoice (expr : Expr) : Prop :=
  ∀ bound depth, expr.lexemes.length ≤ bound → expr.lexemes.length ≤ depth →
    Yields (conditional (term bound) depth) expr

theorem lexemes_ne_nil (expr : Expr) : expr.lexemes ≠ [] := by
  cases expr with
  | number digits =>
    rw [lexemes, numberLexemes]
    split <;> simp
  | _ => simp

theorem length_lexemes_pos (expr : Expr) : 0 < expr.lexemes.length := length_pos_iff.mpr expr.lexemes_ne_nil

theorem separated_cons_cons (part second : Expr) (others : List Expr) :
    lexemes.separated (part :: second :: others) =
      part.lexemes ++ .symbol "," :: lexemes.separated (second :: others) := by simp

theorem length_le_length_separated (parts : List Expr) :
    parts.length ≤ (lexemes.separated parts).length ∧
      ∀ part ∈ parts, part.lexemes.length ≤ (lexemes.separated parts).length := by
  induction parts with
  | nil => simp
  | cons part others ih =>
    have positive := part.length_lexemes_pos
    cases others with
    | nil => simp; omega
    | cons second others =>
      have length : (lexemes.separated (part :: second :: others)).length =
          part.lexemes.length + (lexemes.separated (second :: others)).length + 1 := by
        rw [separated_cons_cons, length_append, length_cons]
        omega
      rw [length]
      constructor
      · rw [length_cons]
        omega
      · intro p member
        rcases mem_cons.mp member with rfl | later
        · omega
        · have bounded := ih.2 p later
          omega

theorem ReadsAsTerm.readsAsChoice {expr : Expr} (reads : expr.ReadsAsTerm) : expr.ReadsAsChoice := by
  intro bound depth enough deep rest closes
  have positive := expr.length_lexemes_pos
  obtain ⟨depth, rfl⟩ : ∃ d, depth = d + 1 := ⟨depth - 1, by omega⟩
  have read := reads bound rest enough (closes.head_ne (by decide))
  exact conditional_of_operations (operations_of_term read (closes.ends loosest) (depth + 1))
    (closes.head_ne (by decide))

theorem number_cases (digits : String) :
    (∃ unsigned, numberLexemes digits = [.symbol "-", .number unsigned] ∧
      numberTree digits = .unary "-" (.number unsigned)) ∨
    (numberLexemes digits = [.number digits] ∧ numberTree digits = .number digits) := by
  cases spelled : digits.toList with
  | nil => exact .inr (by simp [numberLexemes, numberTree, spelled])
  | cons c rest =>
    by_cases minus : c = '-'
    · subst minus
      exact .inl ⟨String.ofList rest, by simp [numberLexemes, numberTree, spelled]⟩
    · exact .inr (by simp [numberLexemes, numberTree, spelled, minus])

theorem readsAsTerm_number (digits : String) : (number digits).ReadsAsTerm := by
  intro bound rest enough _
  rw [lexemes] at enough ⊢
  rw [tree]
  rcases number_cases digits with ⟨unsigned, lexed, parsed⟩ | ⟨lexed, parsed⟩ <;>
    rw [lexed] at enough ⊢ <;> rw [parsed]
  · obtain ⟨bound, rfl⟩ : ∃ b, bound = b + 2 := ⟨bound - 2, by simp at enough; omega⟩
    rfl
  · obtain ⟨bound, rfl⟩ : ∃ b, bound = b + 1 := ⟨bound - 1, by simp at enough; omega⟩
    rfl

theorem readsAsTerm_paren (reads : child.ReadsAsChoice) : (paren child).ReadsAsTerm := by
  intro bound rest enough _
  simp only [lexemes, length_cons, length_append, length_nil] at enough
  obtain ⟨bound, rfl⟩ : ∃ b, bound = b + 1 := ⟨bound - 1, by omega⟩
  have read := reads bound bound (by omega) (by omega) (.symbol ")" :: rest) (by simp)
  simp only [lexemes, cons_append, append_assoc, nil_append, term_paren, read, Option.bind_some, skip_symbol, tree]

theorem readsAsTerm_unary (op : UnaryOp) (reads : operand.ReadsAsTerm) : (unary op operand).ReadsAsTerm := by
  intro bound rest enough head
  rw [lexemes, length_cons] at enough
  obtain ⟨bound, rfl⟩ : ∃ b, bound = b + 1 := ⟨bound - 1, by omega⟩
  have sign : sign? (.symbol op.text :: (operand.lexemes ++ rest)) = some (op.text, operand.lexemes ++ rest) := by
    cases op <;> rfl
  rw [lexemes, cons_append, term, sign]
  simp only [reads bound rest (by omega) head]
  rfl

theorem readsAsTerm_index (reads : subscript.ReadsAsChoice) : (index (name spelling) subscript).ReadsAsTerm := by
  intro bound rest enough head
  simp only [lexemes, length_append, length_cons, length_nil] at enough
  obtain ⟨bound, rfl⟩ : ∃ b, bound = b + 2 := ⟨bound - 2, by omega⟩
  have read := reads (bound + 1) (bound + 1) (by omega) (by omega) (.symbol "]" :: rest) (by simp)
  have notColon : skip ":" (.symbol "]" :: rest) = none := skip_eq_none (by simp)
  simp only [lexemes, cons_append, append_assoc, nil_append, term_word, selects, skip_symbol,
    read, Option.bind_some, notColon, tree]
  exact selects_ends head bound _

theorem readsAsTerm_slice (first : left.ReadsAsChoice) (second : right.ReadsAsChoice)
    : (slice (name spelling) left right).ReadsAsTerm := by
  intro bound rest enough head
  simp only [lexemes, length_append, length_cons, length_nil] at enough
  obtain ⟨bound, rfl⟩ : ∃ b, bound = b + 2 := ⟨bound - 2, by omega⟩
  have readLeft := first (bound + 1) (bound + 1) (by omega) (by omega)
    (.symbol ":" :: (right.lexemes ++ .symbol "]" :: rest)) (by simp)
  have readRight := second (bound + 1) (bound + 1) (by omega) (by omega) (.symbol "]" :: rest) (by simp)
  simp only [lexemes, cons_append, append_assoc, nil_append, term_word, selects, skip_symbol,
    readLeft, readRight, Option.bind_some, tree]
  exact selects_ends head bound _

theorem separated_cons (part : Expr) (others : List Expr) (rest : List Lexeme) :
    ∃ tail, lexemes.separated (part :: others) ++ .symbol "\x7d" :: rest = part.lexemes ++ tail ∧
      Closes tail ∧ skip "\x7b" tail = none := by
  cases others with
  | nil => exact ⟨_, rfl, by simp, skip_eq_none (by simp)⟩
  | cons second others => refine ⟨_, by rw [separated_cons_cons, append_assoc], ?_, skip_eq_none ?_⟩ <;> simp

theorem readsAsTerm_concat (present : parts ≠ []) (reads : ∀ part ∈ parts, part.ReadsAsChoice)
    : (concat parts).ReadsAsTerm := by
  intro bound rest enough _
  simp only [lexemes, length_append, length_cons, length_nil] at enough
  obtain ⟨bound, rfl⟩ : ∃ b, bound = b + 1 := ⟨bound - 1, by omega⟩
  obtain ⟨fewer, shorter⟩ := length_le_length_separated parts
  have yields : ∀ part ∈ parts, Yields (conditional (term bound) bound) part := by
    intro part member
    have short := shorter part member
    exact reads part member bound bound (by omega) (by omega)
  have listed : items (conditional (term bound) bound) bound
      (lexemes.separated parts ++ .symbol "\x7d" :: rest) = some (tree.trees parts, .symbol "\x7d" :: rest) :=
    items_separated present yields (by omega) (by simp) (by simp)
  cases parts with
  | nil => exact absurd rfl present
  | cons part others =>
    obtain ⟨tail, split, closes, noBrace⟩ := separated_cons part others rest
    have first := yields part (by simp) tail closes
    rw [← split] at first
    simp only [lexemes, cons_append, append_assoc, nil_append, term_brace, braced, first,
      noBrace, listed, Option.bind_some, skip_symbol, tree]

theorem readsAsTerm_replicate (count : Int) (reads : part.ReadsAsChoice) : (replicate count part).ReadsAsTerm := by
  intro bound rest enough _
  simp only [lexemes, length_append, length_cons, length_nil] at enough
  obtain ⟨bound, rfl⟩ : ∃ b, bound = b + 2 := ⟨bound - 2, by omega⟩
  have counted : conditional (term (bound + 1)) (bound + 1)
      (.number (toString count) :: .symbol "\x7b" :: (part.lexemes ++ .symbol "\x7d" :: .symbol "\x7d" :: rest)) =
        some (.number (toString count), .symbol "\x7b" :: (part.lexemes ++ .symbol "\x7d" :: .symbol "\x7d" :: rest)) :=
    conditional_of_operations (operations_of_term rfl (Closes.ends (by simp) loosest) _) (by simp)
  have listed : items (conditional (term (bound + 1)) (bound + 1)) (bound + 1)
      (part.lexemes ++ .symbol "\x7d" :: .symbol "\x7d" :: rest) =
        some ([part.tree], .symbol "\x7d" :: .symbol "\x7d" :: rest) := by
    refine items_separated (cons_ne_nil part []) ?_ (by simp) (by simp) (by simp)
    intro p member
    rw [mem_singleton.mp member]
    exact reads (bound + 1) (bound + 1) (by omega) (by omega)
  simp only [lexemes, cons_append, append_assoc, nil_append, term_brace, braced, counted,
    listed, Option.bind_some, skip_symbol, tree]

theorem rank?_text (op : BinaryOp) : ∃ rank, rank? op.text = some rank ∧ 0 < rank ∧ rank ≤ loosest := by
  cases op <;> exact ⟨_, rfl, by decide, by decide⟩

theorem readsAsChoice_binary (op : BinaryOp) (left : lhs.ReadsAsTerm) (right : rhs.ReadsAsTerm)
    : (binary op lhs rhs).ReadsAsChoice := by
  intro bound depth enough deep rest closes
  simp only [lexemes, length_append, length_cons] at enough deep
  obtain ⟨depth, rfl⟩ : ∃ d, depth = d + 1 := ⟨depth - 1, by omega⟩
  obtain ⟨rank, ranked, positive, inside⟩ := rank?_text op
  have notSelect : (Lexeme.symbol op.text :: (rhs.lexemes ++ rest)).head? ≠ some (.symbol "[") := by
    cases op <;> simp [BinaryOp.text]
  have readLeft := left bound _ (by omega) notSelect
  have readRight := right bound rest (by omega) (closes.head_ne (by decide))
  rw [lexemes, append_assoc, cons_append, tree]
  exact conditional_of_operations
    (operations_of_binary ranked positive readLeft readRight inside (closes.ends loosest) depth)
    (closes.head_ne (by decide))

theorem readsAsChoice_choose (tested : condition.ReadsAsTerm) (first : yes.ReadsAsChoice) (second : no.ReadsAsChoice)
    : (choose condition yes no).ReadsAsChoice := by
  intro bound depth enough deep rest closes
  simp only [lexemes, length_append, length_cons] at enough deep
  obtain ⟨depth, rfl⟩ : ∃ d, depth = d + 1 := ⟨depth - 1, by omega⟩
  have question (after : List Lexeme) : Ends loosest (.symbol "?" :: after) := by
    intro op head found ranked
    cases head
    cases ranked
  have readTest := operations_of_term (tested bound _ (by omega) (by simp))
    (question (yes.lexemes ++ .symbol ":" :: (no.lexemes ++ rest))) (depth + 1)
  have readYes := first bound depth (by omega) (by omega) (.symbol ":" :: (no.lexemes ++ rest)) (by simp)
  have readNo := second bound depth (by omega) (by omega) rest closes
  simp only [lexemes, append_assoc, cons_append, conditional, readTest, Option.bind_some,
    skip_symbol, readYes, readNo, tree]

theorem reads (expr : Expr) (readable : expr.Readable) :
    (expr.isTerm = true → expr.ReadsAsTerm) ∧ expr.ReadsAsChoice := by
  -- An operand in front of what closes it is a whole expression, so only operations and choices have to
  -- be read twice.
  have asTerm {e : Expr} (reads : e.ReadsAsTerm) : (e.isTerm = true → e.ReadsAsTerm) ∧ e.ReadsAsChoice :=
    ⟨fun _ => reads, reads.readsAsChoice⟩
  induction expr using Expr.induction with
  | name spelling =>
    refine asTerm fun bound rest enough head => ?_
    obtain ⟨bound, rfl⟩ : ∃ b, bound = b + 1 := ⟨bound - 1, by simp [lexemes] at enough; omega⟩
    exact selects_ends head bound _
  | number digits => exact asTerm (readsAsTerm_number digits)
  | sized width base digits | fill bit =>
    refine asTerm fun bound rest enough _ => ?_
    obtain ⟨bound, rfl⟩ : ∃ b, bound = b + 1 := ⟨bound - 1, by simp [lexemes] at enough; omega⟩
    rfl
  | unary op operand ih => exact asTerm (readsAsTerm_unary op ((ih readable.1).1 readable.2))
  | binary op lhs rhs left right =>
    obtain ⟨⟨leftReadable, leftTerm⟩, rightReadable, rightTerm⟩ := readable
    exact ⟨fun term => absurd term (by simp [isTerm]),
      readsAsChoice_binary op ((left leftReadable).1 leftTerm) ((right rightReadable).1 rightTerm)⟩
  | paren inner ih => exact asTerm (readsAsTerm_paren (ih readable).2)
  | concat parts ih =>
    obtain ⟨present, inside⟩ := readable
    exact asTerm (readsAsTerm_concat present fun part member =>
      (ih part member ((areReadable_iff parts).mp inside part member)).2)
  | replicate count part ih => exact asTerm (readsAsTerm_replicate count (ih readable.2).2)
  | index base subscript _ ih =>
    obtain ⟨⟨_, named⟩, inside⟩ := readable
    cases base with
    | name spelling => exact asTerm (readsAsTerm_index (ih inside).2)
    | _ => simp [isName] at named
  | slice base left right _ first second =>
    obtain ⟨⟨_, named⟩, leftReadable, rightReadable⟩ := readable
    cases base with
    | name spelling => exact asTerm (readsAsTerm_slice (first leftReadable).2 (second rightReadable).2)
    | _ => simp [isName] at named
  | choose condition yes no tested first second =>
    obtain ⟨⟨testReadable, testTerm⟩, yesReadable, noReadable⟩ := readable
    exact ⟨fun term => absurd term (by simp [isTerm]),
      readsAsChoice_choose ((tested testReadable).1 testTerm) (first yesReadable).2 (second noReadable).2⟩

theorem read_text (expr : Expr) (readable : expr.Readable) (apart : Apart expr.text.toList) :
    read expr.text.toList = some expr.tree := by
  have cut := lex_text expr readable [] breaks_nil apart
  have lexed : lex expr.text.toList = some expr.lexemes := by simpa [CutsTo, lex] using cut
  have whole := (reads expr readable).2 expr.lexemes.length expr.lexemes.length (Nat.le_refl _)
    (Nat.le_refl _) [] closes_nil
  rw [append_nil] at whole
  rw [read, lexed, Option.bind_some, expression, whole]
  rfl

end Expr

end RtlBridge.Verilog

import RtlBridge.Proofs.Sequencing
import RtlBridge.Vhdl.Parser.DesignFile

/-! What a parser makes of given tokens. `Parses parser lexemes good follow` says that the parser passes
tokens that say `lexemes`, no more and no less, and yields a good value, whenever `follow` holds of what
stands behind them. -/

namespace RtlBridge.Vhdl

namespace Cursor

/-- What the tokens ahead say, with the end of the file behind them. -/
def lexemes (cursor : Cursor) : List Lexeme := cursor.ahead.map (·.lexeme) ++ [cursor.stop.lexeme]

def behind (tokens : List Token) (rest : Cursor) : Cursor := { rest with ahead := tokens ++ rest.ahead }

theorem behind_append (first second : List Token) (rest : Cursor) :
    behind (first ++ second) rest = behind first (behind second rest) := by simp [behind]

@[simp] theorem lexemes_behind (tokens : List Token) (rest : Cursor) :
    (behind tokens rest).lexemes = tokens.map (·.lexeme) ++ rest.lexemes := by simp [behind, lexemes]

theorem head?_lexemes (cursor : Cursor) : cursor.lexemes.head? = some cursor.head.lexeme := by
  rcases cursor with ⟨ahead, stop, source⟩
  cases ahead <;> rfl

end Cursor

namespace Parser

variable {α β : Type}

/-- On tokens that say `lexemes`, with `follow` behind them, the parser passes these tokens and goes on as
another parser that `cont` holds of. -/
def Leads (parser : Parser α) (lexemes : List Lexeme) (cont : Parser α → Prop) (follow : List Lexeme → Prop) : Prop :=
  ∀ (tokens : List Token) (rest : Cursor), tokens.map (·.lexeme) = lexemes → follow rest.lexemes →
    ∃ next, (parser (.behind tokens rest)).result = (next rest).result ∧ cont next

def Parses (parser : Parser α) (lexemes : List Lexeme) (good : α → Prop) (follow : List Lexeme → Prop) :
    Prop := Leads parser lexemes (fun next => ∃ value, next = pure value ∧ good value) follow

theorem Parses.result {good : α → Prop} (parses : Parses parser lexemes good follow)
    (spelled : tokens.map (·.lexeme) = lexemes) (follows : follow rest.lexemes) :
    ∃ value, (parser (.behind tokens rest)).result = .ok (value, rest) ∧ good value := by
  obtain ⟨_, ok, value, rfl, isGood⟩ := parses tokens rest spelled follows
  exact ⟨value, ok, isGood⟩

/-- Values that are the same as another one once something is forgotten. -/
abbrev Same (erase : α → β) (value found : α) : Prop := erase found = erase value

abbrev Heads (test : Lexeme → Prop) (rest : List Lexeme) : Prop := ∀ first ∈ rest.head?, test first

theorem peek_bind_apply (next : Token → Parser α) (cursor : Cursor) :
    (peek >>= next) cursor = next cursor.head cursor := rfl

def joined (symbol : String) : List (List Lexeme) → List Lexeme
  | [] => []
  | first :: rest => first ++ rest.flatMap (.symbol symbol :: ·)

theorem isSymbol_mk : Token.isSymbol ⟨.symbol text, line, start, stop⟩ text = true := beq_self_eq_true _

theorem isKeyword_mk : Token.isKeyword ⟨.keyword word, line, start, stop⟩ word = true := beq_self_eq_true _

theorem head_eq : ∀ lexeme ∈ (first :: rest : List Lexeme).head?, lexeme = first :=
  fun _ head => (Option.some.inj head).symm

theorem head_ne {first : Lexeme} (differs : first ≠ other) : ∀ lexeme ∈ (first :: rest).head?, lexeme ≠ other :=
  fun lexeme head => head_eq lexeme head ▸ differs

theorem length_le_flatMap {γ : Type} {print : γ → List Lexeme} {symbol : String} (items : List γ) :
    items.length ≤ (items.flatMap fun x => .symbol symbol :: print x).length ∧
      ∀ x ∈ items, (print x).length ≤ (items.flatMap fun x => .symbol symbol :: print x).length := by
  induction items with
  | nil => simp
  | cons first rest ih =>
    rw [List.flatMap_cons, List.length_append, List.length_cons, List.length_cons]
    refine ⟨by omega, fun x member => ?_⟩
    rcases List.mem_cons.mp member with rfl | later
    · omega
    · have shorter := ih.2 x later
      omega

theorem length_le_joined {γ : Type} {print : γ → List Lexeme} {symbol : String} (items : List γ) :
    items.length ≤ (joined symbol (items.map print)).length + 1 ∧
      ∀ x ∈ items, (print x).length ≤ (joined symbol (items.map print)).length := by
  cases items with
  | nil => simp
  | cons first rest =>
    obtain ⟨fewer, shorter⟩ := @length_le_flatMap γ print symbol rest
    rw [List.map_cons, joined, List.flatMap_map, List.length_append, List.length_cons]
    refine ⟨by omega, fun x member => ?_⟩
    rcases List.mem_cons.mp member with rfl | later
    · omega
    · have short := shorter x later
      omega

namespace Parses

variable {good : α → Prop} {follow : List Lexeme → Prop} {lexemes : List Lexeme}

theorem mono (parses : Parses parser lexemes good follow) (better : ∀ value, good value → good' value)
    (fits : ∀ rest, follow' rest → follow rest) : Parses parser lexemes good' follow' := by
  intro tokens rest spelled follows
  obtain ⟨next, ok, value, same, isGood⟩ := parses tokens rest spelled (fits _ follows)
  exact ⟨next, ok, value, same, better value isGood⟩

theorem imp (parses : Parses parser lexemes good follow) (better : ∀ value, good value → good' value) :
    Parses parser lexemes good' follow := parses.mono better fun _ follows => follows

theorem pure (isGood : good value) : Parses (Pure.pure value) [] good follow := by
  intro tokens rest spelled _
  rw [List.map_eq_nil_iff.mp spelled]
  exact ⟨_, rfl, value, rfl, isGood⟩

end Parses

namespace Leads

variable {cont : Parser α → Prop} {follow : List Lexeme → Prop} {first : Lexeme} {others lexemes : List Lexeme}

theorem here (isCont : cont parser) : Leads parser [] cont follow := by
  intro tokens rest spelled _
  rw [List.map_eq_nil_iff.mp spelled]
  exact ⟨parser, rfl, isCont⟩

theorem trans (start : Leads parser lexemes middle follow')
    (goesOn : ∀ next, middle next → Leads next others cont follow)
    (fits : ∀ rest, follow rest → follow' (others ++ rest)) : Leads parser (lexemes ++ others) cont follow := by
  intro tokens rest spelled follows
  obtain ⟨left, right, rfl, leftSpelled, rightSpelled⟩ := List.map_eq_append_iff.mp spelled
  have inner : follow' (Cursor.behind right rest).lexemes := by
    rw [Cursor.lexemes_behind, rightSpelled]
    exact fits _ follows
  obtain ⟨next, same, isMiddle⟩ := start left _ leftSpelled inner
  obtain ⟨last, lastSame, isCont⟩ := goesOn next isMiddle right rest rightSpelled follows
  exact ⟨last, by rw [Cursor.behind_append, same, lastSame], isCont⟩

/-- The tokens of a sequence are those of its first step and then those of the next; the first step has to
stop where the next begins. -/
theorem bind {middle : β → Prop} (start : Parses parser lexemes middle follow')
    (goesOn : ∀ value, middle value → Leads (next value) others cont follow)
    (fits : ∀ rest, follow rest → follow' (others ++ rest)) :
    Leads (parser >>= next) (lexemes ++ others) cont follow := by
  have first : Leads (parser >>= next) lexemes (fun last => ∃ value, last = next value ∧ middle value) follow' := by
    intro tokens rest spelled follows
    obtain ⟨value, ok, isMiddle⟩ := start.result spelled follows
    exact ⟨next value, by rw [result_bind_apply, ok]; rfl, value, rfl, isMiddle⟩
  refine first.trans ?_ fits
  rintro _ ⟨value, rfl, isMiddle⟩
  exact goesOn value isMiddle

/-- A step that one token decides. -/
theorem token (start : Parses parser [first] (· = value) fun _ => True)
    (goesOn : Leads (next value) others cont follow) : Leads (parser >>= next) (first :: others) cont follow :=
  bind start (fun _ same => same ▸ goesOn) fun _ _ => trivial

/-! ### Single tokens -/

theorem peek (goesOn : ∀ line start stop, Leads (next ⟨first, line, start, stop⟩) (first :: others) cont follow) :
    Leads (Parser.peek >>= next) (first :: others) cont follow := by
  intro tokens rest spelled follows
  obtain ⟨⟨_, line, start, stop⟩, later, rfl, rfl, _⟩ := List.map_eq_cons_iff.mp spelled
  exact goesOn line start stop _ rest spelled follows

theorem look (goesOn : ∀ token, Leads (next token) lexemes cont follow) :
    Leads (Parser.peek >>= next) lexemes cont follow :=
  fun tokens rest spelled follows => goesOn _ tokens rest spelled follows

theorem peek_end (test : Lexeme → Prop) (goesOn : ∀ token, test token.lexeme → Leads (next token) [] cont follow)
    (fits : ∀ rest, follow rest → ∀ lexeme ∈ rest.head?, test lexeme) : Leads (Parser.peek >>= next) [] cont follow := by
  intro tokens rest spelled follows
  rw [List.map_eq_nil_iff.mp spelled]
  exact goesOn rest.head (fits _ follows _ rest.head?_lexemes) [] rest rfl follows

theorem peekSecond (goesOn : ∀ line start stop,
      Leads (next ⟨second, line, start, stop⟩) (first :: second :: others) cont follow) :
    Leads (Parser.peekSecond >>= next) (first :: second :: others) cont follow := by
  intro tokens rest spelled follows
  obtain ⟨token, later, rfl, _, laterSpelled⟩ := List.map_eq_cons_iff.mp spelled
  obtain ⟨⟨_, line, start, stop⟩, after, rfl, rfl, _⟩ := List.map_eq_cons_iff.mp laterSpelled
  exact goesOn line start stop _ rest spelled follows

theorem pass (holds : test = true) (goesOn : Leads yes lexemes cont follow) :
    Leads (if test = true then yes else no) lexemes cont follow := by rwa [if_pos holds]

theorem skip (fails : test = false) (goesOn : Leads no lexemes cont follow) :
    Leads (if test = true then yes else no) lexemes cont follow := by rwa [if_neg (Bool.eq_false_iff.mp fails)]

theorem advance (goesOn : ∀ token, token.lexeme = first → Leads (next token) others cont follow) :
    Leads (Parser.advance >>= next) (first :: others) cont follow := by
  intro tokens rest spelled follows
  obtain ⟨token, later, rfl, same, laterSpelled⟩ := List.map_eq_cons_iff.mp spelled
  exact goesOn token same later rest laterSpelled follows

theorem expectSymbol (goesOn : ∀ token, Leads (next token) others cont follow) :
    Leads (Parser.expectSymbol text >>= next) (.symbol text :: others) cont follow := by
  rw [Parser.expectSymbol, bind_assoc]
  refine peek fun line start stop => ?_
  rw [if_pos isSymbol_mk]
  exact advance fun token _ => goesOn token

theorem expectKeyword (goesOn : ∀ token, Leads (next token) others cont follow) :
    Leads (Parser.expectKeyword word >>= next) (.keyword word :: others) cont follow := by
  rw [Parser.expectKeyword, bind_assoc]
  refine peek fun line start stop => ?_
  rw [if_pos isKeyword_mk]
  exact advance fun token _ => goesOn token

theorem expectIdentifier (goesOn : ∀ line, Leads (next (name, line)) others cont follow) :
    Leads (Parser.expectIdentifier >>= next) (.identifier name :: others) cont follow := by
  rw [Parser.expectIdentifier, bind_assoc]
  refine peek fun line start stop => ?_
  simp only [bind_assoc, pure_bind]
  exact advance fun _ _ => goesOn line

theorem acceptSymbol (goesOn : Leads (next true) others cont follow) :
    Leads (Parser.acceptSymbol text >>= next) (.symbol text :: others) cont follow := by
  rw [Parser.acceptSymbol, bind_assoc]
  refine peek fun line start stop => ?_
  rw [if_pos isSymbol_mk, bind_assoc]
  exact advance fun _ _ => goesOn

theorem acceptKeyword (goesOn : Leads (next true) others cont follow) :
    Leads (Parser.acceptKeyword word >>= next) (.keyword word :: others) cont follow := by
  rw [Parser.acceptKeyword, bind_assoc]
  refine peek fun line start stop => ?_
  rw [if_pos isKeyword_mk, bind_assoc]
  exact advance fun _ _ => goesOn

theorem ifSymbol (goesOn : Leads yes others cont follow) :
    Leads (Parser.acceptSymbol text >>= fun found => if found = true then yes else no) (.symbol text :: others) cont
      follow := acceptSymbol goesOn

theorem ifKeyword (goesOn : Leads yes others cont follow) :
    Leads (Parser.acceptKeyword word >>= fun found => if found = true then yes else no) (.keyword word :: others) cont
      follow := acceptKeyword goesOn

theorem stay {next : β → Parser α} {test : Lexeme → Prop}
    (stays : ∀ cursor : Cursor, test cursor.head.lexeme → (parser cursor).result = .ok (value, cursor))
    (goesOn : Leads (next value) lexemes cont follow)
    (fits : ∀ rest, follow rest → ∀ lexeme ∈ (lexemes ++ rest).head?, test lexeme) :
    Leads (parser >>= next) lexemes cont follow := by
  intro tokens rest spelled follows
  obtain ⟨result, ok, isCont⟩ := goesOn tokens rest spelled follows
  refine ⟨result, ?_, isCont⟩
  have starts : test (Cursor.behind tokens rest).head.lexeme := by
    refine fits _ follows _ ?_
    rw [← spelled, ← Cursor.lexemes_behind]
    exact Cursor.head?_lexemes _
  rw [result_bind_apply, stays _ starts]
  exact ok

theorem acceptSymbol_false (goesOn : Leads (next false) lexemes cont follow)
    (fits : ∀ rest, follow rest → ∀ lexeme ∈ (lexemes ++ rest).head?, lexeme ≠ .symbol text) :
    Leads (Parser.acceptSymbol text >>= next) lexemes cont follow := by
  refine stay (fun cursor other => ?_) goesOn fits
  have notSymbol : cursor.head.isSymbol text = false := by simpa [Token.isSymbol] using other
  rw [Parser.acceptSymbol, peek_bind_apply, notSymbol]
  rfl

theorem acceptKeyword_false (goesOn : Leads (next false) lexemes cont follow)
    (fits : ∀ rest, follow rest → ∀ lexeme ∈ (lexemes ++ rest).head?, lexeme ≠ .keyword word) :
    Leads (Parser.acceptKeyword word >>= next) lexemes cont follow := by
  refine stay (fun cursor other => ?_) goesOn fits
  have notKeyword : cursor.head.isKeyword word = false := by simpa [Token.isKeyword] using other
  rw [Parser.acceptKeyword, peek_bind_apply, notKeyword]
  rfl

theorem elseSymbol (goesOn : Leads (next false) (first :: others) cont follow) (differs : first ≠ .symbol text := by simp) :
    Leads (Parser.acceptSymbol text >>= next) (first :: others) cont follow :=
  acceptSymbol_false goesOn fun _ _ => head_ne differs

theorem elseKeyword (goesOn : Leads (next false) (first :: others) cont follow) (differs : first ≠ .keyword word := by simp) :
    Leads (Parser.acceptKeyword word >>= next) (first :: others) cont follow :=
  acceptKeyword_false goesOn fun _ _ => head_ne differs

theorem skipIdentifier (goesOn : Leads (next ()) lexemes cont follow)
    (fits : ∀ rest, follow rest → ∀ lexeme ∈ (lexemes ++ rest).head?, lexeme.isIdentifier = false) :
    Leads (Parser.skipIdentifier >>= next) lexemes cont follow := by
  refine stay (fun cursor other => ?_) goesOn fits
  rw [Parser.skipIdentifier, peek_bind_apply, Token.isIdentifier, other]
  rfl

theorem skipDelay (goesOn : Leads (next ()) lexemes cont follow)
    (fits : ∀ rest, follow rest → ∀ lexeme ∈ (lexemes ++ rest).head?, lexeme ≠ .keyword "after") :
    Leads (Parser.skipDelay >>= next) lexemes cont follow := by
  refine stay (fun cursor other => ?_) goesOn fits
  have notAfter : cursor.head.isKeyword "after" = false := by simpa [Token.isKeyword] using other
  rw [Parser.skipDelay, peek_bind_apply, notAfter]
  rfl

end Leads

namespace Parses

variable {good : α → Prop} {follow : List Lexeme → Prop}

theorem map {view : β → α} (parses : Parses parser lexemes middle follow)
    (makes : ∀ value, middle value → good (view value)) :
    Parses (parser >>= fun value => Pure.pure (view value)) lexemes good follow := by
  rw [← List.append_nil lexemes]
  exact Leads.bind parses (fun value isMiddle => pure (makes value isMiddle)) fun _ follows => follows

/-! ### Lists -/

section Lists

variable {γ δ : Type} {item : Parser β} {print : γ → List Lexeme} {view : β → δ} {expected : γ → δ}
  {symbol : String} {itemFollow : List Lexeme → Prop}

theorem listAfter {items : List γ}
    (parses : ∀ x ∈ items, Parses item (print x) (fun value => view value = expected x) itemFollow)
    (between : ∀ rest, itemFollow (.symbol symbol :: rest))
    (fits : ∀ rest, follow rest → itemFollow rest ∧ ∀ lexeme ∈ rest.head?, lexeme ≠ .symbol symbol)
    (enough : items.length ≤ bound) :
    Parses (Parser.listAfter symbol item bound) (items.flatMap fun x => .symbol symbol :: print x)
      (fun values => values.map view = items.map expected) follow := by
  induction items generalizing bound with
  | nil =>
    cases bound with
    | zero => exact pure rfl
    | succ bound => exact Leads.acceptSymbol_false (pure rfl) fun rest follows => (fits rest follows).2
  | cons x items ih =>
    cases bound with
    | zero => simp at enough
    | succ bound =>
      have later := ih (fun y member => parses y (List.mem_cons_of_mem x member)) (Nat.le_of_succ_le_succ enough)
      rw [List.flatMap_cons, List.cons_append]
      refine Leads.acceptSymbol (Leads.bind (parses x (List.mem_cons_self ..)) (fun value same => ?_) ?_)
      · refine map later fun values sames => ?_
        rw [List.map_cons, List.map_cons, same, sames]
      · intro rest follows
        cases items with
        | nil => exact (fits rest follows).1
        | cons y items => exact between _

theorem separated (present : items ≠ [])
    (parses : ∀ x ∈ items, Parses item (print x) (fun value => view value = expected x) itemFollow)
    (between : ∀ rest, itemFollow (.symbol symbol :: rest))
    (fits : ∀ rest, follow rest → itemFollow rest ∧ ∀ lexeme ∈ rest.head?, lexeme ≠ .symbol symbol)
    (enough : items.length ≤ bound + 1) :
    Parses (Parser.separated symbol item bound) (joined symbol (items.map print))
      (fun values => values.map view = items.map expected) follow := by
  cases items with
  | nil => exact absurd rfl present
  | cons x items =>
    have later := listAfter (fun y member => parses y (List.mem_cons_of_mem x member)) between fits
      (Nat.le_of_succ_le_succ enough)
    rw [List.map_cons, joined, List.flatMap_map]
    refine Leads.bind (parses x (List.mem_cons_self ..)) (fun value same => ?_) ?_
    · refine map later fun values sames => ?_
      rw [List.map_cons, List.map_cons, same, sames]
    · intro rest follows
      cases items with
      | nil => exact (fits rest follows).1
      | cons y items => exact between _

/-- A parser that takes one item per round takes them all. -/
theorem rounds {parser : Nat → Parser β} (good : List γ → β → Prop) {items : List γ} {others : List Lexeme}
    (present : ∀ x, 0 < (print x).length)
    (step : ∀ x ∈ items, ∀ {bound rest lexemes}, (print x).length ≤ bound + 1 →
      Parses (parser bound) lexemes (good rest) follow →
        Parses (parser (bound + 1)) (print x ++ lexemes) (good (x :: rest)) follow)
    (last : ∀ bound, others.length < bound → Parses (parser bound) others (good []) follow)
    (enough : (items.flatMap print ++ others).length < bound) :
    Parses (parser bound) (items.flatMap print ++ others) (good items) follow := by
  induction items generalizing bound with
  | nil => exact last bound enough
  | cons x items ih =>
    rw [List.flatMap_cons, List.append_assoc] at enough ⊢
    rw [List.length_append] at enough
    have positive := present x
    obtain ⟨less, rfl⟩ : ∃ less, bound = less + 1 := ⟨bound - 1, by omega⟩
    exact step x (List.mem_cons_self ..) (by omega)
      (ih (fun y member => step y (List.mem_cons_of_mem x member)) (by omega))

end Lists

theorem identifiers (present : names ≠ []) (fits : ∀ rest, follow rest → ∀ lexeme ∈ rest.head?, lexeme ≠ .symbol ",")
    (enough : names.length ≤ bound + 1) :
    Parses (Parser.identifiers bound) (joined "," (names.map fun name => [.identifier name]))
      (fun found => found.map Prod.fst = names) follow := by
  have single : ∀ name ∈ names, Parses Parser.expectIdentifier [.identifier name]
      (fun found => found.1 = name) fun _ => True := by
    intro name _
    rw [← bind_pure Parser.expectIdentifier]
    exact Leads.expectIdentifier fun line => pure rfl
  have list : Parses (Parser.identifiers bound) (joined "," (names.map fun name => [.identifier name]))
      (fun found => found.map Prod.fst = names.map id) follow :=
    separated present single (fun _ => trivial) (fun rest follows => ⟨trivial, fits rest follows⟩) enough
  rw [List.map_id] at list
  exact list

end Parses

end Parser

end RtlBridge.Vhdl

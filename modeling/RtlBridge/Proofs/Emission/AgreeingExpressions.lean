import RtlBridge.Proofs.Emission.Reading

/-! Expressions in the two dialects. They are written alike, except that an aggregate of one bit is spelled out
in the older dialect, as many bits as its width says, and is a fill literal in the newer one. -/

namespace RtlBridge.Emission

open List

open Vhdl (NameTable)
open Verilog (Expr)

/-! ### Aggregates of one bit -/

/-- An aggregate of one bit that is written, and the width that its place gives it. -/
structure Fill where
  bit : Char
  width : Option Int
deriving Repr, DecidableEq

def reached {α : Type} (step : Except Refusal α) (rest : List Fill) : List Fill :=
  match step with
  | .ok _ => rest
  | .error _ => []

/-- The aggregates of one bit that are written for an expression, up to the first part that the newer dialect
refuses. -/
def fills (names : NameTable) (lend : Bool) (width : Option Int) : Vhdl.Expr → List Fill
  | .name _ _ => []
  | .literal _ _ => []
  | .binary _ lhs rhs _ =>
    fills names lend (lentWidth names lend lhs rhs) lhs ++
      reached (expr names Dialect.strict.profile lend (lentWidth names lend lhs rhs) lhs)
        (fills names lend (lentWidth names lend rhs lhs) rhs)
  | .unary _ operand _ => fills names lend none operand
  | .call function arguments _ =>
    match Vhdl.Builtin.shift? function, arguments with
    | some _, value :: amount :: _ =>
      fills names false none value ++
        reached (expr names Dialect.strict.profile false none value) (fills names false none amount)
    | some _, [value] => fills names false none value
    | _, first :: _ => if (Vhdl.Builtin.edge? function).isSome then [] else fills names false width first
    | _, [] => []
  | .aggregate fill _ _ =>
    match fill with
    | .literal (.bit bit) _ => [⟨bitDigit bit, width⟩]
    | fill => if width.isSome then fills names false none fill else []
  | .concat parts _ => fillsAll parts
  | .index base subscript _ =>
    fills names false none base ++
      reached (expr names Dialect.strict.profile false none base) (fills names false none subscript)
  | .slice base left right _ =>
    fills names false none base ++ reached (expr names Dialect.strict.profile false none base)
      (fills names false none left ++
        reached (expr names Dialect.strict.profile false none left) (fills names false none right))
  | .tick _ _ _ => []
where
  fillsAll : List Vhdl.Expr → List Fill
    | [] => []
    | first :: rest =>
      fills names false none first ++ reached (expr names Dialect.strict.profile false none first) (fillsAll rest)

/-- The aggregates in a list of things that are written one by one. -/
def fillsOfEach {α β : Type} (step : α → Except Refusal β) (inside : α → List Fill) : List α → List Fill
  | [] => []
  | first :: rest => inside first ++ reached (step first) (fillsOfEach step inside rest)

/-! ### Outcomes -/

/-- The outcomes of writing the same thing in the older and in the newer dialect: both are written and agree, or
both are refused for the same reason, or the older one has no room for the bits of an aggregate. -/
inductive Agree {α β : Type} (alike : α → β → Prop) : Except Refusal α → Except Refusal β → Prop where
  | written {old : α} {new : β} (agree : alike old new) : Agree alike (.ok old) (.ok new)
  | refused (refusal : Refusal) : Agree alike (.error refusal) (.error refusal)
  | outOfRoom (fault : Text.RunFault) (new : Except Refusal β) : Agree alike (.error (.run fault)) new

namespace Agree

variable {α β γ δ : Type} {alike : α → β → Prop} {after : γ → δ → Prop}

theorem bind (start : Agree alike old new)
    (goesOn : ∀ first second, new = .ok second → alike first second → Agree after (oldNext first) (newNext second)) :
    Agree after (old >>= oldNext) (new >>= newNext) := by
  cases start with
  | written agree => exact goesOn _ _ rfl agree
  | refused refusal => exact .refused refusal
  | outOfRoom fault new => exact .outOfRoom fault _

theorem andThen (inside : here ++ reached new there ⊆ among) (start : here ⊆ among → Agree alike old new)
    (goesOn : ∀ first second, there ⊆ among → alike first second → Agree after (oldNext first) (newNext second)) :
    Agree after (old >>= oldNext) (new >>= newNext) := by
  obtain ⟨isHere, isThere⟩ := append_subset.mp inside
  refine bind (start isHere) fun first second ok agree => goesOn first second ?_ agree
  rwa [ok] at isThere

theorem mono (implies : ∀ old new, alike old new → weaker old new) (agree : Agree alike old new) : Agree weaker old new := by
  cases agree with
  | written agree => exact .written (implies _ _ agree)
  | refused refusal => exact .refused refusal
  | outOfRoom fault new => exact .outOfRoom fault new

theorem mapM {ι : Type} {alike : ι → α → β → Prop} {oldStep : ι → Except Refusal α} {newStep : ι → Except Refusal β}
    {within : ι → List Fill} {list : List ι} (inside : fillsOfEach newStep within list ⊆ among)
    (each : ∀ source ∈ list, within source ⊆ among → Agree (alike source) (oldStep source) (newStep source)) :
    Agree (fun olds news => ∃ pairs, olds = pairs.map Prod.fst ∧ news = pairs.map Prod.snd ∧
      Forall₂ (fun source pair => alike source pair.1 pair.2) list pairs) (list.mapM oldStep) (list.mapM newStep) := by
  induction list with
  | nil => exact .written ⟨[], rfl, rfl, .nil⟩
  | cons first rest ih =>
    rw [mapM_cons, mapM_cons]
    obtain ⟨here, later⟩ := forall_mem_cons.mp each
    refine andThen inside here fun oldHead newHead isThere agree => (ih isThere later).bind ?_
    rintro _ _ _ ⟨pairs, rfl, rfl, agrees⟩
    exact .written ⟨(oldHead, newHead) :: pairs, rfl, rfl, .cons agree agrees⟩

theorem mapM_all {ι : Type} {oldStep : ι → Except Refusal α} {newStep : ι → Except Refusal β} {within : ι → List Fill}
    {list : List ι} (inside : fillsOfEach newStep within list ⊆ among)
    (each : ∀ source ∈ list, within source ⊆ among → Agree alike (oldStep source) (newStep source)) :
    Agree (Forall₂ alike) (list.mapM oldStep) (list.mapM newStep) := by
  refine (mapM inside each).mono ?_
  rintro _ _ ⟨pairs, rfl, rfl, agree⟩
  rw [forall₂_map_left_iff, forall₂_map_right_iff, forall₂_same]
  intro pair member
  obtain ⟨_, _, agrees⟩ := source_of_mem agree member
  exact agrees

end Agree

/-! ### Texts -/

/-- Texts that are the same apart from aggregates among some: those are spelled out in the first text and fill
literals in the second. -/
inductive TextsAgree (among : List Fill) : String → String → Prop where
  | same (text : String) : TextsAgree among text text
  | fill {bit : Char} {width : Int} (member : ⟨bit, some width⟩ ∈ among) :
      TextsAgree among (Expr.sized width .binary (String.ofList (replicate width.toNat bit))).text (Expr.fill bit).text
  | append {old new oldRest newRest : String} (start : TextsAgree among old new)
      (rest : TextsAgree among oldRest newRest) : TextsAgree among (old ++ oldRest) (new ++ newRest)

def ExprsAgree (among : List Fill) (old new : Expr) : Prop := TextsAgree among old.text new.text

section

variable {among : List Fill}

theorem TextsAgree.intercalate (separator : String) (agree : Forall₂ (TextsAgree among) old new) :
    TextsAgree among (separator.intercalate old) (separator.intercalate new) := by
  induction agree with
  | nil => exact .same _
  | cons first rest ih =>
    cases rest with
    | nil =>
      rw [String.intercalate_singleton, String.intercalate_singleton]
      exact first
    | cons second later =>
      rw [String.intercalate_cons_cons, String.intercalate_cons_cons]
      exact .append (.append first (.same separator)) ih

theorem ExprsAgree.texts (agree : Forall₂ (ExprsAgree among) old new) :
    Forall₂ (TextsAgree among) (Expr.text.texts old) (Expr.text.texts new) := by
  induction agree with
  | nil => exact .nil
  | cons first _ ih => exact .cons first ih

theorem ExprsAgree.paren (agree : ExprsAgree among old new) : ExprsAgree among (.paren old) (.paren new) :=
  .append (.append (.same _) agree) (.same _)

theorem ExprsAgree.unary (op : Verilog.UnaryOp) (agree : ExprsAgree among old new) :
    ExprsAgree among (.unary op old) (.unary op new) := .append (.same _) agree

theorem ExprsAgree.binary (op : Verilog.BinaryOp) (first : ExprsAgree among left left')
    (second : ExprsAgree among right right') : ExprsAgree among (.binary op left right) (.binary op left' right') :=
  .append (.append (.append (.append first (.same _)) (.same _)) (.same _)) second

theorem ExprsAgree.grouped (source : Vhdl.Expr) {old new : Expr} (agree : ExprsAgree among old new) :
    ExprsAgree among (grouped source old) (grouped source new) := by
  rw [Emission.grouped, Emission.grouped]
  split
  · exact agree.paren
  · exact agree

theorem ExprsAgree.signedOperand (source : Vhdl.Expr) (agree : ExprsAgree among old new) :
    ExprsAgree among
      (match source with
        | .unary _ _ _ => .paren old
        | _ => old)
      (match source with
        | .unary _ _ _ => .paren new
        | _ => new) := by
  split
  · exact agree.paren
  · exact agree

theorem ExprsAgree.signed (op : Vhdl.UnaryOp) (source : Vhdl.Expr) {old new : Expr}
    (agree : ExprsAgree among old new) : ExprsAgree among (signed op source old) (signed op source new) := by
  have operand := agree.signedOperand source
  cases op with
  | not | minus => exact operand.unary _
  | plus => exact operand

theorem ExprsAgree.index (first : ExprsAgree among base base') (second : ExprsAgree among subscript subscript') :
    ExprsAgree among (.index base subscript) (.index base' subscript') :=
  .append (.append (.append first (.same _)) second) (.same _)

/-! ### Expressions -/

variable (names : NameTable)

theorem fillsAll_eq (parts : List Vhdl.Expr) : fills.fillsAll names parts =
    fillsOfEach (expr names Dialect.strict.profile false none) (fills names false none) parts := by
  induction parts with
  | nil => rfl
  | cons first rest ih => rw [fills.fillsAll, fillsOfEach, ih]

variable (sized : ∀ fill ∈ among, fill.width.isSome = true)

include sized

theorem filled_agrees (line : Nat) (member : ⟨bitDigit bit, width⟩ ∈ among) :
    Agree (ExprsAgree among) (filled Dialect.legacy.profile bit width line)
      (filled Dialect.strict.profile bit width line) := by
  obtain ⟨count, rfl⟩ := Option.isSome_iff_exists.mp (sized _ member)
  change Agree _ (((Text.run (bitDigit bit) count).mapError .run) >>= fun digits =>
    .ok (Expr.sized count .binary digits)) _
  cases ran : Text.run (bitDigit bit) count with
  | error fault => exact .outOfRoom fault _
  | ok digits =>
    have spelled : digits = String.ofList (replicate count.toNat (bitDigit bit)) := by
      rw [← Text.toList_of_run ran, String.ofList_toList]
    rw [spelled]
    exact .written (.fill member)

theorem expr_agrees (source : Vhdl.Expr) (inside : fills names lend width source ⊆ among) :
    Agree (ExprsAgree among) (expr names Dialect.legacy.profile lend width source)
      (expr names Dialect.strict.profile lend width source) := by
  induction source using Vhdl.Expr.induction generalizing lend width with
  | name spelling line | literal value line => exact .written (.same _)
  | binary op lhs rhs line left right =>
    rw [expr, expr]
    refine .andThen inside left fun oldLeft newLeft isRight first => ?_
    refine (right isRight).bind fun oldRight newRight _ second => ?_
    have both := ExprsAgree.binary (operator op).op (first.grouped lhs) (second.grouped rhs)
    cases (operator op).negated with
    | true => exact .written (both.paren.unary _)
    | false => exact .written both
  | unary op operand line ih =>
    rw [expr, expr]
    exact (ih inside).bind fun old new _ agree => .written ((agree.grouped operand).signed op operand)
  | call function arguments line ih =>
    rw [fills.eq_def] at inside
    cases shift : Vhdl.Builtin.shift? function with
    | some kind =>
      simp only [shift] at inside
      cases arguments with
      | nil =>
        simp only [expr]
        exact .refused _
      | cons value tail =>
        cases tail with
        | nil =>
          rw [expr.eq_def, expr.eq_def names Dialect.strict.profile]
          simp only [shift]
          exact (ih value (by simp) inside).bind fun old new _ agree => .refused _
        | cons amount rest =>
          rw [expr_shift shift, expr_shift shift]
          refine .andThen inside (ih value (by simp)) fun oldLeft newLeft isRight first => ?_
          refine (ih amount (by simp) isRight).bind fun oldRight newRight _ second => ?_
          exact .written (.binary _ (first.grouped value) (second.grouped amount))
    | none =>
      simp only [shift] at inside
      cases arguments with
      | nil =>
        simp only [expr]
        exact .refused _
      | cons first rest =>
        rw [expr_conversion shift, expr_conversion shift]
        dsimp only at inside
        split
        · exact .refused _
        · rename_i notEdge
          rw [if_neg notEdge] at inside
          exact ih first (by simp) inside
  | aggregate fill site line ih =>
    rw [fills.eq_def] at inside
    dsimp only at inside
    split at inside
    · exact filled_agrees sized line (inside (mem_singleton_self _))
    · rename_i notBit
      rw [expr_aggregate notBit, expr_aggregate notBit]
      cases width with
      | none => exact .refused _
      | some count =>
        refine (ih (by simpa using inside)).bind fun old new _ agree => .written ?_
        exact .append (.append (.same _) agree) (.same _)
  | concat parts line ih =>
    rw [expr, expr, exprs_eq_mapM, exprs_eq_mapM]
    rw [fills, fillsAll_eq] at inside
    refine (Agree.mapM_all inside fun part member => ih part member).bind fun old new _ agree => .written ?_
    exact .append (.append (.same _) (.intercalate _ (ExprsAgree.texts agree))) (.same _)
  | index base subscript line first second =>
    rw [expr, expr]
    refine .andThen inside first fun oldBase newBase isSubscript agree => ?_
    exact (second isSubscript).bind fun old new _ agrees => .written (agree.index agrees)
  | slice base left right line first second third =>
    rw [expr, expr]
    refine .andThen inside first fun oldBase newBase isRange agree => ?_
    refine .andThen isRange second fun oldHigh newHigh isLow high => ?_
    refine (third isLow).bind fun oldLow newLow _ low => .written ?_
    exact .append (.append (.append (.append (.append agree (.same _)) high) (.same _)) low) (.same _)
  | tick base property line ih => exact .refused _

end

end RtlBridge.Emission

import RtlBridge.Proofs.Emission.TidyText

/-! Where minus signs meet in a written expression. Operators stand between blanks, and a sign in front of a sign takes
parentheses; but a conversion vanishes, and with it what would keep the signs around it apart. -/

namespace RtlBridge.Emission

open List

open Verilog (Apart isFigure Base Expr UnaryOp)
open Vhdl (NameTable)

/-! ### Texts -/

theorem apart_append (other : c ≠ '-') : Apart (first ++ c :: rest) ↔ Apart first ∧ Apart rest := by
  rw [Apart, isChain_append, isChain_cons]
  simp [Apart, other]

theorem apart_cons (other : c ≠ '-') : Apart (c :: rest) ↔ Apart rest := (apart_append other).trans (and_iff_right .nil)

theorem apart_closed (other : c ≠ '-') : Apart (first ++ [c]) ↔ Apart first :=
  (apart_append other).trans (and_iff_left .nil)

theorem apart_minus : Apart ('-' :: rest) ↔ rest.head? ≠ some '-' ∧ Apart rest := by cases rest <;> simp [Apart]

theorem apart_of_ne (none : ∀ c ∈ text, c ≠ '-') : Apart text := by
  induction text with
  | nil => exact .nil
  | cons c rest ih =>
    obtain ⟨other, others⟩ := forall_mem_cons.mp none
    exact (apart_cons other).mpr (ih others)

theorem apart_figures (figures : ∀ c ∈ text, isFigure c = true) : text.head? ≠ some '-' ∧ Apart text := by
  have none : ∀ c ∈ text, c ≠ '-' := by
    rintro _ member rfl
    exact absurd (figures _ member) (by decide)
  exact ⟨fun head => none _ (mem_of_head? head) rfl, apart_of_ne none⟩

theorem apart_of_isNumber (number : Verilog.IsNumber text) : Apart text := by
  obtain ⟨figures, areFigures, rfl | rfl⟩ := number
  · exact (apart_figures areFigures).2
  · exact apart_minus.mpr (apart_figures areFigures)

theorem apart_sized (size : Int) (base : Base) {digits : String}
    (figures : ∀ c ∈ digits.toList, isFigure c = true) : Apart (Expr.sized size base digits).text.toList := by
  have letter : base.letter ≠ '-' := by cases base <;> decide
  rw [Expr.toList_text_sized, apart_append (by decide), apart_cons letter]
  exact ⟨apart_of_isNumber (Verilog.isNumber_toString size), (apart_figures figures).2⟩

theorem apart_intercalate (parts : List Expr) :
    Apart ([',', ' '].intercalate (parts.map fun part => part.text.toList)) ↔
      ∀ part ∈ parts, Apart part.text.toList := by
  induction parts with
  | nil => simp [Apart]
  | cons part others ih =>
    cases others with
    | nil => simp
    | cons second others =>
      rw [map_cons] at ih
      rw [map_cons, map_cons, intercalate_cons_cons, append_assoc, cons_append,
        apart_append (by decide), cons_append, apart_cons (by decide), nil_append, ih]
      exact (forall_mem_cons (p := fun part : Expr => Apart part.text.toList)).symm

/-! ### Expressions -/

/-- Whether an operand stands in parentheses behind a sign. -/
def isEnclosed : Vhdl.Expr → Bool
  | .unary _ _ _ => true
  | operand => isOperation operand

/-- Whether what is written for an expression, if it is no operation, begins with a minus sign. -/
def leadsWithMinus : Vhdl.Expr → Bool
  | .literal (.decimal digits) _ => digits.toList.head? = some '-'
  | .unary op operand _ => op = .minus || (op = .plus && !isEnclosed operand && leadsWithMinus operand)
  | .call _ (first :: _) _ => leadsWithMinus first
  | _ => false

/-- Whether a minus sign is written in front of an operand without parentheses that begins with one: at the root of the
expression or in a part of it that is written. -/
def signsMeet : Vhdl.Expr → Bool
  | .binary _ lhs rhs _ => signsMeet lhs || signsMeet rhs
  | .unary op operand _ => (op = .minus && !isEnclosed operand && leadsWithMinus operand) || signsMeet operand
  | .call function arguments _ =>
    match Vhdl.Builtin.shift? function, arguments with
    | some _, value :: amount :: _ => signsMeet value || signsMeet amount
    | _, first :: _ => signsMeet first
    | _, [] => false
  | .aggregate fill _ _ => signsMeet fill
  | .concat parts _ => anyMeet parts
  | .index _ subscript _ => signsMeet subscript
  | .slice _ left right _ => signsMeet left || signsMeet right
  | _ => false
where
  anyMeet : List Vhdl.Expr → Bool
    | [] => false
    | first :: rest => signsMeet first || anyMeet rest

theorem anyMeet_eq_any (parts : List Vhdl.Expr) : signsMeet.anyMeet parts = parts.any signsMeet := by
  induction parts with
  | nil => rfl
  | cons first rest ih => rw [signsMeet.anyMeet, ih, any_cons]

theorem signsMeet_shift (found : Vhdl.Builtin.shift? function = some shift) :
    signsMeet (.call function (value :: amount :: rest) line) = (signsMeet value || signsMeet amount) := by
  rw [signsMeet.eq_def]
  simp only [found]

theorem signsMeet_conversion (notShift : Vhdl.Builtin.shift? function = none) :
    signsMeet (.call function (first :: rest) line) = signsMeet first := by
  rw [signsMeet.eq_def]
  simp only [notShift]

theorem apart_paren (written : Expr) : Apart (Expr.paren written).text.toList ↔ Apart written.text.toList := by
  rw [Expr.toList_text_paren, apart_cons (by decide), apart_closed (by decide)]

theorem apart_grouped (source : Vhdl.Expr) (written : Expr) :
    Apart (grouped source written).text.toList ↔ Apart written.text.toList := by
  rw [grouped]
  split
  · exact apart_paren written
  · rfl

theorem apart_binary (op : Verilog.BinaryOp) (lhs rhs : Expr) :
    Apart (Expr.binary op lhs rhs).text.toList ↔ Apart lhs.text.toList ∧ Apart rhs.text.toList := by
  have apart : Apart op.text.toList := by cases op <;> decide
  rw [Expr.toList_text_binary, cons_append, apart_append (by decide), append_assoc,
    cons_append, apart_append (by decide), nil_append, and_iff_right apart]

/-- The operand of a sign as it is written: in parentheses, or as it is. -/
theorem signed_plus (source : Vhdl.Expr) (written : Expr) :
    isEnclosed source = true ∧ (∃ inner, signed .plus source (grouped source written) = .paren inner ∧
        (Apart inner.text.toList ↔ Apart written.text.toList)) ∨
      isEnclosed source = false ∧ signed .plus source (grouped source written) = written := by
  have plain (isGroup : isEnclosed source = isOperation source) (bare : ∀ operand, signed .plus source operand = operand) :
      isEnclosed source = true ∧ (∃ inner, signed .plus source (grouped source written) = .paren inner ∧
          (Apart inner.text.toList ↔ Apart written.text.toList)) ∨
        isEnclosed source = false ∧ signed .plus source (grouped source written) = written := by
    rw [isGroup, bare, grouped]
    cases isOperation source with
    | true => exact .inl ⟨rfl, written, rfl, Iff.rfl⟩
    | false => exact .inr ⟨rfl, rfl⟩
  cases source with
  | unary op operand line => exact .inl ⟨rfl, _, rfl, apart_grouped _ written⟩
  | _ => exact plain rfl fun _ => rfl

theorem head?_signed (op : Vhdl.UnaryOp) (source : Vhdl.Expr) (written : Expr) :
    (signed op source (grouped source written)).text.toList.head? = some '-' ↔
      op = .minus ∨ op = .plus ∧ isEnclosed source = false ∧ written.text.toList.head? = some '-' := by
  cases op with
  | not | minus => simp [signed, Expr.toList_text_unary, UnaryOp.text]
  | plus =>
    obtain ⟨enclosed, inner, is, _⟩ | ⟨bare, is⟩ := signed_plus source written
    · simp [is, enclosed, Expr.toList_text_paren]
    · simp [is, bare]

theorem apart_signed (op : Vhdl.UnaryOp) (source : Vhdl.Expr) (written : Expr) :
    Apart (signed op source (grouped source written)).text.toList ↔
      Apart written.text.toList ∧ (op = .minus → isEnclosed source = false → written.text.toList.head? ≠ some '-') := by
  have operand : Apart (signed .plus source (grouped source written)).text.toList ↔ Apart written.text.toList := by
    obtain ⟨_, inner, is, same⟩ | ⟨_, is⟩ := signed_plus source written
    · rw [is, apart_paren, same]
    · rw [is]
  cases op with
  | not =>
    change Apart (Expr.unary .complement (signed .plus source (grouped source written))).text.toList ↔ _
    rw [Expr.toList_text_unary, ← operand]
    exact (apart_cons (by decide)).trans (by simp)
  | minus =>
    change Apart (Expr.unary .negate (signed .plus source (grouped source written))).text.toList ↔ _
    rw [Expr.toList_text_unary, ← operand]
    change Apart ('-' :: (signed .plus source (grouped source written)).text.toList) ↔ _
    rw [apart_minus, ne_eq, head?_signed]
    simp [and_comm]
  | plus => simp [operand]

theorem head?_append (first : text.head? ≠ some '-') (other : c ≠ '-') : (text ++ c :: rest).head? ≠ some '-' := by
  cases text with
  | nil => simpa using other
  | cons => simpa using first

theorem head?_sized (size : Nat) (base : Base) (digits : String) :
    (Expr.sized size base digits).text.toList.head? ≠ some '-' := by
  rw [Expr.toList_text_sized]
  exact head?_append (apart_figures (Verilog.isFigure_toString size)).1 (by decide)

theorem head?_literal (value : Vhdl.Literal) (line : Nat) :
    (literal value).text.toList.head? = some '-' ↔ leadsWithMinus (.literal value line) = true := by
  cases value with
  | bit text => exact iff_of_false (head?_sized 1 .binary _) Bool.false_ne_true
  | hex digits => exact iff_of_false (head?_sized (4 * digits.length) .hex _) Bool.false_ne_true
  | binary digits => exact iff_of_false (head?_sized digits.length .binary _) Bool.false_ne_true
  | decimal digits => simp [leadsWithMinus, literal, Expr.text]

theorem apart_literal (readable : value.IsReadable) : Apart (literal value).text.toList := by
  have clean := literal_isClean readable false
  cases value with
  | decimal digits => exact apart_of_isNumber (isNumber_of_decimal? readable)
  | _ => exact apart_sized _ _ clean

theorem apart_name (identifier : Vhdl.isIdentifier spelling = true) :
    spelling.toList.head? ≠ some '-' ∧ Apart spelling.toList := by
  have none := ne_minus_of_isIdentifier identifier
  exact ⟨fun head => none _ (mem_of_head? head) rfl, apart_of_ne none⟩

theorem apart_of_isName (writes : Writes names profile lend width base written) (isName : base.isName = true)
    (sound : base.IsSound) : written.text.toList.head? ≠ some '-' ∧ Apart written.text.toList := by
  cases writes with
  | name => exact apart_name sound.1
  | _ => cases isName

/-- What is written for an expression where no width is known begins with a minus sign exactly if the expression leads
with one. -/
theorem head?_of_writes (writes : Writes names profile lend none source written) (sound : source.IsSound)
    (single : isOperation source = false) :
    written.text.toList.head? = some '-' ↔ leadsWithMinus source = true := by
  generalize unsized : (none : Option Int) = width at writes
  induction writes with
  | name => exact iff_of_false (apart_name sound.1).1 Bool.false_ne_true
  | literal => exact head?_literal _ _
  | binary => cases single
  | @unary _ _ op operand _ written _ inner =>
    rw [head?_signed, leadsWithMinus]
    have bare : isEnclosed operand = false → (written.text.toList.head? = some '-' ↔ leadsWithMinus operand = true) :=
      fun bare => inner sound.2 (by cases operand <;> first | exact bare | rfl) rfl
    simpa [and_assoc] using or_congr_right (and_congr_right fun _ => and_congr_right bare)
  | shift found => simp [isOperation, found] at single
  | conversion notShift _ _ inner =>
    rw [isOperation, notShift] at single
    exact inner ((Vhdl.Expr.areAll_iff _).mp sound.2 _ mem_cons_self) single unsized
  | fill ok =>
    subst unsized
    obtain ⟨_, rfl⟩ | ⟨_, _, ⟨⟩, _⟩ := filled_eq_ok ok
    simp [Expr.toList_text_fill, leadsWithMinus]
  | replicate => cases unsized
  | concat => simp [Expr.toList_text_concat, leadsWithMinus]
  | index base =>
    rw [Expr.toList_text_index]
    exact iff_of_false (head?_append (apart_of_isName base sound.1.1 sound.2.1).1 (by decide)) Bool.false_ne_true
  | slice base =>
    rw [Expr.toList_text_slice]
    exact iff_of_false (head?_append (apart_of_isName base sound.1.1 sound.2.1).1 (by decide)) Bool.false_ne_true

/-- In what is written for a lowered expression, two minus signs meet exactly if a minus sign stands in front of an
operand without parentheses that begins with one. -/
theorem apart_of_writes (writes : Writes names profile lend width source written) (sound : source.IsSound) :
    Apart written.text.toList ↔ signsMeet source = false := by
  induction writes with
  | name => exact iff_of_true (apart_name sound.1).2 rfl
  | literal => exact iff_of_true (apart_literal sound.2) rfl
  | binary _ _ left right =>
    have leftApart := left sound.2.1
    have rightApart := right sound.2.2
    rw [signsMeet, Bool.or_eq_false_iff, ← leftApart, ← rightApart]
    split
    · rw [Expr.toList_text_unary]
      refine (apart_cons (by decide)).trans ?_
      rw [append_eq, nil_append, apart_paren, apart_binary, apart_grouped, apart_grouped]
    · rw [apart_binary, apart_grouped, apart_grouped]
  | @unary _ _ op operand _ written writes inner =>
    have apart := inner sound.2
    have bare : isEnclosed operand = false → (written.text.toList.head? = some '-' ↔ leadsWithMinus operand = true) :=
      fun bare => head?_of_writes writes sound.2 (by cases operand <;> first | exact bare | rfl)
    rw [apart_signed, apart, signsMeet]
    simp +contextual [bare, and_comm]
  | shift found _ _ left right =>
    have areSound := (Vhdl.Expr.areAll_iff _).mp sound.2
    have leftApart := left (areSound _ (by simp))
    have rightApart := right (areSound _ (by simp))
    rw [apart_binary, apart_grouped, apart_grouped, leftApart, rightApart, signsMeet_shift found, Bool.or_eq_false_iff]
  | conversion notShift _ _ inner =>
    rw [signsMeet_conversion notShift]
    exact inner ((Vhdl.Expr.areAll_iff _).mp sound.2 _ mem_cons_self)
  | fill ok =>
    refine iff_of_true ?_ rfl
    obtain ⟨_, rfl⟩ | ⟨_, _, _, rfl⟩ := filled_eq_ok ok
    · rw [Expr.toList_text_fill]
      exact (apart_cons (by decide)).mpr (.singleton _)
    · refine apart_sized _ _ fun c member => ?_
      rw [String.toList_ofList] at member
      rw [eq_of_mem_replicate member]
      exact isFigure_bitDigit _
  | replicate _ _ inner =>
    have apart := inner sound.2
    rw [Expr.toList_text_replicate, apart_cons (by decide), apart_append (by decide), apart_append (by decide),
      apart, signsMeet, and_iff_right (apart_of_isNumber (Verilog.isNumber_toString _))]
    exact and_iff_left ((apart_cons (by decide)).mpr .nil)
  | concat length _ each =>
    have areSound := (Vhdl.Expr.areAll_iff _).mp sound.2
    have related := forall₂_iff_zip.mpr ⟨length, each⟩
    rw [Expr.toList_text_concat, apart_cons (by decide), apart_closed (by decide), apart_intercalate, signsMeet,
      anyMeet_eq_any, any_eq_false]
    constructor
    · intro apart part isPart
      obtain ⟨result, isResult, same⟩ := result_of_mem related isPart
      exact Bool.eq_false_iff.mp ((same (areSound part isPart)).mp (apart result isResult))
    · intro none result isResult
      obtain ⟨part, isPart, same⟩ := source_of_mem related isResult
      exact (same (areSound part isPart)).mpr (Bool.eq_false_iff.mpr (none part isPart))
  | index base _ _ subscript =>
    have apart := subscript sound.2.2
    have baseApart := (apart_of_isName base sound.1.1 sound.2.1).2
    rw [Expr.toList_text_index, apart_append (by decide), apart_closed (by decide), apart, signsMeet,
      and_iff_right baseApart]
  | slice base _ _ _ left right =>
    have leftApart := left sound.2.2.1
    have rightApart := right sound.2.2.2
    have baseApart := (apart_of_isName base sound.1.1 sound.2.1).2
    rw [Expr.toList_text_slice, apart_append (by decide), apart_append (by decide), apart_closed (by decide),
      leftApart, rightApart, signsMeet, and_iff_right baseApart, Bool.or_eq_false_iff]

/-- In what is written for a lowered expression two minus signs meet exactly where a minus sign stands in front of an
operand that begins with one and takes no parentheses. -/
theorem minus_signs_apart_iff {scope : Vhdl.Scope} (sound : scope.IsSound) {source : Vhdl.Expr}
    (parsed : source.IsParsed) (lowers : source.lower scope owner = .ok lowered)
    (ok : expr names profile lend width lowered = .ok written) :
    Apart written.text.toList ↔ signsMeet lowered = false :=
  apart_of_writes (writes_of_expr ok) (Vhdl.Expr.lower_isSound sound source parsed lowers)

def sampleNegative : Vhdl.Expr := .call "signed" [.unary .minus (.literal (.decimal "1") 1) 1] 1

def sampleGap : Vhdl.Expr := .binary .sub (.literal (.decimal "7") 1) sampleNegative 1

theorem sampleGap_apart_iff :
    sampleGap.IsParsed ∧ sampleGap.lower .empty none = .ok sampleGap ∧
      ∃ written, expr ⟨[]⟩ Dialect.strict.profile true none sampleGap = .ok written ∧ written.text = "7 - -1" ∧
        (Apart written.text.toList ↔ signsMeet sampleGap = false) := by
  have parsed : sampleGap.IsParsed :=
    ⟨trivial, ⟨by decide, by simp; decide⟩, ⟨by decide, by decide⟩, ⟨trivial, by decide, by simp; decide⟩, trivial⟩
  have lowers : sampleGap.lower .empty none = .ok sampleGap := by rfl
  have ok : expr ⟨[]⟩ Dialect.strict.profile true none sampleGap = .ok _ := rfl
  exact ⟨parsed, lowers, _, ok, by decide, minus_signs_apart_iff Vhdl.Scope.isSound_empty parsed lowers ok⟩

/-- The conversion between the signs is not written, and nothing else keeps them apart. -/
theorem conversion_joins_minus_signs :
    (Vhdl.Expr.unary .minus sampleNegative 1).lower .empty none = .ok (.unary .minus sampleNegative 1) ∧
      ∀ names profile lend width, ∃ written,
        expr names profile lend width (.unary .minus sampleNegative 1) = .ok written ∧ written.text = "--1" := by
  exact ⟨by rfl, fun names profile lend width => ⟨_, rfl, by rfl⟩⟩

end RtlBridge.Emission

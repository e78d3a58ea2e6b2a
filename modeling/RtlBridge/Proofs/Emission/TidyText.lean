import RtlBridge.Proofs.Emission.Reading
import RtlBridge.Proofs.Verilog.Nesting
import RtlBridge.Proofs.Vhdl.LoweredShape

/-! What is written for sound sources is tidy: names are plain, literals have figures, and every comment ends
with its line. This is told of the results of all writers at once with the refusals that they end in, as a
refusal becomes the text of a comment. -/

namespace RtlBridge

open List

namespace Vhdl

/-- Names that are no words of structure, literals that are numbers, and no attributes but events. -/
def Expr.TidyNode : Expr → Prop
  | .name spelling _ => Verilog.IsPlainName spelling
  | .literal value _ => value.IsReadable
  | .tick _ property _ => property = "event"
  | _ => True

def Expr.IsTidy : Expr → Prop := All TidyNode

def Stmt.TidyNode : Stmt → Prop
  | .assign target value _ _ => Verilog.IsPlainName target.name ∧ target.part.All Expr.IsTidy ∧ value.IsTidy
  | .conditional branches _ _ => branches ≠ [] ∧ ∀ branch ∈ branches, branch.1.IsTidy
  | .selection selector arms _ _ => selector.IsTidy ∧ ∀ arm ∈ arms, ∀ choice ∈ arm.1, choice.IsTidy
  | .captured _ => True

def Stmt.IsTidy : Stmt → Prop := All TidyNode

end Vhdl

namespace Emission

open Vhdl (NameTable Expr Literal Stmt)

def Refusal.IsOneLine : Refusal → Prop
  | .unsupported construct _ => '\n' ∉ construct.text.toList
  | _ => True

/-! ### Literals -/

open Text.Numeral (IsDigitIn read?)

theorem isFigure_toUpper (hex : IsDigitIn 16 c) : Verilog.isFigure c.toUpper = true := by
  obtain ⟨value, isValue, below⟩ := hex
  rw [Text.Numeral.digitOrLetter?] at isValue
  cases lower : c.isLower with
  | true =>
    have table : ∀ n < 123, 97 ≤ n → Verilog.isFigure (Char.ofNat n).toUpper = true := by decide +kernel
    unfold Char.isLower at lower
    simp only [UInt32.le_iff_toNat_le, Char.toNat_val, ge_iff_le, Bool.and_eq_true, decide_eq_true_eq,
      Char.reduceVal, UInt32.reduceToNat] at lower
    rw [← Char.ofNat_toNat c]
    exact table c.toNat (by omega) (by omega)
  | false =>
    have same : c.toUpper = c := by
      unfold Char.toUpper
      rw [dif_neg]
      intro range
      have isLower : c.isLower = true := by
        unfold Char.isLower
        rw [Bool.and_eq_true, decide_eq_true_eq, decide_eq_true_eq]
        exact range
      rw [isLower] at lower
      cases lower
    rw [same]
    simp only [lower, Bool.false_eq_true, if_false] at isValue
    split at isValue
    · rename_i upper
      simp [Verilog.isFigure, upper]
    · simp [Verilog.isFigure, Text.isDigit, isValue]

theorem isFigure_bitDigit (value : String) : Verilog.isFigure (bitDigit value) = true := by
  rw [bitDigit]
  split
  · split
    · rename_i c bit
      simp only [Bool.or_eq_true, decide_eq_true_eq] at bit
      rcases bit with ((rfl | rfl) | rfl) | rfl <;> decide
    · decide
  · decide

theorem isNumber_of_decimal? (isNumber : (Text.Numeral.decimal? digits).isSome = true) :
    Verilog.IsNumber digits.toList := by
  have figures {text : List Char} (number : (read? 10 text).isSome = true) :
      ∀ c ∈ text, Verilog.isFigure c = true := by
    intro c member
    have digit := Text.Numeral.isDigitIn_of_read? number c member
    exact Verilog.isFigure_of_isDigit (Text.Numeral.isDigit_of_isDigitIn (Nat.le_refl 10) digit)
  rw [Text.Numeral.decimal?] at isNumber
  split at isNumber
  · rename_i rest spelled
    have number : (read? 10 rest).isSome = true := by
      cases is : read? 10 rest with
      | none => simp [is] at isNumber
      | some n => rfl
    exact ⟨rest, figures number, .inr spelled⟩
  · rw [Option.isSome_map] at isNumber
    exact ⟨_, figures isNumber, .inl rfl⟩

theorem literal_isClean (readable : value.IsReadable) (choices : Bool) : (literal value).IsClean choices := by
  cases value with
  | bit text =>
    intro c member
    rw [show c = bitDigit text by simpa [Char.toString] using member]
    exact isFigure_bitDigit text
  | hex digits =>
    have number : (read? 16 digits.toList).isSome = true := by
      simpa [Literal.IsReadable, Literal.value?] using readable
    intro c member
    rw [String.toList_ofList] at member
    obtain ⟨digit, isDigit, rfl⟩ := mem_map.mp member
    exact isFigure_toUpper (Text.Numeral.isDigitIn_of_read? number digit isDigit)
  | binary digits =>
    have number : (read? 2 (Literal.zeroed digits).toList).isSome = true := by
      simpa [Literal.IsReadable, Literal.value?] using readable
    rw [Literal.zeroed, String.toList_ofList] at number
    intro c member
    have digit := Text.Numeral.isDigitIn_of_read? number _ (mem_map_of_mem member)
    split at digit
    · rename_i unknown
      simp only [Bool.or_eq_true, decide_eq_true_eq] at unknown
      rcases unknown with rfl | rfl <;> decide
    · exact Verilog.isFigure_of_isDigit (Text.Numeral.isDigit_of_isDigitIn (by decide) digit)
  | decimal digits => exact isNumber_of_decimal? readable

/-! ### Expressions -/

section Expressions

variable {choices : Bool}

theorem grouped_isClean (source : Expr) (isClean : written.IsClean choices) :
    (grouped source written).IsClean choices := by
  rw [grouped]
  split
  · exact isClean
  · exact isClean

theorem signed_isClean (op : Vhdl.UnaryOp) (source : Expr) (isClean : written.IsClean choices)
    : (signed op source written).IsClean choices := by
  unfold signed
  split <;> cases op <;> exact isClean

theorem oneLine_edge (isEdge : (Vhdl.Builtin.edge? function).isSome = true) :
    '\n' ∉ (Construct.edgeOutsideIf function).text.toList := by
  rw [Vhdl.Builtin.edge?] at isEdge
  split at isEdge
  · rename_i same
    rw [same]
    decide
  · split at isEdge
    · rename_i same
      rw [same]
      decide
    · nomatch isEdge

theorem isClean_of_writes (writes : Writes names profile lend width source written) (tidy : source.IsTidy) :
    written.IsClean choices := by
  induction writes with
  | name => exact tidy
  | literal => exact literal_isClean tidy choices
  | binary _ _ left right => split <;> exact ⟨grouped_isClean _ (left tidy.2.1), grouped_isClean _ (right tidy.2.2)⟩
  | unary _ inner => exact signed_isClean _ _ (grouped_isClean _ (inner tidy.2))
  | shift _ _ _ left right =>
    have areTidy := (Expr.areAll_iff _).mp tidy.2
    exact ⟨grouped_isClean _ (left (areTidy _ (by simp))), grouped_isClean _ (right (areTidy _ (by simp)))⟩
  | conversion _ _ _ inner => exact inner ((Expr.areAll_iff _).mp tidy.2 _ (by simp))
  | fill ok =>
    obtain ⟨_, rfl⟩ | ⟨_, _, _, rfl⟩ := filled_eq_ok ok
    · exact isFigure_bitDigit _
    · intro c member
      rw [String.toList_ofList] at member
      rw [eq_of_mem_replicate member]
      exact isFigure_bitDigit _
  | replicate _ _ inner => exact inner tidy.2
  | concat length _ each =>
    refine (Verilog.Expr.areClean_iff _).mpr fun result member => ?_
    obtain ⟨part, isPart, isClean⟩ := source_of_mem (forall₂_iff_zip.mpr ⟨length, each⟩) member
    exact isClean ((Expr.areAll_iff _).mp tidy.2 part isPart)
  | index _ _ first second => exact ⟨first tidy.2.1, second tidy.2.2⟩
  | slice _ _ _ first second third => exact ⟨first tidy.2.1, second tidy.2.2.1, third tidy.2.2.2⟩

theorem expr_oneLine (names : NameTable) (profile : Profile) (tidy : source.IsTidy) (lend : Bool) (width : Option Int)
    : FailsOnly Refusal.IsOneLine (expr names profile lend width source) := by
  have unsized : '\n' ∉ Construct.unsizedAggregate.text.toList := by decide
  have all : source.All (RefusedNode names profile (fun _ => True) Refusal.IsOneLine) := by
    refine tidy.mono fun node isTidy => ⟨trivial, ?_⟩
    cases node with
    | call function arguments line => exact ⟨fun isEdge => oneLine_edge isEdge, fun _ => trivial⟩
    | aggregate fill site line =>
      refine ⟨unsized, fun bit width _ => ?_⟩
      unfold filled
      split
      · exact .ok
      · split
        · exact .bind (.mapError (fun _ _ => trivial) fun _ _ => trivial) fun digits => .ok
        · exact .error unsized
    | tick base property line =>
      cases isTidy
      exact (by decide : '\n' ∉ (Construct.attributeInExpression "event").text.toList)
    | _ => trivial
  exact expr_failsOnly trivial all lend trivial

theorem expr_comesTo (names : NameTable) (profile : Profile) (tidy : source.IsTidy) (lend : Bool) (width : Option Int) :
    ComesTo (Verilog.Expr.IsClean choices) Refusal.IsOneLine (expr names profile lend width source) :=
  .of_failsOnly (expr_oneLine names profile tidy lend width) fun _ ok => isClean_of_writes (writes_of_expr ok) tidy

end Expressions

/-! ### Comments -/

theorem not_isLineBreak_linesFrom (isOpen : ∀ c ∈ current, Text.isLineBreak c = false) :
    ∀ line ∈ Text.linesFrom current text, ∀ c ∈ line, Text.isLineBreak c = false := by
  have closed {list : List Char} (each : ∀ c ∈ list, Text.isLineBreak c = false) :
      ∀ c ∈ list.reverse, Text.isLineBreak c = false := fun c member => each c (mem_reverse.mp member)
  fun_induction Text.linesFrom current text with
  | case1 current empty => nofun
  | case2 current present => exact forall_mem_singleton.mpr (closed isOpen)
  | case3 current rest ih | case4 current c rest _ lineBreak ih => exact forall_mem_cons.mpr ⟨closed isOpen, ih nofun⟩
  | case5 current c rest _ other ih => exact ih (forall_mem_cons.mpr ⟨Bool.eq_false_iff.mpr other, isOpen⟩)

theorem not_isLineBreak_placeholderOf (member : line ∈ (placeholderOf statement).text) :
    ∀ c ∈ line.toList, Text.isLineBreak c = false := by
  obtain ⟨inLines, _⟩ := mem_filter.mp member
  obtain ⟨_, isLine, rfl⟩ := mem_map.mp inLines
  obtain ⟨letters, isLetters, rfl⟩ := mem_map.mp isLine
  intro c inside
  rw [Text.trim, String.toList_ofList, mem_reverse] at inside
  have inLetters := (dropWhile_suffix _).subset (mem_reverse.mp ((dropWhile_suffix _).subset inside))
  rw [String.toList_ofList] at inLetters
  exact not_isLineBreak_linesFrom (forall_mem_nil _) letters isLetters c inLetters

theorem placeholderOf_isTidy (statement : Vhdl.Captured) : (placeholderOf statement).IsTidy := by
  constructor
  · change '\n' ∉ statement.kind.text.toList
    cases statement.kind <;> decide
  · exact fun line member lineBreak => absurd (not_isLineBreak_placeholderOf member '\n' lineBreak) (by decide)

theorem widthMismatch?_eq_some (found : Vhdl.widthMismatch? names name width value line = some diagnostic) :
    ∃ want given, diagnostic.finding = .widthMismatch name want given := by
  unfold Vhdl.widthMismatch? at found
  cases width with
  | none => nomatch found
  | some want =>
    cases is : value.width? names with
    | none =>
      rw [is] at found
      nomatch found
    | some given =>
      simp only [is] at found
      split at found
      · nomatch found
      · exact ⟨want, given, congrArg Diagnostic.finding (Option.some.inj found).symm⟩

theorem oneLine_mismatch (oneLine : '\n' ∉ name.toList) (want given : Int) :
    '\n' ∉ (Finding.widthMismatch name want given).message.toList := by
  have number (n : Int) : '\n' ∉ (toString n).toList := (Verilog.isNumber_toString n).quiet.oneLine
  change '\n' ∉ (s!"width mismatch assigning {given}-bit value to {want}-bit '{name}'").toList
  simp only [String.toList_append, mem_append, not_or]
  exact ⟨⟨⟨⟨⟨⟨by decide, number given⟩, by decide⟩, number want⟩, by decide⟩, oneLine⟩, by decide⟩

theorem oneLine_widthRemarks (oneLine : '\n' ∉ name.toList) (names : NameTable) (width : Option Int)
    (values : List Expr) : ∀ remark ∈ widthRemarks names name width values, '\n' ∉ remark.text.toList := by
  intro remark member
  obtain ⟨diagnostic, isLast, rfl⟩ := mem_map.mp member
  obtain ⟨value, _, mismatch⟩ := mem_filterMap.mp (mem_of_getLast? (Option.mem_toList.mp isLast))
  obtain ⟨want, given, same⟩ := widthMismatch?_eq_some mismatch
  change '\n' ∉ (s!"VHDL2VER-WIDTH: {diagnostic.finding.message}").toList
  rw [same, String.toList_append, mem_append, not_or]
  exact ⟨by decide, oneLine_mismatch oneLine want given⟩

/-! ### Statements -/

section Statements

variable {context : Context}

theorem refused_comesTo (line : Nat) (oneLine : refusal.IsOneLine) :
    ComesTo Verilog.Placeholder.IsTidy Refusal.IsOneLine (refused context line refusal).result := by
  cases refusal with
  | unsupported construct place => exact ⟨oneLine, nofun⟩
  | lacking lack => trivial
  | run fault => trivial

theorem given_comesTo (tidy : source.IsTidy) (width : Option Int) :
    ComesTo (Verilog.Expr.IsClean choices) Refusal.IsOneLine (given context width source) :=
  expr_comesTo context.names context.profile tidy true width

theorem plain_comesTo (tidy : source.IsTidy) (width : Option Int) :
    ComesTo (Verilog.Expr.IsClean choices) Refusal.IsOneLine (plain context width source) :=
  expr_comesTo context.names context.profile tidy false width

theorem target_comesTo (plainShadows : ∀ entry ∈ context.shadows, Verilog.IsPlainName entry.2)
    (isName : Verilog.IsPlainName source.name) (inPart : source.part.All Expr.IsTidy) :
    ComesTo Verilog.Expr.IsPlace Refusal.IsOneLine (target context source) := by
  have base : Verilog.IsPlainName ((context.shadows.lookup source.name).getD source.name) := by
    cases found : context.shadows.lookup source.name with
    | none => exact isName
    | some shadow => exact plainShadows _ (Vhdl.Scope.mem_of_lookup_eq_some found)
  unfold target
  cases is : source.part with
  | whole => exact base
  | element subscript =>
    rw [is] at inPart
    apply (plain_comesTo inPart none).bind
    intro inner isClean
    exact ⟨base, isClean⟩
  | range left right =>
    rw [is] at inPart
    apply (plain_comesTo inPart.1 none).bind
    intro high highClean
    apply (plain_comesTo inPart.2 none).bind
    intro low lowClean
    exact ⟨base, highClean, lowClean⟩

def TidyBody (context : Context) (list : List Stmt) : Prop :=
  ComesTo (fun written => ∀ inner ∈ written, Verilog.Stmt.IsTidy inner) Refusal.IsOneLine (body context list).result

theorem body_comesTo (each : ∀ inner ∈ list, ComesTo Verilog.Stmt.IsTidy Refusal.IsOneLine (stmt context inner).result) :
    TidyBody context list := by
  induction list with
  | nil => exact fun inner member => nomatch member
  | cons first rest ih =>
    obtain ⟨here, later⟩ := forall_mem_cons.mp each
    rw [TidyBody, body]
    apply ComesTo.bindResult
    · apply here.tryCatch
      intro refusal oneLine
      apply (refused_comesTo first.line oneLine).bindResult
      intro comment isTidy
      exact Verilog.Stmt.IsTidy.placeholder isTidy
    · intro head headTidy
      apply (ih later).bindResult
      intro tail tailTidy
      exact forall_mem_cons.mpr ⟨headTidy, tailTidy⟩

theorem refusedStmt_of_tidy (tidy : source.TidyNode) : RefusedStmt context Refusal.IsOneLine source := by
  have isOneLine (lend : Bool) (width : Option Int) (source : Expr) (tidy : source.IsTidy) :=
    expr_oneLine context.names context.profile tidy lend width
  cases source with
  | assign place value immediate line => exact ⟨isOneLine _ _ _ tidy.2.2, tidy.2.1.mono (isOneLine _ _)⟩
  | conditional branches otherwise line => exact fun branch member => isOneLine _ _ _ (tidy.2 branch member)
  | selection selector arms default line =>
    exact ⟨isOneLine _ _ _ tidy.1, fun arm member choice inArm => isOneLine _ _ _ (tidy.2 arm member choice inArm)⟩
  | captured statement => trivial

theorem stmt_comesTo (plainShadows : ∀ entry ∈ context.shadows, Verilog.IsPlainName entry.2) (tidy : source.IsTidy)
    : ComesTo Verilog.Stmt.IsTidy Refusal.IsOneLine (stmt context source).result := by
  have isOneLine {source : Stmt} (tidy : source.IsTidy) : FailsOnly Refusal.IsOneLine (stmt context source).result :=
    stmt_failsOnly (Stmt.All.mono (fun _ => refusedStmt_of_tidy) tidy)
  have inBody {list : List Stmt} {written : List Verilog.Stmt} (each : ∀ inner ∈ list, inner.IsTidy →
      ∀ statement, (stmt context inner).result = .ok statement → statement.IsTidy)
      (areTidy : Vhdl.bodyAll Stmt.TidyNode list) (ok : (body context list).result = .ok written) :
      ∀ inner ∈ written, inner.IsTidy := by
    have tidy := (Vhdl.bodyAll_iff list).mp areTidy
    refine (body_comesTo fun inner member => ?_).of_ok ok
    exact .of_failsOnly (isOneLine (tidy inner member)) (each inner member (tidy inner member))
  have isClean {lend : Bool} {width : Option Int} {source : Expr} {written : Verilog.Expr}
      (ok : expr context.names context.profile lend width source = .ok written) (tidy : source.IsTidy) :
      written.IsClean false := isClean_of_writes (writes_of_expr ok) tidy
  refine .of_failsOnly (isOneLine tidy) fun written ok => ?_
  induction source using Stmt.induction generalizing written with
  | assign place value immediate line =>
    obtain ⟨isName, inPart, inValue⟩ := tidy
    obtain ⟨targetOk, innerOk⟩ := stmt_eq_ok ok
    exact .assign ((target_comesTo plainShadows isName inPart).of_ok targetOk) (isClean innerOk inValue)
      (oneLine_widthRemarks isName.quiet.oneLine _ _ _)
  | conditional branches otherwise line inBranches inOtherwise =>
    obtain ⟨⟨present, conditions⟩, inside, rest⟩ := tidy
    obtain _ | ⟨each, lastOk⟩ := stmt_eq_ok ok
    apply Verilog.Stmt.IsTidy.conditional
    · rintro rfl
      exact present (forall₂_nil_right_iff.mp each)
    · intro branch member
      obtain ⟨source, isSource, conditionOk, _⟩ := source_of_mem each member
      exact isClean conditionOk (conditions source isSource)
    · intro branch member
      obtain ⟨source, isSource, _, bodyOk⟩ := source_of_mem each member
      exact inBody (inBranches source isSource) ((Vhdl.branchAll_iff branches).mp inside source isSource) bodyOk
    · intro list isLast
      split at isLast
      · cases isLast
      · cases isLast
        exact inBody inOtherwise rest lastOk
  | selection selector arms default line inArms inDefault =>
    obtain ⟨⟨inSelector, choices⟩, inside, rest⟩ := tidy
    obtain _ | _ | ⟨valueOk, each, lastOk⟩ := stmt_eq_ok ok
    apply Verilog.Stmt.IsTidy.selection (isClean valueOk inSelector)
    · intro arm member label isLabel
      obtain ⟨source, isSource, choicesOk, _⟩ := source_of_mem each member
      obtain ⟨choice, isChoice, choiceOk⟩ := source_of_mem (mapM_eq_ok_iff.mp choicesOk) isLabel
      exact isClean choiceOk (choices source isSource choice isChoice)
    · intro arm member
      obtain ⟨source, isSource, _, bodyOk⟩ := source_of_mem each member
      exact inBody (inArms source isSource) ((Vhdl.armAll_iff arms).mp inside source isSource) bodyOk
    · intro body isLast
      cases isLast
      obtain ⟨innerOk⟩ := lastOk
      exact inBody (inDefault _ rfl) rest innerOk
  | captured statement =>
    cases ok
    exact .placeholder (placeholderOf_isTidy statement)

theorem tidyBody (plainShadows : ∀ entry ∈ context.shadows, Verilog.IsPlainName entry.2)
    (tidy : ∀ inner ∈ list, inner.IsTidy) : TidyBody context list :=
  body_comesTo fun inner member => stmt_comesTo plainShadows (tidy inner member)

end Statements

end Emission

end RtlBridge

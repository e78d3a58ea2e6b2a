import RtlBridge.Proofs.Conversion
import RtlBridge.Proofs.Emission.ModuleDeclarations
import RtlBridge.Proofs.Emission.ReadNames
import RtlBridge.Proofs.Emission.VectorLiterals
import RtlBridge.Proofs.Vhdl.DriverConflicts
import RtlBridge.Proofs.Vhdl.OwnNames

/-! Selections that are marked as exclusive: no two of their choices have the same value, neither in the source nor
as they are written. -/

namespace RtlBridge

open List

namespace Vhdl

/-! ### Choices -/

/-- The number that a choice stands for: that of a literal, or the code of a name in an enumeration. -/
def Expr.choiceValue (enum : EnumType) : Expr → Option Int
  | .literal value _ => value.value?
  | .name spelling _ => if spelling ∈ enum.literals then some (enum.code spelling) else none
  | _ => none

/-- Whether all bits of a literal are `0` or `1`. -/
def Literal.IsKnown : Literal → Prop
  | .bit digits | .binary digits => ∀ c ∈ digits.toList, c = '0' ∨ c = '1'
  | _ => True

/-- Choices that are all literals, or all names of literals of one enumeration that the design declares. -/
def AreAlike (design : Design) (enum : EnumType) (choices : List Expr) : Prop :=
  (∀ choice ∈ choices, ∃ value line, choice = .literal value line) ∨
    (∃ body ∈ design.architecture, ∃ decl ∈ body.enums, decl.type = enum) ∧
      ∀ choice ∈ choices, ∃ spelling ∈ enum.literals, ∃ line, choice = .name spelling line

/-- What lowering leaves of literals: those of the source, and numbers in place of attributes. -/
def Literal.IsLowered (value : Literal) : Prop := value.IsParsed ∨ ∃ n : Int, value = .decimal (toString n)

variable {names : NameTable}

theorem areExclusive_iff : areExclusive names choices = true ↔
    (∀ choice ∈ choices, (choice.choiceKey? names).isSome = true) ∧
      choices.Pairwise fun first second => first.choiceKey? names ≠ second.choiceKey? names := by
  rw [areExclusive, Bool.and_eq_true, all_eq_true, decide_eq_true_eq, forall_mem_map, Nodup, pairwise_map]

theorem choiceKey?_literal (lowered : value.IsLowered) (line : Nat) :
    (((Expr.literal value line).choiceKey? names).isSome = true ↔ value.IsKnown) ∧
      (value.IsKnown → (Expr.literal value line).choiceKey? names = value.value?.map .number) := by
  have readable : value.IsReadable := by
    obtain parsed | ⟨n, rfl⟩ := lowered
    · exact parsed.isReadable
    · exact Option.isSome_iff_exists.mpr ⟨_, Text.Numeral.decimal?_toString _⟩
  cases value with
  | bit digits | binary digits =>
    simp only [Expr.choiceKey?, Literal.IsKnown, all_eq_true, Bool.or_eq_true, decide_eq_true_eq]
    split <;> simp_all [Literal.IsReadable]
  | hex digits | decimal digits => simp_all [Expr.choiceKey?, Literal.IsKnown, Literal.IsReadable]

/-- The literals among choices are as lowering leaves them. -/
def AreLowered (choices : List Expr) : Prop := ∀ value line, .literal value line ∈ choices → value.IsLowered

theorem areExclusive_literals (lowered : AreLowered choices)
    (literals : ∀ choice ∈ choices, ∃ value line, choice = .literal value line) (enum : EnumType) :
    areExclusive names choices = true ↔
      (∀ value line, .literal value line ∈ choices → value.IsKnown) ∧ (choices.map (·.choiceValue enum)).Nodup := by
  have keys : (∀ choice ∈ choices, (choice.choiceKey? names).isSome = true) ↔
      ∀ value line, .literal value line ∈ choices → value.IsKnown := by
    constructor
    · intro all value line member
      exact (choiceKey?_literal (lowered value line member) line).1.mp (all _ member)
    · intro known choice member
      obtain ⟨value, line, rfl⟩ := literals choice member
      exact (choiceKey?_literal (lowered value line member) line).1.mpr (known value line member)
  rw [areExclusive_iff, keys, Nodup, pairwise_map]
  refine and_congr_right fun known => Pairwise.iff_of_mem fun {first second} isFirst isSecond => not_congr ?_
  obtain ⟨value, line, rfl⟩ := literals first isFirst
  obtain ⟨other, place, rfl⟩ := literals second isSecond
  rw [(choiceKey?_literal (lowered value line isFirst) line).2 (known value line isFirst),
    (choiceKey?_literal (lowered other place isSecond) place).2 (known other place isSecond)]
  exact (Option.map_injective fun _ _ => ChoiceKey.number.inj).eq_iff

theorem areExclusive_names (role : ∀ spelling ∈ enum.literals, names.role? spelling = some .enumLiteral)
    (areNames : ∀ choice ∈ choices, ∃ spelling ∈ enum.literals, ∃ line, choice = .name spelling line) :
    areExclusive names choices = true ↔ (choices.map (·.choiceValue enum)).Nodup := by
  rw [areExclusive_iff, and_iff_right, Nodup, pairwise_map]
  · refine Pairwise.iff_of_mem fun {first second} isFirst isSecond => not_congr ?_
    obtain ⟨spelling, isLiteral, line, rfl⟩ := areNames first isFirst
    obtain ⟨other, isOther, place, rfl⟩ := areNames second isSecond
    rw [Expr.choiceKey?, Expr.choiceKey?, if_pos (role spelling isLiteral), if_pos (role other isOther),
      Expr.choiceValue, Expr.choiceValue, if_pos isLiteral, if_pos isOther]
    simp only [Option.some.injEq, ChoiceKey.literal.injEq, Int.natCast_inj]
    exact (idxOf_inj isLiteral).symm
  · intro choice member
    obtain ⟨spelling, isLiteral, line, rfl⟩ := areNames choice member
    rw [Expr.choiceKey?, if_pos (role spelling isLiteral)]
    rfl

theorem ResolvedFrom.areExclusive_iff (origin : ResolvedFrom parsed resolved) (lowered : AreLowered choices)
    (alike : AreAlike resolved.design enum choices) : areExclusive resolved.names choices = true ↔
      (∀ value line, .literal value line ∈ choices → value.IsKnown) ∧ (choices.map (·.choiceValue enum)).Nodup := by
  obtain literals | ⟨⟨body, is, decl, isDecl, rfl⟩, areNames⟩ := alike
  · exact areExclusive_literals lowered literals enum
  · rw [areExclusive_names (fun _ isLiteral => origin.role_of_literal is isDecl isLiteral) areNames, and_iff_right]
    intro value line member
    obtain ⟨_, _, _, same⟩ := areNames _ member
    cases same

/-! ### Marks -/

def ResolvedStmt.body : ResolvedStmt → List Stmt
  | .process block _ => block.body
  | _ => []

/-- The line of a selection that is marked. -/
def Stmt.marks (names : NameTable) : Stmt → List Nat
  | .selection _ arms _ line => if areExclusive names (arms.flatMap Prod.fst) then [line] else []
  | _ => []

theorem ResolvedFrom.areLowered {default : Option (List Stmt)} (origin : ResolvedFrom parsed resolved)
    (member : stmt ∈ resolved.statements) (inside : .selection selector arms default line ∈ bodyStmts stmt.body) :
    AreLowered (arms.flatMap Prod.fst) := by
  cases stmt with
  | process block kind =>
    obtain ⟨source, scope, isParsed, _, bodyOk⟩ := origin.source_of_process (origin.resolves.classified member).1
    have each (expr : Expr) (exprParsed : expr.IsParsed) {lowered : Expr} (ok : expr.lower scope none = .ok lowered) :
        ∀ value line, lowered = .literal value line → value.IsLowered := by
      rintro value line rfl
      cases Expr.lower_eq_ok ok with
      | literal => exact .inl exprParsed.self
      | number n => exact .inr ⟨n, rfl⟩
    have uses := lowerBody_uses each (fun inner isInner => (isParsed.body inner isInner).uses) bodyOk
    have own := all_of_mem_bodyStmts uses inside
    intro value line isChoice
    obtain ⟨arm, isArm, inArm⟩ := mem_flatMap.mp isChoice
    exact own.1.2 arm isArm _ inArm _ _ rfl
  | _ => cases inside

end Vhdl

/-! ### Written choices -/

namespace Emission

open Vhdl (Resolved Literal EnumType areExclusive AreAlike AreLowered)

end Emission

end RtlBridge

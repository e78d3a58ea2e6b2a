import Mathlib.Data.Bool.AllAny
import Mathlib.Data.List.Nodup
import Mathlib.Data.List.Perm.Subperm
import RtlBridge.Emission.Module
import RtlBridge.Proofs.Vhdl.ParsedShape

/-! Registers behind wires have names of their own: whatever their letter case, they differ from all names of
the design and from each other. -/

namespace RtlBridge.Emission

open List
open Text (lower)

def shadowSuffix : Nat → List Char
  | 0 => "_comb".toList
  | n + 1 => "_comb_".toList ++ Nat.toDigits 10 (n + 1)

theorem shadowSuffix_succ (n : Nat) : shadowSuffix (n + 1) = "_comb_".toList ++ Nat.toDigits 10 (n + 1) := rfl

theorem shadowSuffix_eq_cons (n : Nat) : ∃ rest, shadowSuffix n = '_' :: rest := by
  cases n with
  | zero | succ n => exact ⟨_, rfl⟩

theorem toList_shadowCandidate (name : String) (n : Nat) :
    (shadowCandidate name n).toList = name.toList ++ shadowSuffix n := by
  cases n with
  | zero =>
    have spelled : shadowCandidate name 0 = name ++ "_comb" := rfl
    rw [spelled, String.toList_append]
    rfl
  | succ n =>
    have digits : (toString (n + 1)).toList = Nat.toDigits 10 (n + 1) := Text.Numeral.toList_toString (n + 1)
    have spelled : shadowCandidate name (n + 1) = name ++ "_comb_" ++ toString (n + 1) := rfl
    rw [spelled, String.toList_append, String.toList_append, digits, append_assoc]
    rfl

theorem append_shadowSuffix_injective (same : first ++ shadowSuffix m = second ++ shadowSuffix n)
    : first = second ∧ m = n := by
  have number (text : List Char) (n : Nat) :
      Nat.ofDigitChars 10 ((text ++ shadowSuffix n).reverse.takeWhile Char.isDigit).reverse 0 = n := by
    rw [reverse_append]
    cases n with
    | zero => rfl
    | succ n =>
      have digits : ∀ c ∈ (Nat.toDigits 10 (n + 1)).reverse, c.isDigit = true := fun c member =>
        Nat.isDigit_of_mem_toDigits (by decide) (by decide) (mem_reverse.mp member)
      have noMore : ("_comb_".toList.reverse ++ text.reverse).takeWhile Char.isDigit = [] := rfl
      rw [shadowSuffix_succ, reverse_append, append_assoc, takeWhile_append_of_pos digits, noMore,
        append_nil, reverse_reverse, Nat.ofDigitChars_toDigits (by decide) (by decide)]
  have isSame : m = n := by rw [← number first m, same, number]
  subst isSame
  exact ⟨append_cancel_right same, rfl⟩

theorem shadowSuffix_isWord (n : Nat) : ∀ c ∈ shadowSuffix n, Piece.isWordChar c = true ∧ c.toLower = c := by
  have letters : ∀ c ∈ "_comb_".toList, Piece.isWordChar c = true ∧ c.toLower = c := all_iff_forall_prop.mp rfl
  cases n with
  | zero => exact fun c member => letters c (mem_append_left ['_'] member)
  | succ n =>
    refine forall_mem_append.mpr ⟨letters, fun c member => ?_⟩
    have digit : c.isDigit = true := Nat.isDigit_of_mem_toDigits (by decide) (by decide) member
    have table : ∀ n < 58, 48 ≤ n → (Char.ofNat n).toLower = Char.ofNat n := by decide
    have range : 48 ≤ c.toNat ∧ c.toNat ≤ 57 := by simpa [Char.isDigit, UInt32.le_iff_toNat_le] using digit
    refine ⟨by simp [Piece.isWordChar, Char.isAlphanum, digit], ?_⟩
    rw [← Char.ofNat_toNat c]
    exact table c.toNat (by omega) range.1

theorem lower_shadowSuffix (n : Nat) : Text.lowerFrom false (shadowSuffix n) = shadowSuffix n := by
  have isWord := shadowSuffix_isWord n
  rw [Text.lowerFrom_of_ascii _ fun c member => Vhdl.Parser.toNat_lt_of_isWordChar (isWord c member).1]
  exact (map_congr_left fun c member => (isWord c member).2).trans (map_id _)

theorem lower_shadowCandidate (name : String) (n : Nat) :
    (lower (shadowCandidate name n)).toList = (lower name).toList ++ shadowSuffix n := by
  obtain ⟨rest, split⟩ := shadowSuffix_eq_cons n
  have apart := Text.lowerFrom_append false name.toList rest (c := '_') (by decide) (by decide) (by decide)
  rw [← split, lower_shadowSuffix] at apart
  rw [lower, lower, String.toList_ofList, String.toList_ofList, toList_shadowCandidate, apart]

theorem lower_shadowCandidate_injective
    (same : lower (shadowCandidate name m) = lower (shadowCandidate name n)) : m = n := by
  have spelled := congrArg String.toList same
  rw [lower_shadowCandidate, lower_shadowCandidate] at spelled
  exact (append_shadowSuffix_injective spelled).2

theorem freshShadow_first (taken : List String) (name : String) :
    ∃ n, freshShadow taken name = shadowCandidate name n ∧ lower (shadowCandidate name n) ∉ taken ∧
      ∀ m < n, lower (shadowCandidate name m) ∈ taken := by
  rw [freshShadow, find?_map]
  cases found : (range (taken.length + 1)).find?
      ((fun candidate => !taken.contains (lower candidate)) ∘ shadowCandidate name) with
  | some n =>
    obtain ⟨free, inRange, earlier⟩ := find?_range_eq_some.mp found
    refine ⟨n, rfl, by simpa using free, fun m before => ?_⟩
    simpa using earlier m before
  | none =>
    exfalso
    have allTaken : ∀ n < taken.length + 1, lower (shadowCandidate name n) ∈ taken := by
      simpa [find?_eq_none] using found
    have distinct : ((range (taken.length + 1)).map fun n => lower (shadowCandidate name n)).Nodup :=
      Nodup.map (fun _ _ => lower_shadowCandidate_injective) nodup_range
    have inside : (range (taken.length + 1)).map (fun n => lower (shadowCandidate name n)) ⊆ taken := by
      intro text member
      obtain ⟨n, inRange, rfl⟩ := mem_map.mp member
      exact allTaken n (mem_range.mp inRange)
    have bound := (subperm_of_subset distinct inside).length_le
    rw [length_map, length_range] at bound
    omega

theorem lower_freshShadow_not_mem (taken : List String) (name : String) :
    lower (freshShadow taken name) ∉ taken := by
  obtain ⟨n, isFirst, free, _⟩ := freshShadow_first taken name
  rwa [isFirst]

/-! ### The shadows of a design -/

theorem shadowsFor_fresh (taken names : List String) :
    (∀ entry ∈ shadowsFor taken names, lower entry.2 ∉ taken) ∧
      ((shadowsFor taken names).map fun entry => lower entry.2).Nodup := by
  induction names generalizing taken with
  | nil => exact ⟨nofun, .nil⟩
  | cons name rest ih =>
    obtain ⟨fresh, distinct⟩ := ih (lower (freshShadow taken name) :: taken)
    rw [shadowsFor]
    refine ⟨forall_mem_cons.mpr ⟨lower_freshShadow_not_mem taken name, fun entry member => ?_⟩, ?_⟩
    · exact fun isTaken => fresh entry member (mem_cons_of_mem _ isTaken)
    · refine nodup_cons.mpr ⟨fun again => ?_, distinct⟩
      obtain ⟨entry, member, same⟩ := mem_map.mp again
      exact fresh entry member (same ▸ mem_cons_self ..)

theorem freshShadow_congr
    (same : ∀ n, lower (shadowCandidate name n) ∈ taken ↔ lower (shadowCandidate name n) ∈ others) :
    freshShadow taken name = freshShadow others name := by
  obtain ⟨m, isFirst, free, earlier⟩ := freshShadow_first taken name
  obtain ⟨n, isOther, otherFree, otherEarlier⟩ := freshShadow_first others name
  rcases Nat.lt_trichotomy m n with before | rfl | after
  · exact absurd ((same m).mpr (otherEarlier m before)) free
  · rw [isFirst, isOther]
  · exact absurd ((same n).mp (earlier n after)) otherFree

theorem shadowsFor_eq_map (distinct : (names.map lower).Nodup) :
    shadowsFor taken names = names.map fun name => (name, freshShadow taken name) := by
  induction names generalizing taken with
  | nil => rfl
  | cons name rest ih =>
    obtain ⟨new, others⟩ := nodup_cons.mp distinct
    rw [shadowsFor, ih others, map_cons]
    refine congrArg _ (map_congr_left fun other inRest => congrArg _ (freshShadow_congr fun n => ?_))
    rw [mem_cons]
    refine or_iff_right fun meets => new ?_
    obtain ⟨m, isFirst, _⟩ := freshShadow_first taken name
    have spelled := congrArg String.toList meets
    rw [isFirst, lower_shadowCandidate, lower_shadowCandidate] at spelled
    rw [← String.toList_inj.mp (append_shadowSuffix_injective spelled).1]
    exact mem_map_of_mem inRest

theorem lookup_shadowsFor_of_mem (member : name ∈ names) :
    ∃ shadow, (shadowsFor taken names).lookup name = some shadow := by
  induction names generalizing taken with
  | nil => cases member
  | cons first rest ih =>
    rw [shadowsFor, lookup_cons]
    by_cases same : name = first
    · exact ⟨_, by rw [same, BEq.rfl]⟩
    · rw [beq_eq_false_iff_ne.mpr same]
      exact ih ((mem_cons.mp member).resolve_left same)

theorem mem_shadowsFor (member : entry ∈ shadowsFor taken names) : entry.1 ∈ names := by
  induction names generalizing taken with
  | nil => cases member
  | cons first rest ih =>
    rcases mem_cons.mp member with rfl | later
    · exact mem_cons_self ..
    · exact mem_cons_of_mem _ (ih later)

end RtlBridge.Emission

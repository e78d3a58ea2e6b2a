import Mathlib.Data.Bool.AllAny
import RtlBridge.Text.LetterCase

/-! Lower-casing twice. ASCII texts are lower-cased letter by letter, and a lower-case form that is a single
character is its own lower-case form. -/

namespace RtlBridge.Text

open List

theorem lowerFrom_of_ascii (afterCased : Bool) (ascii : ∀ c ∈ text, c.toNat < 0x80) :
    lowerFrom afterCased text = text.map Char.toLower := by
  induction text generalizing afterCased with
  | nil => rfl
  | cons c rest ih =>
    have small := ascii c (mem_cons_self ..)
    have notSigma : c.toNat ≠ 0x3A3 := by omega
    have plain : lowerChar c = [c.toLower] := by rw [lowerChar, if_pos small]
    rw [lowerFrom, if_neg notSigma, plain, ih _ fun d member => ascii d (mem_cons_of_mem c member)]
    rfl

theorem lowerFrom_append (afterCased : Bool) (text rest : List Char) (notSigma : c.toNat ≠ 0x3A3)
    (ends : isCaseIgnorable c = false) (uncased : isCased c = false) :
    lowerFrom afterCased (text ++ c :: rest) = lowerFrom afterCased text ++ lowerFrom false (c :: rest) := by
  induction text generalizing afterCased with
  | nil => simp [lowerFrom, notSigma, ends]
  | cons first text ih =>
    have sameStart : startsCased (text ++ c :: rest) = startsCased text := by
      rw [startsCased, startsCased, find?_append]
      cases text.find? (!isCaseIgnorable ·) with
      | none => simp [ends, uncased]
      | some found => rfl
    rw [cons_append, lowerFrom, lowerFrom, sameStart, ih, append_assoc]

def lowerAlone (c : Char) : List Char := if c.toNat = 0x3A3 then ['σ'] else lowerChar c

theorem lower_toString (c : Char) : lower c.toString = String.ofList (lowerAlone c) := by
  simp [lower, lowerFrom, lowerAlone, Char.toString]

theorem lowerAlone_cases (c : Char) : lowerAlone c = ['i', '\u0307'] ∨ ∃ d, lowerAlone c = [d] := by
  rw [lowerAlone, lowerChar]
  generalize lowerRuns.find? (·.holds c) = found
  cases found <;> (repeat' split) <;> simp

theorem lowerAlone_ne_nil (c : Char) : lowerAlone c ≠ [] := by
  obtain same | ⟨d, same⟩ := lowerAlone_cases c <;> simp [same]

/-! ### The table -/

/-- No code point that steps lead to from `first` to `last` is in the run. -/
def CaseRun.avoids (run : CaseRun) (first last step : Nat) : Bool :=
  Nat.blt last run.first || Nat.blt run.last first ||
    (Nat.beq run.step 2 && (Nat.beq step 2 || Nat.beq first last) && Nat.beq ((first + run.first) % 2) 1)

def CaseRun.settles (run : CaseRun) : Bool :=
  let first := (run.first + run.shift).toNat
  let last := (run.last + run.shift).toNat
  (Nat.beq first 0x6B && Nat.beq last 0x6B) ||
    (Nat.ble 0x80 first && (Nat.blt last 0x130 || Nat.blt 0x130 first) &&
      (Nat.blt last 0x3A3 || Nat.blt 0x3A3 first) &&
      (Nat.beq run.step 1 || Nat.beq run.step 2) &&
      lowerRuns.all fun other => other.avoids first last run.step)

theorem lowerRuns_settle : ∀ run ∈ lowerRuns, run.settles = true := by decide +kernel

theorem CaseRun.holds_iff (run : CaseRun) (c : Char) :
    run.holds c = true ↔ run.first ≤ c.toNat ∧ c.toNat ≤ run.last ∧ (c.toNat - run.first) % run.step = 0 := by
  simp [holds, and_assoc]

theorem lowerAlone_of_not_holds (large : 0x80 ≤ c.toNat) (notDotted : c.toNat ≠ 0x130) (notSigma : c.toNat ≠ 0x3A3)
    (outside : ∀ run ∈ lowerRuns, run.holds c = false) : lowerAlone c = [c] := by
  have none : lowerRuns.find? (·.holds c) = none := by simpa [find?_eq_none] using outside
  rw [lowerAlone, if_neg notSigma, lowerChar, if_neg (by omega), if_neg notDotted, none]

theorem CaseRun.not_holds_of_avoids {run : CaseRun} {first last step : Nat} (avoids : run.avoids first last step = true)
    (low : first ≤ c.toNat) (high : c.toNat ≤ last) (stepped : (c.toNat - first) % step = 0) : run.holds c = false := by
  rw [Bool.eq_false_iff, ne_eq, holds_iff]
  rintro ⟨above, below, inStep⟩
  simp only [CaseRun.avoids, Bool.or_eq_true, Bool.and_eq_true, Nat.blt_eq, Nat.beq_eq] at avoids
  rcases avoids with (before | after) | ⟨⟨two, even⟩, odd⟩
  · omega
  · omega
  · rw [two] at inStep
    rcases even with rfl | rfl <;> omega

theorem lowerAlone_toLower {c : Char} (small : c.toNat < 0x80) : lowerAlone c.toLower = [c.toLower] := by
  have table : ∀ n < 0x80, lowerAlone (Char.ofNat n).toLower = [(Char.ofNat n).toLower] := by decide +kernel
  rw [← Char.ofNat_toNat c]
  exact table c.toNat small

theorem lowerAlone_shifted (member : run ∈ lowerRuns) (holds : run.holds c = true) :
    lowerAlone (Char.ofNat (c.toNat + run.shift).toNat) = [Char.ofNat (c.toNat + run.shift).toNat] := by
  have settles := lowerRuns_settle run member
  obtain ⟨low, high, stepped⟩ := (run.holds_iff c).mp holds
  generalize form : Char.ofNat (c.toNat + run.shift).toNat = d
  have code : d.toNat = (c.toNat + run.shift).toNat ∨ d.toNat = 0 := by
    rw [← form]
    unfold Char.ofNat
    by_cases valid : (c.toNat + run.shift).toNat.isValidChar
    · rw [dif_pos valid]
      exact .inl rfl
    · rw [dif_neg valid]
      exact .inr rfl
  rcases code with code | zero
  · simp only [CaseRun.settles, Bool.or_eq_true, Bool.and_eq_true, Nat.beq_eq, Nat.ble_eq, Nat.blt_eq,
      all_eq_true] at settles
    rcases settles with ⟨first, last⟩ | ⟨⟨⟨⟨large, notDotted⟩, notSigma⟩, step⟩, avoids⟩
    · have kelvin : d = 'k' := Char.toNat_inj.mp (by rw [code]; simp; omega)
      rw [kelvin]
      decide
    · refine lowerAlone_of_not_holds (by omega) (by omega) (by omega) fun other otherMember => ?_
      refine CaseRun.not_holds_of_avoids (avoids other otherMember) (by omega) (by omega) ?_
      rcases step with one | two
      · rw [one, Nat.mod_one]
      · rw [two] at stepped ⊢
        omega
  · have null : d = '\x00' := Char.toNat_inj.mp zero
    rw [null]
    decide

theorem lowerAlone_of_mem (member : d ∈ lowerAlone c) : lowerAlone d = [d] := by
  rw [lowerAlone] at member
  split at member
  · cases mem_singleton.mp member
    decide
  · rename_i notSigma
    rw [lowerChar] at member
    split at member
    · rename_i small
      cases mem_singleton.mp member
      exact lowerAlone_toLower small
    · split at member
      · have both : ∀ d ∈ ['i', '\u0307'], lowerAlone d = [d] := all_iff_forall_prop.mp (by decide +kernel)
        exact both d member
      · rename_i large notDotted
        split at member
        · rename_i run found
          cases mem_singleton.mp member
          have holds := find?_some found
          exact lowerAlone_shifted (mem_of_find?_eq_some found) holds
        · rename_i none
          cases mem_singleton.mp member
          refine lowerAlone_of_not_holds (by omega) notDotted notSigma fun run member => ?_
          have outside := find?_eq_none.mp none run member
          simpa using outside

/-! ### Texts -/

theorem lowerAlone_of_mem_lowerFrom (member : d ∈ lowerFrom afterCased text) : lowerAlone d = [d] := by
  induction text generalizing afterCased with
  | nil => cases member
  | cons c rest ih =>
    rcases mem_append.mp member with here | later
    · split at here
      · have both : ∀ d ∈ ['ς', 'σ'], lowerAlone d = [d] := all_iff_forall_prop.mp (by decide +kernel)
        split at here <;> exact both d (by simp_all)
      · rename_i notSigma
        exact lowerAlone_of_mem (c := c) (by rwa [lowerAlone, if_neg notSigma])
    · exact ih later

theorem lowerFrom_of_lowerAlone (same : ∀ c ∈ text, lowerAlone c = [c]) (afterCased : Bool) :
    lowerFrom afterCased text = text := by
  induction text generalizing afterCased with
  | nil => rfl
  | cons c rest ih =>
    obtain ⟨here, later⟩ := forall_mem_cons.mp same
    have notSigma : c.toNat ≠ 0x3A3 := by
      intro isSigma
      rw [lowerAlone, if_pos isSigma] at here
      cases here
      cases isSigma
    rw [lowerAlone, if_neg notSigma] at here
    rw [lowerFrom, if_neg notSigma, here, ih later]
    rfl

theorem lower_lower (text : String) : lower (lower text) = lower text := by
  rw [lower, lower, String.toList_ofList, lowerFrom_of_lowerAlone fun c => lowerAlone_of_mem_lowerFrom]

end RtlBridge.Text

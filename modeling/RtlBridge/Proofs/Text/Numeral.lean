import Mathlib.Data.Nat.Digits.Defs
import RtlBridge.Text.Numeral

/-! Texts that are numbers. -/

namespace RtlBridge.Text.Numeral

open List

def IsDigitIn (base : Nat) (c : Char) : Prop := ∃ value, digitOrLetter? c = some value ∧ value < base

theorem isDigitIn_iff : IsDigitIn base c ↔ (digitOrLetter? c).any (· < base) = true := by
  simp [IsDigitIn, Option.any_eq_true]

/-- The value of digits in a base, where each is weighted by the power of the base for its place. -/
def weighted (base : Nat) (digits : List Char) : Nat := Nat.ofDigits base (digits.filterMap digitOrLetter?).reverse

theorem weighted_append (front : List Char) (areDigits : ∀ d ∈ digits, IsDigitIn base d) :
    weighted base (front ++ digits) = weighted base front * base ^ digits.length + weighted base digits := by
  have places : (digits.filterMap digitOrLetter?).length = digits.length := by
    rw [length_filterMap_eq_countP, countP_eq_length]
    intro c member
    obtain ⟨_, isSome, _⟩ := areDigits c member
    exact Option.isSome_of_eq_some isSome
  rw [weighted, filterMap_append, reverse_append, Nat.ofDigits_append, length_reverse, places,
    Nat.mul_comm, Nat.add_comm]
  rfl

theorem readFrom_eq_some_iff : readFrom base high digits = some n ↔
    (∀ d ∈ digits, IsDigitIn base d) ∧ n = high * base ^ digits.length + weighted base digits := by
  induction digits generalizing high with
  | nil => simp [readFrom, weighted, eq_comm]
  | cons d rest ih =>
    rw [readFrom, forall_mem_cons]
    cases isValue : digitOrLetter? d with
    | none => simp [IsDigitIn, isValue]
    | some value =>
      by_cases small : value < base
      · have isDigit : IsDigitIn base d := ⟨value, isValue, small⟩
        simp only [small, if_true, ih, isDigit, true_and]
        refine and_congr_right fun areDigits => ?_
        have place : weighted base (d :: rest) = value * base ^ rest.length + weighted base rest := by
          simpa [weighted, isValue] using weighted_append [d] areDigits
        rw [place, length_cons, pow_succ]
        ring_nf
      · simp [IsDigitIn, isValue, small]

theorem read?_eq_some_iff :
    read? base digits = some n ↔ digits ≠ [] ∧ (∀ d ∈ digits, IsDigitIn base d) ∧ n = weighted base digits := by
  rw [read?]
  split <;> simp_all [readFrom_eq_some_iff]

theorem read?_isSome (present : digits ≠ []) (areDigits : ∀ d ∈ digits, IsDigitIn base d)
    : (read? base digits).isSome = true := Option.isSome_of_eq_some (read?_eq_some_iff.mpr ⟨present, areDigits, rfl⟩)

theorem isDigitIn_of_read? (isNumber : (read? base digits).isSome = true) : ∀ d ∈ digits, IsDigitIn base d := by
  obtain ⟨n, read⟩ := Option.isSome_iff_exists.mp isNumber
  exact (read?_eq_some_iff.mp read).2.1

theorem digitValue?_lt (digit : digitValue? c = some value) : value < 10 := by
  rw [digitValue?] at digit
  split at digit
  · split at digit
    · rename_i range
      simp only [Bool.and_eq_true, decide_eq_true_eq] at range
      cases digit
      omega
    · cases digit
  · obtain ⟨first, found, rfl⟩ := Option.map_eq_some_iff.mp digit
    have range := find?_some found
    simp only [Bool.and_eq_true, decide_eq_true_eq] at range
    omega

theorem digitOrLetter?_of_digit (isValue : digitValue? c = some value) : digitOrLetter? c = some value := by
  have notLetter : c.isLower = false ∧ c.isUpper = false := by
    rw [digitValue?] at isValue
    unfold Char.isLower Char.isUpper
    simp only [UInt32.le_iff_toNat_le, Char.toNat_val, ge_iff_le,
      Bool.and_eq_false_iff, decide_eq_false_iff_not, Nat.not_le, Char.reduceVal,
      UInt32.reduceToNat]
    split at isValue
    · split at isValue
      · rename_i range
        simp only [Bool.and_eq_true, decide_eq_true_eq] at range
        omega
      · cases isValue
    · omega
  simp [digitOrLetter?, notLetter, isValue]

theorem isDigitIn_ten (digit : isDigit c = true) : IsDigitIn 10 c := by
  obtain ⟨value, isValue⟩ := Option.isSome_iff_exists.mp digit
  exact ⟨value, digitOrLetter?_of_digit isValue, digitValue?_lt isValue⟩

theorem isDigit_of_isDigitIn (small : base ≤ 10) (digit : IsDigitIn base c) : isDigit c = true := by
  obtain ⟨value, isValue, below⟩ := digit
  rw [digitOrLetter?] at isValue
  split at isValue
  · cases isValue
    omega
  · split at isValue
    · cases isValue
      omega
    · rw [isDigit, isValue]
      rfl

theorem decimal?_of_digits (areDigits : ∀ d ∈ digits.toList, isDigit d = true) :
    decimal? digits = (read? 10 digits.toList).map Int.ofNat := by
  rw [decimal?]
  split
  · rename_i rest spelled
    exact absurd (areDigits '-' (spelled ▸ mem_cons_self ..)) (by decide)
  · rfl

theorem decimal?_isSome (present : digits.toList ≠ []) (areDigits : ∀ d ∈ digits.toList, isDigit d = true)
    : (decimal? digits).isSome = true := by
  have read := read?_isSome present fun d member => isDigitIn_ten (areDigits d member)
  simpa [decimal?_of_digits areDigits] using read

/-! ### Numbers as they are written -/

theorem isDigit_of_ascii (digit : c.isDigit = true) : isDigit c = true := by
  have range : 48 ≤ c.toNat ∧ c.toNat ≤ 57 := by simpa [Char.isDigit, UInt32.le_iff_toNat_le] using digit
  rw [isDigit, digitValue?, if_pos (by omega), if_pos (by simpa using range)]
  rfl

theorem toList_toString (n : Nat) : (toString n).toList = Nat.toDigits 10 n := by simp [toString, Nat.repr]

theorem isDigit_of_mem_toDigits (member : d ∈ Nat.toDigits 10 n) : isDigit d = true :=
  isDigit_of_ascii (Nat.isDigit_of_mem_toDigits (by decide) (by decide) member)

theorem readFrom_of_ascii (areDigits : ∀ d ∈ digits, d.isDigit = true) (high : Nat) :
    readFrom 10 high digits = some (Nat.ofDigitChars 10 digits high) := by
  induction digits generalizing high with
  | nil => rfl
  | cons c rest ih =>
    have range : 48 ≤ c.toNat ∧ c.toNat ≤ 57 := by
      simpa [Char.isDigit, UInt32.le_iff_toNat_le] using areDigits c (by simp)
    have value : digitOrLetter? c = some (c.toNat - 48) :=
      digitOrLetter?_of_digit (by rw [digitValue?, if_pos (by omega), if_pos (by simpa using range)])
    have step : high * 10 + (c.toNat - 48) = 10 * high + (c.toNat - '0'.toNat) := by
      rw [Nat.mul_comm]
      rfl
    rw [readFrom]
    simp only [value]
    rw [if_pos (by omega), ih (fun d member => areDigits d (by simp [member])), step]
    rfl

theorem read?_toDigits (n : Nat) : read? 10 (Nat.toDigits 10 n) = some n := by
  rw [read?, if_neg (by simp [Nat.toDigits_ne_nil]),
    readFrom_of_ascii fun d member => Nat.isDigit_of_mem_toDigits (by decide) (by decide) member,
    Nat.ofDigitChars_toDigits (by decide) (by decide)]

theorem decimal?_toString (n : Int) : decimal? (toString n) = some n := by
  cases n with
  | ofNat m =>
    have spelled : (toString (Int.ofNat m)).toList = Nat.toDigits 10 m := toList_toString m
    rw [decimal?_of_digits (by rw [spelled]; exact fun d => isDigit_of_mem_toDigits), spelled, read?_toDigits]
    rfl
  | negSucc m =>
    have spelled : (toString (Int.negSucc m)).toList = '-' :: Nat.toDigits 10 (m + 1) := by simp [toString, Int.repr]
    rw [decimal?, spelled]
    simp only [read?_toDigits]
    rfl

end RtlBridge.Text.Numeral

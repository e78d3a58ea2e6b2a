import Mathlib.Data.Int.Bitwise
import RtlBridge.Vhdl.Width

/-! The numbers that source expressions stand for. A store holds the bits of each name as a whole number; vectors are
the lowered ones, where element `k` is bit `k - low` whichever way the range was declared. An operation is carried out
on whole numbers, and its result is put into as many bits as the operation has; an operation without a width loses
nothing. -/

namespace RtlBridge.Vhdl

def wrapped (signed : Bool) (width : Option Int) (n : Int) : Int :=
  match width with
  | some width => if signed then n.bmod (2 ^ width.toNat) else n % (2 ^ width.toNat : Nat)
  | none => n

def InRange (signed : Bool) (width : Nat) (n : Int) : Prop :=
  if signed then -2 ^ width ≤ 2 * n ∧ 2 * n < 2 ^ width else 0 ≤ n ∧ n < 2 ^ width

instance (signed : Bool) (width : Nat) (n : Int) : Decidable (InRange signed width n) :=
  inferInstanceAs (Decidable (if signed then -2 ^ width ≤ 2 * n ∧ 2 * n < 2 ^ width else 0 ≤ n ∧ n < 2 ^ width))

/-- A signed number with fewer or more bits: it keeps its sign and its low bits. -/
def resized (width : Option Int) (n : Int) : Int :=
  match width with
  | some width =>
    let rest : Int := (2 ^ (width - 1).toNat : Nat)
    if n < 0 then n % rest - rest else n % rest
  | none => n

/-! ### Numbers that fit -/

theorem wrapped_eq_iff_inRange {width : Nat} : wrapped signed (some width) n = n ↔ InRange signed width n := by
  have positive : (0 : Int) < 2 ^ width := Int.pow_pos (by decide)
  cases signed with
  | false =>
    simp only [wrapped, InRange, Int.toNat_natCast, Bool.false_eq_true, if_false, Nat.cast_pow, Nat.cast_ofNat]
    constructor
    · intro same
      have low := Int.emod_nonneg n (Int.ne_of_gt positive)
      have high := Int.emod_lt_of_pos n positive
      omega
    · intro inside
      exact Int.emod_eq_of_lt inside.1 inside.2
  | true =>
    simp only [wrapped, InRange, Int.toNat_natCast, if_true]
    constructor
    · intro same
      have low : -(((2 ^ width : Nat) : Int) / 2) ≤ n.bmod (2 ^ width) := Int.le_bmod (Nat.two_pow_pos width)
      have high : n.bmod (2 ^ width) < (((2 ^ width : Nat) : Int) + 1) / 2 := Int.bmod_lt (Nat.two_pow_pos width)
      push_cast at low high
      omega
    · intro inside
      apply Int.bmod_eq_of_le
      · push_cast
        omega
      · push_cast
        omega

theorem inRange_wrapped (signed : Bool) (width : Nat) (n : Int) :
    InRange signed width (wrapped signed (some width) n) := by
  rw [← wrapped_eq_iff_inRange]
  cases signed with
  | false => simp [wrapped]
  | true => simp [wrapped]

theorem InRange.mono (fits : InRange signed width n) (room : width ≤ wider) : InRange signed wider n := by
  have more : (2 : Int) ^ width ≤ 2 ^ wider := by exact_mod_cast Nat.pow_le_pow_right (by decide) room
  cases signed with
  | false =>
    simp only [InRange, Bool.false_eq_true, if_false] at fits ⊢
    omega
  | true =>
    simp only [InRange, if_true] at fits ⊢
    omega

theorem inRange_false_iff : InRange false width n ↔ ∃ m : Nat, n = m ∧ m < 2 ^ width := by
  simp only [InRange, Bool.false_eq_true, if_false]
  constructor
  · intro fits
    obtain ⟨m, rfl⟩ := Int.eq_ofNat_of_zero_le fits.1
    exact ⟨m, rfl, by exact_mod_cast fits.2⟩
  · intro natural
    obtain ⟨m, rfl, small⟩ := natural
    exact ⟨by omega, by exact_mod_cast small⟩

/-- A number without its sign, where a negative one is counted from minus one. -/
def magnitude : Int → Nat
  | .ofNat m => m
  | .negSucc m => m

theorem inRange_true_iff : InRange true (width + 1) n ↔ magnitude n < 2 ^ width := by
  have cast : (2 : Int) ^ width = (2 ^ width : Nat) := by simp
  simp only [InRange, if_true, pow_succ, cast]
  cases n with
  | ofNat m =>
    simp only [magnitude, Int.ofNat_eq_natCast]
    omega
  | negSucc m =>
    simp only [magnitude]
    omega

theorem ldiff_lt_two_pow (small : m < 2 ^ width) (n : Nat) : m.ldiff n < 2 ^ width := by
  apply Nat.lt_pow_two_of_testBit
  intro i beyond
  have clear : m.testBit i = false :=
    Nat.testBit_eq_false_of_lt (small.trans_le (Nat.pow_le_pow_right (by decide) beyond))
  simp [Nat.testBit_ldiff, clear]

theorem inRange_bitwise (first : InRange signed width a) (second : InRange signed width b) :
    InRange signed width (a.land b) ∧ InRange signed width (a.lor b) ∧ InRange signed width (a.xor b) := by
  cases signed with
  | false =>
    obtain ⟨m, rfl, left⟩ := inRange_false_iff.mp first
    obtain ⟨n, rfl, right⟩ := inRange_false_iff.mp second
    exact ⟨inRange_false_iff.mpr ⟨_, rfl, Nat.and_lt_two_pow m right⟩,
      inRange_false_iff.mpr ⟨_, rfl, Nat.or_lt_two_pow left right⟩,
      inRange_false_iff.mpr ⟨_, rfl, Nat.xor_lt_two_pow left right⟩⟩
  | true =>
    cases width with
    | zero =>
      have zero : ∀ n : Int, InRange true 0 n → n = 0 := by
        intro n fits
        simp only [InRange, if_true] at fits
        omega
      rw [zero a first, zero b second]
      decide
    | succ width =>
      rw [inRange_true_iff] at first second
      simp only [inRange_true_iff]
      have exclusive : ∀ {m n : Nat}, m < 2 ^ width → n < 2 ^ width → m ^^^ n < 2 ^ width := Nat.xor_lt_two_pow
      cases a with
      | ofNat m =>
        cases b with
        | ofNat n => exact ⟨Nat.and_lt_two_pow m second, Nat.or_lt_two_pow first second, exclusive first second⟩
        | negSucc n => exact ⟨ldiff_lt_two_pow first n, ldiff_lt_two_pow second m, exclusive first second⟩
      | negSucc m =>
        cases b with
        | ofNat n => exact ⟨ldiff_lt_two_pow second m, ldiff_lt_two_pow first n, exclusive first second⟩
        | negSucc n => exact ⟨Nat.or_lt_two_pow first second, Nat.and_lt_two_pow m second, exclusive first second⟩

/-! ### Expressions -/

namespace BinaryOp

def relates : BinaryOp → Int → Int → Bool
  | .eq, a, b => a = b
  | .ne, a, b => a ≠ b
  | .lt, a, b => a < b
  | .le, a, b => a ≤ b
  | .gt, a, b => b < a
  | .ge, a, b => b ≤ a
  | _, _, _ => false

/-- The exact result of an operation; `width` is that of the left operand. -/
def exact (width : Option Int) : BinaryOp → Int → Int → Int
  | .and, a, b => a.land b
  | .or, a, b => a.lor b
  | .xor, a, b => a.xor b
  | .nand, a, b => (a.land b).lnot
  | .nor, a, b => (a.lor b).lnot
  | .xnor, a, b => (a.xor b).lnot
  | .sll, a, b => a * 2 ^ b.toNat
  | .sla, a, b => a * 2 ^ b.toNat
  | .srl, a, b => wrapped false width a / 2 ^ b.toNat
  | .sra, a, b => a / 2 ^ b.toNat
  | .add, a, b => a + b
  | .sub, a, b => a - b
  | .mul, a, b => a * b
  | .div, a, b => a.tdiv b
  | .mod, a, b => a.fmod b
  | .rem, a, b => a.tmod b
  | op, a, b => (op.relates a b).toNat

/-- Operations that need no more bits than their operands: relations, and those that go bit by bit. -/
def staysInside (op : BinaryOp) : Bool := op.isRelational || op ∈ [.and, .or, .xor]

end BinaryOp

def UnaryOp.exact : UnaryOp → Int → Int
  | .not, n => n.lnot
  | .minus, n => -n
  | .plus, n => n

def NameTable.low (names : NameTable) (name : String) : Int :=
  match names.type? name with
  | some (.vector vector) => vector.low
  | _ => 0

namespace Expr

/-- Whether the bits of an expression are a signed number. A relation is a bit, whatever it compares. -/
def readsSigned (names : NameTable) : Expr → Bool
  | .binary op lhs rhs _ => !op.isRelational && (lhs.readsSigned names || rhs.readsSigned names)
  | .unary _ operand _ => operand.readsSigned names
  | other => other.isSigned names

def placeBeside (names : NameTable) (operand other : Expr) : Option Int :=
  match operand with
  | .aggregate _ _ _ => other.width? names
  | _ => none

def number (names : NameTable) (store : String → Nat) (place : Option Int) : Expr → Int
  | .name spelling _ =>
    wrapped ((names.type? spelling).any DataType.signed) ((names.type? spelling).map DataType.width) (store spelling)
  | .literal value _ => value.value?.getD 0
  | .binary op lhs rhs line =>
    let result := op.exact (lhs.width? names) (lhs.number names store (lhs.placeBeside names rhs))
      (rhs.number names store (rhs.placeBeside names lhs))
    if op.staysInside then result
    else
      wrapped (readsSigned names (.binary op lhs rhs line)) (width? names (.binary op lhs rhs line)) result
  | .unary op operand _ =>
    wrapped (operand.readsSigned names) (operand.width? names) (op.exact (operand.number names store none))
  | .call function arguments line =>
    let size := width? names (.call function arguments line)
    let signed := isSigned names (.call function arguments line)
    match Builtin.shift? function, arguments with
    | some .left, value :: amount :: _ =>
      wrapped signed size (value.number names store none * 2 ^ (amount.number names store none).toNat)
    | some .right, value :: amount :: _ =>
      wrapped signed size (value.number names store none / 2 ^ (amount.number names store none).toNat)
    | _, first :: _ =>
      if signed && (Builtin.sizedConversion? function == some .keep) then
        resized size (first.number names store place)
      else wrapped signed size (first.number names store place)
    | _, [] => 0
  | .aggregate fill _ _ =>
    if fill.number names store none = 0 then 0 else wrapped false place (-1)
  | .concat parts _ => joined parts
  | .index base subscript _ => bitsFrom base (subscript.number names store none) 1
  | .slice base left right line =>
    bitsFrom base (min (left.number names store none) (right.number names store none))
      ((width? names (.slice base left right line)).getD 0).toNat
  | .tick _ _ _ => 0
where
  joined : List Expr → Int
    | [] => 0
    | first :: rest =>
      wrapped false (first.width? names) (first.number names store none) *
        2 ^ ((width?.sumWidths names rest).getD 0).toNat + joined rest
  /-- So many bits of a name from an index on. -/
  bitsFrom (base : Expr) (last : Int) (count : Nat) : Int :=
    match base with
    | .name spelling _ => (store spelling / 2 ^ (last - names.low spelling).toNat % 2 ^ count : Nat)
    | _ => 0

end Expr

end RtlBridge.Vhdl

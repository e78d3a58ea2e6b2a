import RtlBridge.Proofs.Emission.Leaves
import RtlBridge.Proofs.Emission.MinusSigns

/-! Comparisons of unsigned numbers. The source puts every sum, difference and complement into as many bits as
its operands have; the output evaluates it at the width of the comparison around it. The two agree as long as
no carry, borrow or inverted bit gets into bits that the source does not have. -/

namespace RtlBridge.Emission

open List

open Verilog (Tree Scope isDigits numberOf_ofInt)
open Vhdl (NameTable Expr InRange wrapped BinaryOp)

/-- Unsigned vectors of up to 32 bits, numbers without a sign below `2 ^ 32`, and the operations between
them. -/
def UnsignedNode (names : NameTable) : Expr → Prop
  | .name spelling _ =>
    ∃ vector, names.type? spelling = some (.vector vector) ∧ vector.signed = false ∧ vector.width ≤ 32
  | .literal value _ =>
    ∃ digits, value = .decimal digits ∧ isDigits digits.toList = true ∧ Verilog.decimalValue digits < 2 ^ 32
  | .binary op _ _ _ => op.isRelational = true ∨ op ∈ [BinaryOp.add, .sub, .and, .or, .xor]
  | .unary op _ _ => op = .not
  | _ => False

def operandWidth (names : NameTable) : Expr → Nat
  | .name spelling _ => ((names.type? spelling).elim 1 Vhdl.DataType.width).toNat
  | .binary op lhs rhs _ => if op.isRelational then 1 else max (operandWidth names lhs) (operandWidth names rhs)
  | .unary _ operand _ => operandWidth names operand
  | _ => 32

/-- Whether an operand is made of numbers only; such operands are compared as signed numbers. -/
def isNumeric : Expr → Bool
  | .literal _ _ => true
  | .binary op lhs rhs _ => !op.isRelational && isNumeric lhs && isNumeric rhs
  | .unary _ operand _ => isNumeric operand
  | _ => false

/-- The result of an operation has as many bits as it is evaluated with, or it needs no more than the
operation has. -/
def StaysWithin (names : NameTable) (size : Nat) (signed : Bool) (operation : Expr) (exact : Int) : Prop :=
  operation.width? names = some (size : Int) ∨ InRange signed ((operation.width? names).getD size).toNat exact

/-- No carry, borrow or inverted bit is lost in the source and kept in the output, where an operand is evaluated
with so many bits. -/
def Contained (names : NameTable) (store : String → Nat) (size : Nat) (signed : Bool) : Expr → Prop
  | .literal value _ => InRange signed 32 (value.value?.getD 0)
  | .binary op lhs rhs line =>
    if op.isRelational then
      let common := max (operandWidth names lhs) (operandWidth names rhs)
      let numeric := isNumeric lhs && isNumeric rhs
      Contained names store common numeric lhs ∧ Contained names store common numeric rhs
    else
      (Contained names store size signed lhs ∧ Contained names store size signed rhs) ∧
        (op.staysInside = false → StaysWithin names size signed (.binary op lhs rhs line)
          (op.exact none (lhs.number names store none) (rhs.number names store none)))
  | .unary op operand line =>
    Contained names store size signed operand ∧
      StaysWithin names size signed (.unary op operand line) (op.exact (operand.number names store none))
  | _ => True

section Operands

variable {names : NameTable} {source other : Expr}

theorem lentWidth_of_unsigned (unsigned : UnsignedNode names source) (lend : Bool) :
    lentWidth names lend source other = none := by
  cases source with
  | aggregate fill site line => cases unsigned
  | _ => rfl

theorem placeBeside_of_unsigned (unsigned : UnsignedNode names source) : source.placeBeside names other = none := by
  cases source with
  | aggregate fill site line => cases unsigned
  | _ => rfl

theorem readsSigned_of_unsigned (unsigned : source.All (UnsignedNode names)) : source.readsSigned names = false := by
  induction source using Expr.induction with
  | name spelling line =>
    obtain ⟨vector, typed, sign, _⟩ := unsigned
    simp [Expr.readsSigned, Expr.isSigned, typed, Vhdl.DataType.signed, sign]
  | literal value line => rfl
  | binary op lhs rhs line left right => simp [Expr.readsSigned, left unsigned.2.1, right unsigned.2.2]
  | unary op operand line ih => exact ih unsigned.2
  | _ => cases unsigned.self

theorem binaryWidth_of_plain (plain : op ∈ [BinaryOp.add, .sub, .and, .or, .xor]) (left right : Option Int) :
    Expr.binaryWidth op left right = Expr.maxKnown left right ∧ op.isRelational = false := by
  simp only [mem_cons, not_mem_nil, or_false] at plain
  rcases plain with rfl | rfl | rfl | rfl | rfl <;> exact ⟨rfl, rfl⟩

/-- Operands that are made of numbers have no width, and others have at most the one they are evaluated with. -/
theorem width?_of_unsigned (unsigned : source.All (UnsignedNode names)) :
    (source.width? names = none ∧ isNumeric source = true) ∨
      ∃ width : Nat, source.width? names = some (width : Int) ∧ width ≤ operandWidth names source ∧
        isNumeric source = false := by
  induction source using Expr.induction with
  | name spelling line =>
    obtain ⟨vector, typed, _⟩ := unsigned
    have ordered := vector.ordered
    have positive : 0 ≤ vector.width := by
      rw [Vhdl.VectorType.width]
      omega
    obtain ⟨width, same⟩ := Int.eq_ofNat_of_zero_le positive
    right
    exact ⟨width, by simp [Expr.width?, typed, Vhdl.DataType.width, same],
      by simp [operandWidth, typed, Vhdl.DataType.width, same], rfl⟩
  | literal value line =>
    obtain ⟨digits, rfl, _⟩ := unsigned
    exact .inl ⟨rfl, rfl⟩
  | binary op lhs rhs line left right =>
    obtain ⟨node, leftUnsigned, rightUnsigned⟩ := unsigned
    rcases node with relational | plain
    · right
      exact ⟨1, by simp [Expr.width?, Expr.binaryWidth, relational], by simp [operandWidth, relational],
        by simp [isNumeric, relational]⟩
    · obtain ⟨widths, notRelational⟩ := binaryWidth_of_plain plain (lhs.width? names) (rhs.width? names)
      rw [Expr.width?, widths, operandWidth, isNumeric, notRelational]
      obtain ⟨noLeft, isLeft⟩ | ⟨first, leftWidth, leftBound, isLeft⟩ := left leftUnsigned <;>
        obtain ⟨noRight, isRight⟩ | ⟨second, rightWidth, rightBound, isRight⟩ := right rightUnsigned
      · simp [*, Expr.maxKnown]
      · simp [*, Expr.maxKnown]
      · simp [*, Expr.maxKnown]
      · exact .inr ⟨max first second, by simp [*, Expr.maxKnown], max_le_max leftBound rightBound, by simp [*]⟩
  | unary op operand line ih => exact ih unsigned.2
  | _ => cases unsigned.self

end Operands

section Trees

variable {names : NameTable} {scope : Scope} {fills lend : Bool} {source : Expr}

theorem reading_binary_of_unsigned (unsigned : (Expr.binary op lhs rhs line).All (UnsignedNode names))
    (width : Option Int) :
    reading names fills lend width (.binary op lhs rhs line) =
        .binary (operator op).op.text (reading names fills lend none lhs) (reading names fills lend none rhs) ∧
      Verilog.isComparison (operator op).op.text = op.isRelational ∧
      Verilog.isShift (operator op).op.text = false := by
  obtain ⟨node, left, right⟩ := unsigned
  rw [reading, lentWidth_of_unsigned left.self, lentWidth_of_unsigned right.self]
  simp only [UnsignedNode, mem_cons, not_mem_nil, or_false] at node
  cases op <;> first | exact ⟨rfl, rfl, rfl⟩ | simp [BinaryOp.isRelational] at node

theorem width_reading_of_unsigned (fills lend : Bool) (declares : Declares names scope)
    (unsigned : source.All (UnsignedNode names)) :
    (reading names fills lend none source).width scope = operandWidth names source ∧
      (reading names fills lend none source).isSigned scope = isNumeric source := by
  induction source using Expr.induction with
  | name spelling line =>
    obtain ⟨vector, typed, sign, _⟩ := unsigned
    have ordered := vector.ordered
    have declared := declares spelling _ typed
    simp only [dimension?] at declared
    constructor
    · simp only [reading, Tree.width, Scope.width, declared, Option.elim_some, Verilog.Dimension.width,
        operandWidth, typed, Vhdl.DataType.width, Vhdl.VectorType.width]
      omega
    · simp [reading, Tree.isSigned, Scope.isSigned, declared, isNumeric, sign]
  | literal value line =>
    obtain ⟨digits, rfl, number, _⟩ := unsigned
    rw [reading, literalTree_of_isDigits number]
    exact ⟨rfl, rfl⟩
  | binary op lhs rhs line left right =>
    obtain ⟨tree, comparison, shift⟩ := reading_binary_of_unsigned unsigned none
    obtain ⟨leftWidth, leftSigned⟩ := left unsigned.2.1
    obtain ⟨rightWidth, rightSigned⟩ := right unsigned.2.2
    rw [tree]
    constructor
    · simp [Tree.width, comparison, shift, operandWidth, leftWidth, rightWidth]
    · cases relational : op.isRelational with
      | true => simp [Tree.isSigned, comparison, isNumeric, relational]
      | false => simp [Tree.isSigned, comparison, shift, isNumeric, relational, leftSigned, rightSigned]
  | unary op operand line ih =>
    obtain ⟨node, operandUnsigned⟩ := unsigned
    obtain rfl : op = .not := node
    exact ih operandUnsigned
  | _ => cases unsigned.self

end Trees

/-! ### Values -/

section Values

variable {names : NameTable} {scope : Scope} {store : String → Nat} {fills lend : Bool} {source : Expr}
  {size : Nat} {signed : Bool}

theorem StaysWithin.kept (stays : StaysWithin names size signed source exact)
    (unsigned : source.All (UnsignedNode names)) (room : operandWidth names source ≤ size)
    (numeric : signed = true → isNumeric source = true) :
    BitVec.ofInt size exact = BitVec.ofInt size (wrapped false (source.width? names) exact) ∧
      InRange signed size (wrapped false (source.width? names) exact) := by
  rw [StaysWithin] at stays
  obtain ⟨sized, _⟩ | ⟨count, sized, bound, other⟩ := width?_of_unsigned unsigned
  · rw [sized] at stays ⊢
    rcases stays with same | fits
    · cases same
    · exact ⟨rfl, fits⟩
  · obtain rfl : signed = false := by
      rw [other] at numeric
      simpa using numeric
    rw [sized] at stays ⊢
    rcases stays with same | fits
    · obtain rfl : count = size := by simpa using same
      exact ⟨(Verilog.ofInt_wrapped false count exact).symm, Vhdl.inRange_wrapped false count exact⟩
    · have fits : InRange false count exact := fits
      rw [Vhdl.wrapped_eq_iff_inRange.mpr fits]
      exact ⟨rfl, fits.mono (by omega)⟩

theorem combineBits_ofInt (plain : op ∈ [BinaryOp.add, .sub, .and, .or, .xor]) (width : Option Int) (a b : Int) :
    Verilog.combineBits signed (operator op).op.text (BitVec.ofInt size a) (BitVec.ofInt size b) =
      BitVec.ofInt size (op.exact width a b) := by
  simp only [mem_cons, not_mem_nil, or_false] at plain
  rcases plain with rfl | rfl | rfl | rfl | rfl
  · exact (BitVec.ofInt_add a b).symm
  · exact (Verilog.ofInt_sub size a b).symm
  · exact (Verilog.ofInt_land size a b).symm
  · exact (Verilog.ofInt_lor size a b).symm
  · exact (Verilog.ofInt_xor size a b).symm

theorem exact_of_relational {op : BinaryOp} (relational : op.isRelational = true) (width : Option Int)
    (a b : Int) : op.exact width a b = (op.relates a b).toNat := by
  cases op with
  | eq | ne | lt | le | gt | ge => rfl
  | _ => cases relational

theorem inRange_of_staysInside (plain : op ∈ [BinaryOp.add, .sub, .and, .or, .xor])
    (inside : op.staysInside = true) (first : InRange signed size a) (second : InRange signed size b)
    : InRange signed size (op.exact width a b) := by
  obtain ⟨conjunction, disjunction, exclusive⟩ := Vhdl.inRange_bitwise first second
  simp only [mem_cons, not_mem_nil, or_false] at plain
  rcases plain with rfl | rfl | rfl | rfl | rfl
  · cases inside
  · cases inside
  · exact conjunction
  · exact disjunction
  · exact exclusive

theorem exact_of_plain (plain : op ∈ [BinaryOp.add, .sub, .and, .or, .xor]) (width : Option Int) (a b : Int)
    : op.exact width a b = op.exact none a b := by
  simp only [mem_cons, not_mem_nil, or_false] at plain
  rcases plain with rfl | rfl | rfl | rfl | rfl <;> rfl

theorem inRange_bool (enough : 1 ≤ size) (b : Bool) : InRange false size (b.toNat : Int) := by
  apply InRange.mono _ enough
  cases b <;> decide

theorem number_binary_of_unsigned (unsigned : (Expr.binary op lhs rhs line).All (UnsignedNode names))
    (place : Option Int) :
    (Expr.binary op lhs rhs line).number names store place =
      if op.staysInside then
        op.exact (lhs.width? names) (lhs.number names store none) (rhs.number names store none)
      else
        wrapped false ((Expr.binary op lhs rhs line).width? names)
          (op.exact (lhs.width? names) (lhs.number names store none) (rhs.number names store none)) := by
  rw [Expr.number, placeBeside_of_unsigned unsigned.2.1.self, placeBeside_of_unsigned unsigned.2.2.self,
    readsSigned_of_unsigned unsigned]

theorem compareBits_of_contained {lhs rhs : Expr} (relational : op.isRelational = true)
    (first : left = BitVec.ofInt size (lhs.number names store none) ∧ InRange signed size (lhs.number names store none))
    (second : right = BitVec.ofInt size (rhs.number names store none) ∧
      InRange signed size (rhs.number names store none)) :
    Verilog.compareBits signed (operator op).op.text left right =
      op.relates (lhs.number names store none) (rhs.number names store none) := by
  rw [Verilog.compareBits_eq_relates signed left right relational, first.1, second.1,
    numberOf_ofInt first.2, numberOf_ofInt second.2]

theorem bits_of_contained (declares : Declares names scope) (unsigned : source.All (UnsignedNode names))
    (room : operandWidth names source ≤ size) (numeric : signed = true → isNumeric source = true)
    (contained : Contained names store size signed source) :
    (reading names fills lend none source).bits scope store size signed =
        BitVec.ofInt size (source.number names store none) ∧
      InRange signed size (source.number names store none) := by
  induction source using Expr.induction generalizing size signed with
  | name spelling line =>
    obtain ⟨width, _⟩ := width_reading_of_unsigned fills lend declares unsigned
    obtain ⟨vector, typed, sign, _⟩ := unsigned
    have plain : signed = vector.signed := by
      cases signed with
      | false => exact sign.symm
      | true => cases numeric rfl
    have enough : scope.width spelling ≤ size := width.trans_le room
    rw [plain]
    exact bits_of_name typed (declares spelling _ typed) enough none line
  | literal value line =>
    obtain ⟨digits, rfl, isNumber, _⟩ := unsigned
    have fits : InRange signed 32 (Verilog.decimalValue digits) := by
      rw [← value?_of_isDigits isNumber]
      exact contained
    exact bits_of_number isNumber fits room none line
  | binary op lhs rhs line left right =>
    have parts := unsigned
    obtain ⟨node, leftUnsigned, rightUnsigned⟩ := unsigned
    obtain ⟨tree, comparison, shift⟩ := reading_binary_of_unsigned parts none
    rw [tree, number_binary_of_unsigned parts]
    rcases node with relational | plain
    · have bit : signed = false := by
        cases signed with
        | false => rfl
        | true => simp [isNumeric, relational] at numeric
      have enough : 1 ≤ size := by simpa [operandWidth, relational] using room
      obtain ⟨leftWidth, leftSigned⟩ := width_reading_of_unsigned fills lend declares leftUnsigned
      obtain ⟨rightWidth, rightSigned⟩ := width_reading_of_unsigned fills lend declares rightUnsigned
      simp only [Contained, relational, if_true] at contained
      have first := left leftUnsigned (le_max_left _ _) (fun both => (Bool.and_eq_true_iff.mp both).1) contained.1
      have second := right rightUnsigned (le_max_right _ _) (fun both => (Bool.and_eq_true_iff.mp both).2) contained.2
      have compares : Verilog.isComparison (operator op).op.text = true := comparison.trans relational
      rw [Tree.bits_of_comparison compares, Tree.truth_of_comparison compares
        (by rw [leftWidth, rightWidth]) (by rw [leftSigned, rightSigned]),
        compareBits_of_contained relational first second,
        if_pos (by simp [BinaryOp.staysInside, relational]),
        exact_of_relational relational, bit]
      exact ⟨(BitVec.ofInt_natCast ..).symm, inRange_bool enough _⟩
    · have notRelational := (binaryWidth_of_plain plain none none).2
      simp only [Contained, notRelational, Bool.false_eq_true, if_false] at contained
      obtain ⟨⟨leftContained, rightContained⟩, stays⟩ := contained
      have split := room
      rw [operandWidth, notRelational, if_neg (by decide)] at split
      have both := numeric
      simp only [isNumeric, notRelational, Bool.not_false, Bool.true_and, Bool.and_eq_true] at both
      obtain ⟨leftBits, leftFits⟩ := left leftUnsigned (by omega) (fun sign => (both sign).1) leftContained
      obtain ⟨rightBits, rightFits⟩ := right rightUnsigned (by omega) (fun sign => (both sign).2)
        rightContained
      rw [Tree.bits, comparison, shift, notRelational, if_neg (by decide), if_neg (by decide), leftBits,
        rightBits, combineBits_ofInt plain (lhs.width? names)]
      cases inside : op.staysInside with
      | true => exact ⟨rfl, inRange_of_staysInside plain inside leftFits rightFits⟩
      | false =>
        have kept := (stays inside).kept parts room numeric
        rw [exact_of_plain plain (lhs.width? names)]
        exact kept
  | unary op operand line ih =>
    have parts := unsigned
    obtain ⟨node, operandUnsigned⟩ := unsigned
    obtain rfl : op = .not := node
    obtain ⟨inside, stays⟩ := contained
    obtain ⟨bits, _⟩ := ih operandUnsigned room numeric inside
    have kept := stays.kept parts room numeric
    rw [reading, unaryTree, Tree.bits, bits, Expr.number, readsSigned_of_unsigned operandUnsigned]
    exact ⟨(Verilog.ofInt_lnot size _).symm.trans kept.1, kept.2⟩
  | _ => cases unsigned.self

theorem truth_of_contained (declares : Declares names scope)
    (unsigned : (Expr.binary op lhs rhs line).All (UnsignedNode names)) (relational : op.isRelational = true)
    (contained : Contained names store 1 false (.binary op lhs rhs line)) :
    (reading names fills lend none (.binary op lhs rhs line)).truth scope store = true ↔
      (Expr.binary op lhs rhs line).number names store none = 1 := by
  have oneBit : operandWidth names (.binary op lhs rhs line) ≤ 1 := by simp [operandWidth, relational]
  have valued : (reading names fills lend none (.binary op lhs rhs line)).bits scope store 1 false = _ ∧ _ :=
    bits_of_contained declares unsigned oneBit (by simp) contained
  obtain ⟨bits, fits⟩ := valued
  obtain ⟨tree, comparison, _⟩ := reading_binary_of_unsigned unsigned none
  rw [tree] at bits ⊢
  rw [Tree.bits_of_comparison (comparison.trans relational)] at bits
  have number := numberOf_ofInt fits
  rw [← bits] at number
  rw [← number]
  cases Tree.truth scope store _ with
  | false => decide
  | true => decide

end Values

/-! ### Texts -/

theorem signsMeet_of_unsigned (unsigned : source.All (UnsignedNode names)) : signsMeet source = false := by
  induction source using Expr.induction with
  | name spelling line => rfl
  | literal value line => rfl
  | binary op lhs rhs line left right =>
    rw [signsMeet, left unsigned.2.1, right unsigned.2.2]
    rfl
  | unary op operand line ih =>
    obtain rfl : op = .not := unsigned.1
    exact ih unsigned.2
  | _ => cases unsigned.self

theorem expr_of_unsigned (lowered : source.IsLowered) (unsigned : source.All (UnsignedNode names)) (profile : Profile)
    (lend : Bool) (width : Option Int) :
    ∃ written, expr names profile lend width source = .ok written ∧ Verilog.Apart written.text.toList := by
  have accepted : source.All (RefusedNode names profile (fun _ => True) fun _ => False) := by
    refine unsigned.mono fun node allowed => ⟨trivial, ?_⟩
    cases node <;> trivial
  have sound : source.IsSound := by
    refine (lowered.and unsigned).mono fun node holds => ⟨holds.1, ?_⟩
    cases node with
    | literal value line =>
      obtain ⟨digits, rfl, number, _⟩ := holds.2
      simp only [isDigits, Bool.and_eq_true, Bool.not_eq_true', isEmpty_eq_false_iff, all_eq_true] at number
      exact Text.Numeral.decimal?_isSome number.1 fun d member => Text.Numeral.isDigit_of_ascii (number.2 d member)
    | _ => trivial
  cases ok : expr names profile lend width source with
  | error refusal => cases expr_failsOnly trivial accepted lend trivial refusal ok
  | ok written => exact ⟨written, rfl, (apart_of_writes (writes_of_expr ok) sound).mpr (signsMeet_of_unsigned unsigned)⟩

theorem mem_nodes_reading (unsigned : source.All (UnsignedNode names)) (fills lend : Bool)
    (member : node ∈ source.nodes) (width : Option Int) :
    reading names fills lend none node ∈ (reading names fills lend width source).nodes := by
  induction source using Expr.induction generalizing width with
  | name spelling line =>
    rw [mem_singleton.mp member]
    simp [reading, Tree.nodes]
  | literal value line =>
    obtain ⟨digits, rfl, number, _⟩ := unsigned
    rw [mem_singleton.mp member]
    simp [reading, literalTree_of_isDigits number, Tree.nodes]
  | binary op lhs rhs line left right =>
    rw [(reading_binary_of_unsigned unsigned width).1, Tree.nodes]
    rcases mem_cons.mp member with rfl | inside
    · rw [(reading_binary_of_unsigned unsigned none).1]
      exact mem_cons_self
    · apply mem_cons_of_mem
      rcases mem_append.mp inside with first | second
      · exact mem_append_left _ (left unsigned.2.1 first none)
      · exact mem_append_right _ (right unsigned.2.2 second none)
  | unary op operand line ih =>
    obtain ⟨operation, operandUnsigned⟩ := unsigned
    obtain rfl : op = .not := operation
    rw [reading, unaryTree, Tree.nodes]
    rcases mem_cons.mp member with rfl | inside
    · rw [reading, unaryTree]
      exact mem_cons_self
    · exact mem_cons_of_mem _ (ih operandUnsigned inside none)
  | _ => cases unsigned.self

theorem isWritable_of_unsigned (lowered : source.IsLowered) (unsigned : source.All (UnsignedNode names)) (lend : Bool)
    (width : Option Int) : IsWritable names lend width source := by
  have noAggregates : aggregateWidths names lend width source = [] := by
    induction source using Expr.induction generalizing width with
    | name spelling line => rfl
    | literal value line => rfl
    | binary op lhs rhs line left right =>
      rw [aggregateWidths, left lowered.2.1 unsigned.2.1, right lowered.2.2 unsigned.2.2]
      rfl
    | unary op operand line ih => exact ih lowered.2 unsigned.2 none
    | _ => cases unsigned.self
  have literals : source.HasAsciiLiterals := by
    apply unsigned.mono
    intro node allowed
    cases node with
    | literal value line =>
      obtain ⟨digits, rfl, number, _⟩ := allowed
      change Verilog.Expr.isNumeral digits = true
      rw [Verilog.Expr.isNumeral]
      split
      · rename_i rest spelled
        simp [spelled, isDigits] at number
      · exact number
    | _ => trivial
  refine ⟨lowered, literals, ?_⟩
  simp [PositiveAggregates, noAggregates]

/-! ### Comparisons -/

/-- The text of an expression is a tree with all its comparisons in it, and each of them whose operands are
contained is as true as in the source. -/
theorem comparison_true_iff_of_contained (dialect : Dialect) {names : NameTable} {scope : Scope}
    {source : Expr} (lowered : source.IsLowered) (unsigned : source.All (UnsignedNode names))
    (declares : Declares names scope) (lend : Bool) (width : Option Int) :
    ∃ written tree, expr names dialect.profile lend width source = .ok written ∧
      Verilog.read written.text.toList = some tree ∧
      ∀ (op : Vhdl.BinaryOp) (lhs rhs : Expr) (line : Nat),
        .binary op lhs rhs line ∈ source.nodes → op.isRelational = true →
        ∃ comparison ∈ tree.nodes,
          comparison = reading names dialect.profile.fillAggregates lend none (.binary op lhs rhs line) ∧
          ∀ store : String → Nat, Contained names store 1 false (.binary op lhs rhs line) →
            (comparison.truth scope store = true ↔ (Expr.binary op lhs rhs line).number names store none = 1) := by
  obtain ⟨written, ok, apart⟩ := expr_of_unsigned lowered unsigned dialect.profile lend width
  have reads := (isWritable_of_unsigned lowered unsigned lend width).reads ok
  refine ⟨written, _, ok, Verilog.Expr.read_text written reads.readable apart, ?_⟩
  rw [reads.tree_eq]
  intro op lhs rhs line member relational
  refine ⟨_, mem_nodes_reading unsigned _ lend member width, rfl, ?_⟩
  intro store contained
  exact truth_of_contained declares (unsigned.of_mem_nodes member) relational contained

def samplePairs : NameTable :=
  ⟨["a", "b", "c"].map fun name => (name, ⟨.signal, some (.vector ⟨1, 0, false, by decide⟩)⟩)⟩

def sampleStore (name : String) : Nat := if name = "a" then 3 else if name = "b" then 1 else 0

def sampleSum (limit : Expr) : Expr := .binary .gt (.binary .add (.name "a" 1) (.name "b" 1) 1) limit 1

theorem sampleSum_unsigned (unsigned : limit.All (UnsignedNode samplePairs)) :
    (sampleSum limit).All (UnsignedNode samplePairs) := by
  have vector : ∀ name ∈ ["a", "b"], UnsignedNode samplePairs (.name name 1) := by
    intro name member
    simp only [mem_cons, not_mem_nil, or_false] at member
    rcases member with rfl | rfl <;> exact ⟨_, rfl, rfl, by decide⟩
  exact ⟨.inl rfl, ⟨.inr (by decide), vector "a" (by decide), vector "b" (by decide)⟩, unsigned⟩

theorem comparison_true_iff_sampleSum :
    ∃ written tree,
      expr samplePairs Dialect.strict.profile true none (sampleSum (.name "c" 1)) = .ok written ∧
      Verilog.read written.text.toList = some tree ∧
      ∃ comparison ∈ tree.nodes, (comparison.truth (scopeOf samplePairs) sampleStore = true ↔
        (sampleSum (.name "c" 1)).number samplePairs sampleStore none = 1) := by
  have contained : Contained samplePairs sampleStore 1 false (sampleSum (.name "c" 1)) :=
    ⟨⟨⟨trivial, trivial⟩, fun _ => .inl (by decide)⟩, trivial⟩
  have lowered : (sampleSum (.name "c" 1)).IsLowered := ⟨trivial, ⟨trivial, rfl, rfl⟩, rfl⟩
  obtain ⟨written, tree, ok, read, comparisons⟩ := comparison_true_iff_of_contained .strict lowered
    (sampleSum_unsigned ⟨_, rfl, rfl, by decide⟩) (scopeOf_declares samplePairs) true none
  obtain ⟨comparison, member, _, same⟩ := comparisons .gt _ _ 1 (Expr.mem_nodes_self _) rfl
  exact ⟨written, tree, ok, read, comparison, member, same sampleStore contained⟩

def sampleLarge : Expr := .binary .gt (.literal (.decimal "4294967295") 1) (.literal (.decimal "1") 1) 1

/-- A carry that the source loses is kept where the sum is compared with a number, and a number from `2 ^ 31` on is
negative where it is compared with numbers only. -/
theorem comparison_keeps_carry :
    (let source := sampleSum (.literal (.decimal "3") 1)
     source.IsLowered ∧ source.All (UnsignedNode samplePairs) ∧ Declares samplePairs (scopeOf samplePairs) ∧
      ∃ written tree, expr samplePairs Dialect.strict.profile true none source = .ok written ∧
        written.text = "(a + b) > 3" ∧ Verilog.read written.text.toList = some tree ∧
        tree.truth (scopeOf samplePairs) sampleStore = true ∧ source.number samplePairs sampleStore none = 0) ∧
    sampleLarge.IsLowered ∧ sampleLarge.All (UnsignedNode samplePairs) ∧
    ∃ written tree, expr samplePairs Dialect.strict.profile true none sampleLarge = .ok written ∧
      written.text = "4294967295 > 1" ∧ Verilog.read written.text.toList = some tree ∧
      tree.truth (scopeOf samplePairs) sampleStore = false ∧ sampleLarge.number samplePairs sampleStore none = 1 := by
  have read {source : Expr} {written : Verilog.Expr} (lowered : source.IsLowered)
      (unsigned : source.All (UnsignedNode samplePairs))
      (ok : expr samplePairs Dialect.strict.profile true none source = .ok written)
      (apart : Verilog.Apart written.text.toList) : Verilog.read written.text.toList = some written.tree :=
    written.read_text ((isWritable_of_unsigned lowered unsigned true none).reads ok).readable apart
  constructor
  · have unsigned : (sampleSum (.literal (.decimal "3") 1)).All (UnsignedNode samplePairs) :=
      sampleSum_unsigned ⟨"3", rfl, by decide, by decide⟩
    have lowered : (sampleSum (.literal (.decimal "3") 1)).IsLowered := ⟨trivial, ⟨trivial, rfl, rfl⟩, trivial⟩
    exact ⟨lowered, unsigned, scopeOf_declares samplePairs, _, _, rfl, by decide,
      read lowered unsigned rfl (by decide), by decide, by decide⟩
  · have unsigned : sampleLarge.All (UnsignedNode samplePairs) :=
      ⟨.inl rfl, ⟨_, rfl, by decide, by decide⟩, _, rfl, by decide, by decide⟩
    have lowered : sampleLarge.IsLowered := ⟨trivial, trivial, trivial⟩
    exact ⟨lowered, unsigned, _, _, rfl, by decide, read lowered unsigned rfl (by decide), by decide, by decide⟩

end RtlBridge.Emission

import Mathlib.Data.Bool.AllAny
import RtlBridge.Proofs.Emission.Written
import RtlBridge.Proofs.Verilog.ReadBack

/-! Written expressions keep the tree of the source. `reading` says which tree a reader of the output has to
find for a source expression; the texts that are written are read as that tree. -/

namespace RtlBridge

open List

namespace Vhdl

/-- Literals that have digits, all of them in ASCII. A character literal is always one bit. -/
def Literal.HasDigits : Literal → Prop
  | .bit _ => True
  | .hex digits => digits.toList ≠ [] ∧ ∀ d ∈ digits.toList, d ∈ "0123456789abcdefABCDEF".toList
  | .binary digits => digits.toList ≠ [] ∧ ∀ d ∈ digits.toList, d ∈ "01xz".toList
  | .decimal digits => Verilog.Expr.isNumeral digits = true

def Expr.LiteralNode : Expr → Prop
  | .literal value _ => value.HasDigits
  | _ => True

def Expr.HasAsciiLiterals : Expr → Prop := All LiteralNode

/-- Expressions whose names and literals can be read in the output. -/
def Expr.IsSpelled : Expr → Prop := All fun node => node.LoweredNode ∧ node.LiteralNode

end Vhdl

namespace Emission

open Verilog (Tree Expr Lexeme isWord)
open Vhdl (NameTable)

/-! ### The tree of a source expression -/

def literalTree : Vhdl.Literal → Tree
  | .bit value => .based "1" 'b' (bitDigit value).toString
  | .hex digits => .based (toString (4 * digits.length)) 'h' (String.ofList (digits.toList.map Char.toUpper))
  | .binary digits => .based (toString digits.length) 'b' digits
  | .decimal digits =>
    match digits.toList with
    | '-' :: rest => .unary "-" (.number (String.ofList rest))
    | _ => .number digits

def binaryTree : Vhdl.BinaryOp → Tree → Tree → Tree
  | .and => .binary "&"
  | .or => .binary "|"
  | .xor => .binary "^"
  | .nand => fun lhs rhs => .unary "~" (.binary "&" lhs rhs)
  | .nor => fun lhs rhs => .unary "~" (.binary "|" lhs rhs)
  | .xnor => fun lhs rhs => .unary "~" (.binary "^" lhs rhs)
  | .eq => .binary "=="
  | .ne => .binary "!="
  | .lt => .binary "<"
  | .le => .binary "<="
  | .gt => .binary ">"
  | .ge => .binary ">="
  | .sll => .binary "<<"
  | .srl => .binary ">>"
  | .sla => .binary "<<<"
  | .sra => .binary ">>>"
  | .add => .binary "+"
  | .sub => .binary "-"
  | .mul => .binary "*"
  | .div => .binary "/"
  | .mod => .binary "%"
  | .rem => .binary "%"

def unaryTree : Vhdl.UnaryOp → Tree → Tree
  | .not => .unary "~"
  | .minus => .unary "-"
  | .plus => id

def shiftTree (names : NameTable) (value : Vhdl.Expr) : Vhdl.Builtin.Shift → Tree → Tree → Tree
  | .left => .binary "<<"
  | .right => .binary (if value.isSigned names then ">>>" else ">>")

/-- Stands for what cannot be written. -/
def noTree : Tree := .concat []

/-- The tree of an aggregate: a bit is an unsized fill where the dialect has one, and else a literal of
that many bits; anything else is replicated. -/
def aggregateTree (fills : Bool) (fill : Vhdl.Expr) (inner : Tree) (width : Option Int) : Tree :=
  match fill, width with
  | .literal (.bit bit) _, some count =>
    if fills then .fill (bitDigit bit)
    else .based (toString count) 'b' (String.ofList (replicate count.toNat (bitDigit bit)))
  | .literal (.bit bit) _, none => if fills then .fill (bitDigit bit) else noTree
  | _, some count => .replicate (.number (toString count)) [inner]
  | _, none => noTree

/-- The tree of an expression at a place of the given width. Conversions are their first argument and plus
signs are gone. -/
def reading (names : NameTable) (fills lend : Bool) (width : Option Int) : Vhdl.Expr → Tree
  | .name spelling _ => .name spelling
  | .literal value _ => literalTree value
  | .binary op lhs rhs _ =>
    binaryTree op (reading names fills lend (lentWidth names lend lhs rhs) lhs)
      (reading names fills lend (lentWidth names lend rhs lhs) rhs)
  | .unary op operand _ => unaryTree op (reading names fills lend none operand)
  | .call function arguments _ =>
    match Vhdl.Builtin.shift? function, arguments with
    | some shift, value :: amount :: _ =>
      shiftTree names value shift (reading names fills false none value) (reading names fills false none amount)
    | _, first :: _ => reading names fills false width first
    | _, [] => noTree
  | .aggregate fill _ _ => aggregateTree fills fill (reading names fills false none fill) width
  | .concat parts _ => .concat (readings parts)
  | .index base subscript _ => .index (reading names fills false none base) (reading names fills false none subscript)
  | .slice base left right _ =>
    .slice (reading names fills false none base) (reading names fills false none left)
      (reading names fills false none right)
  | .tick _ _ _ => noTree
where
  readings : List Vhdl.Expr → List Tree
    | [] => []
    | first :: rest => reading names fills false none first :: readings rest

def aggregateWidths (names : NameTable) (lend : Bool) (width : Option Int) : Vhdl.Expr → List (Option Int)
  | .binary _ lhs rhs _ =>
    aggregateWidths names lend (lentWidth names lend lhs rhs) lhs ++
      aggregateWidths names lend (lentWidth names lend rhs lhs) rhs
  | .unary _ operand _ => aggregateWidths names lend none operand
  | .call function arguments _ =>
    match Vhdl.Builtin.shift? function, arguments with
    | some _, value :: amount :: _ => aggregateWidths names false none value ++ aggregateWidths names false none amount
    | _, first :: _ => aggregateWidths names false width first
    | _, [] => []
  | .aggregate fill _ _ => width :: aggregateWidths names false none fill
  | .concat parts _ => listWidths parts
  | .index _ subscript _ => aggregateWidths names false none subscript
  | .slice _ left right _ => aggregateWidths names false none left ++ aggregateWidths names false none right
  | _ => []
where
  listWidths : List Vhdl.Expr → List (Option Int)
    | [] => []
    | first :: rest => aggregateWidths names false none first ++ listWidths rest

def PositiveAggregates (names : NameTable) (lend : Bool) (width : Option Int) (source : Vhdl.Expr) : Prop :=
  ∀ count, some count ∈ aggregateWidths names lend width source → 0 < count

/-! ### The trees of written expressions -/

section Trees

variable {names : NameTable} {profile : Profile}

theorem tree_grouped (source : Vhdl.Expr) (written : Expr) : (grouped source written).tree = written.tree := by
  rw [grouped]
  split <;> rfl

theorem tree_signed (op : Vhdl.UnaryOp) (source : Vhdl.Expr) (written : Expr) :
    (signed op source written).tree = unaryTree op written.tree := by
  unfold signed
  split <;> cases op <;> rfl

theorem filled_eq_ok (ok : filled profile bit width line = .ok written) :
    (profile.fillAggregates = true ∧ written = .fill (bitDigit bit)) ∨
      profile.fillAggregates = false ∧ ∃ count, width = some count ∧
        written = .sized count .binary (String.ofList (replicate count.toNat (bitDigit bit))) := by
  unfold filled at ok
  split at ok
  · rename_i fills
    cases ok
    exact .inl ⟨fills, rfl⟩
  · rename_i notFills
    cases width with
    | none => cases ok
    | some count =>
      obtain ⟨digits, ran, rest⟩ := bind_eq_ok.mp ok
      cases rest
      refine .inr ⟨Bool.eq_false_iff.mpr notFills, count, rfl, ?_⟩
      rw [← Text.toList_of_run (mapError_eq_ok.mp ran), String.ofList_toList]

theorem tree_filled (ok : filled profile bit width line = .ok written) (inner : Tree) :
    written.tree = aggregateTree profile.fillAggregates (.literal (.bit bit) place) inner width := by
  obtain ⟨fills, rfl⟩ | ⟨notFills, count, rfl, rfl⟩ := filled_eq_ok ok
  · rw [fills]
    cases width <;> rfl
  · rw [notFills]
    rfl

theorem tree_shift (shift : Vhdl.Builtin.Shift) (value amount : Vhdl.Expr) (left right : Expr) :
    (Expr.binary (shiftOperator names shift value) (grouped value left) (grouped amount right)).tree =
      shiftTree names value shift left.tree right.tree := by
  rw [Expr.tree, tree_grouped, tree_grouped]
  cases shift with
  | left => rfl
  | right =>
    rw [shiftOperator, shiftTree]
    cases value.isSigned names <;> rfl

theorem aggregateTree_of_ne_bit (notBit : ∀ bit place, fill ≠ .literal (.bit bit) place) (fills : Bool) (inner : Tree)
    (count : Int) : aggregateTree fills fill inner (some count) = .replicate (.number (toString count)) [inner] := by
  unfold aggregateTree
  split
  · exact absurd rfl (notBit _ _)
  · contradiction
  · rename_i same
    cases same
    rfl
  · contradiction

theorem trees_eq_readings
    (each : Forall₂ (fun part result => result.tree = reading names fills false none part) parts written) :
    Expr.tree.trees written = reading.readings names fills parts := by
  induction each with
  | nil => rfl
  | cons first _ ih => rw [Expr.tree.trees, reading.readings, first, ih]

theorem reading_shift (found : Vhdl.Builtin.shift? function = some shift) :
    reading names fills lend width (.call function (value :: amount :: rest) line) =
      shiftTree names value shift (reading names fills false none value) (reading names fills false none amount) := by
  rw [reading.eq_def]
  simp only [found]

theorem reading_conversion (notShift : Vhdl.Builtin.shift? function = none) :
    reading names fills lend width (.call function (first :: rest) line) = reading names fills false width first := by
  rw [reading.eq_def]
  simp only [notShift]

theorem tree_of_writes (writes : Writes names profile lend width source written) :
    written.tree = reading names profile.fillAggregates lend width source := by
  induction writes with
  | name => rfl
  | literal =>
    rename_i value _
    cases value <;> rfl
  | binary _ _ left right =>
    rename_i op lhs rhs _ first second _ _
    rw [reading, ← left, ← right, ← tree_grouped lhs first, ← tree_grouped rhs second]
    cases op <;> rfl
  | unary _ inner => rw [reading, tree_signed, tree_grouped, inner]
  | shift found _ _ left right => rw [reading_shift found, tree_shift, left, right]
  | conversion notShift _ _ inner => rw [reading_conversion notShift, inner]
  | fill ok => exact tree_filled ok _
  | replicate notBit _ inner => rw [reading, aggregateTree_of_ne_bit notBit, Expr.tree, inner]
  | concat length _ each => rw [Expr.tree, reading, trees_eq_readings (forall₂_iff_zip.mpr ⟨length, each⟩)]
  | index _ _ first second => rw [Expr.tree, first, second, reading]
  | slice _ _ _ first second third => rw [Expr.tree, first, second, third, reading]

theorem tree_of_expr (ok : expr names profile lend width source = .ok written) :
    written.tree = reading names profile.fillAggregates lend width source := tree_of_writes (writes_of_expr ok)

end Trees

/-! ### Written expressions are readable -/

/-- What is written for a source can be read back as the tree, and stands as an operand unless the source
is an operation. -/
structure ReadsAs (source : Vhdl.Expr) (written : Expr) (tree : Tree) : Prop where
  readable : written.Readable
  tree_eq : written.tree = tree
  isTerm : isOperation source = false → written.isTerm = true

theorem readable_grouped (reads : written.Readable ∧ (isOperation source = false → written.isTerm = true)) :
    (grouped source written).Readable ∧ (grouped source written).isTerm = true := by
  rw [grouped]
  cases operation : isOperation source with
  | true => exact ⟨reads.1, rfl⟩
  | false => exact ⟨reads.1, reads.2 operation⟩

theorem isFillBit_bitDigit (value : String) : Lexeme.isFillBit (bitDigit value) = true := by
  rw [bitDigit]
  split
  · split
    · rename_i c bit
      simp only [Bool.or_eq_true, decide_eq_true_eq] at bit
      rcases bit with ((rfl | rfl) | rfl) | rfl <;> decide
    · decide
  · decide

theorem isBasedDigit_of_isFillBit (fill : Lexeme.isFillBit c = true) : Lexeme.isBasedDigit c = true := by
  simp only [Lexeme.isFillBit, contains_eq_mem, mem_cons, not_mem_nil, or_false, decide_eq_true_eq] at fill
  rcases fill with rfl | rfl | rfl | rfl | rfl | rfl <;> decide

private theorem length_pos {text : String} (present : text.toList ≠ []) : 0 < text.length := by
  rw [← String.length_toList]
  exact length_pos_iff.mpr present

theorem readable_literal (digits : value.HasDigits) : (literal value).Readable := by
  cases value with
  | bit text =>
    refine ⟨by decide, by simp [Char.toString], ?_⟩
    intro d member
    rw [show d = bitDigit text by simpa [Char.toString] using member]
    exact isBasedDigit_of_isFillBit (isFillBit_bitDigit text)
  | hex text =>
    obtain ⟨present, inside⟩ := digits
    have positive := length_pos present
    have upper : ∀ d ∈ "0123456789abcdefABCDEF".toList, Lexeme.isBasedDigit d.toUpper = true :=
      all_eq_true.mp rfl
    refine ⟨by omega, by simpa using present, ?_⟩
    simp only [String.toList_ofList, mem_map]
    rintro d ⟨source, member, rfl⟩
    exact upper source (inside source member)
  | binary text =>
    obtain ⟨present, inside⟩ := digits
    have positive := length_pos present
    have based : ∀ d ∈ "01xz".toList, Lexeme.isBasedDigit d = true := all_eq_true.mp rfl
    exact ⟨by omega, present, fun d member => based d (inside d member)⟩
  | decimal text => exact digits

theorem isWord_of_isIdentifier (identifier : Vhdl.isIdentifier text = true) : isWord text = true := by
  rw [Vhdl.isIdentifier] at identifier
  rw [isWord]
  cases spelled : text.toList with
  | nil => simp [spelled] at identifier
  | cons c rest =>
    simp only [spelled, Bool.and_eq_true, all_eq_true] at identifier ⊢
    refine ⟨by simp [Lexeme.isWordStart, identifier.1], fun d member => ?_⟩
    have inside := identifier.2 d member
    simp only [Piece.isWordChar, Bool.or_eq_true] at inside
    rcases inside with alphanum | underscore
    · simp [Lexeme.isWordChar, alphanum]
    · simp_all [Lexeme.isWordChar]

theorem ne_minus_of_isIdentifier (identifier : Vhdl.isIdentifier spelling = true) : ∀ c ∈ spelling.toList, c ≠ '-' := by
  intro c member same
  rw [Vhdl.isIdentifier] at identifier
  cases spelled : spelling.toList with
  | nil => simp [spelled] at member
  | cons first rest =>
    simp only [spelled, Bool.and_eq_true, all_eq_true] at identifier
    rw [spelled, same] at member
    rcases mem_cons.mp member with head | tail
    · rw [← head] at identifier
      exact absurd identifier.1 (by decide)
    · exact absurd (identifier.2 '-' tail) (by decide)

theorem readable_signed (op : Vhdl.UnaryOp) (source : Vhdl.Expr) (readable : written.Readable)
    (term : written.isTerm = true) : (signed op source written).Readable ∧ (signed op source written).isTerm = true := by
  unfold signed
  split
  · cases op with
    | plus => exact ⟨readable, rfl⟩
    | _ => exact ⟨⟨readable, rfl⟩, rfl⟩
  · cases op with
    | plus => exact ⟨readable, term⟩
    | _ => exact ⟨⟨readable, term⟩, rfl⟩

theorem readable_filled (ok : filled profile bit width line = .ok written)
    (positive : ∀ count, width = some count → 0 < count) : written.Readable ∧ written.isTerm = true := by
  obtain ⟨_, rfl⟩ | ⟨_, count, isCount, rfl⟩ := filled_eq_ok ok
  · exact ⟨isFillBit_bitDigit bit, rfl⟩
  · have atLeastOne := positive count isCount
    refine ⟨⟨atLeastOne, ?_, fun d member => ?_⟩, rfl⟩
    · simp
      omega
    · rw [String.toList_ofList] at member
      rw [eq_of_mem_replicate member]
      exact isBasedDigit_of_isFillBit (isFillBit_bitDigit bit)

theorem mem_listWidths (member : part ∈ parts) (found : width ∈ aggregateWidths names false none part) :
    width ∈ aggregateWidths.listWidths names parts := by
  rw [show aggregateWidths.listWidths names parts = _ from eq_flatMap rfl (fun _ _ => rfl) parts]
  exact mem_flatMap.mpr ⟨part, member, found⟩

theorem readable_of_writes (writes : Writes names profile lend width source written) (spelled : source.IsSpelled)
    (positive : PositiveAggregates names lend width source) :
    written.Readable ∧ (isOperation source = false → written.isTerm = true) := by
  induction writes with
  | name => exact ⟨isWord_of_isIdentifier spelled.1, fun _ => rfl⟩
  | literal =>
    rename_i value _
    exact ⟨readable_literal spelled.2, fun _ => by cases value <;> rfl⟩
  | binary _ _ left right =>
    obtain ⟨_, inLeft, inRight⟩ := spelled
    have first := readable_grouped (left inLeft fun count member => positive count (mem_append_left _ member))
    have second := readable_grouped (right inRight fun count member => positive count (mem_append_right _ member))
    refine ⟨?_, by simp [isOperation]⟩
    split
    · exact ⟨⟨first, second⟩, rfl⟩
    · exact ⟨first, second⟩
  | unary _ inner =>
    obtain ⟨readable, term⟩ := readable_grouped (inner spelled.2 positive)
    exact (readable_signed _ _ readable term).imp_right fun term _ => term
  | shift found _ _ left right =>
    have inside := (Vhdl.Expr.areAll_iff _).mp spelled.2
    simp only [PositiveAggregates, aggregateWidths.eq_def _ _ _ (.call _ _ _), found, mem_append] at positive
    have first := left (inside _ (by simp)) fun count member => positive count (.inl member)
    have second := right (inside _ (by simp)) fun count member => positive count (.inr member)
    exact ⟨⟨readable_grouped first, readable_grouped second⟩, by simp [isOperation, found]⟩
  | conversion notShift _ _ inner =>
    have inside := (Vhdl.Expr.areAll_iff _).mp spelled.2
    simp only [PositiveAggregates, aggregateWidths.eq_def _ _ _ (.call _ _ _), notShift] at positive
    obtain ⟨readable, term⟩ := inner (inside _ (by simp)) positive
    exact ⟨readable, fun plain => term (by simpa [isOperation, notShift] using plain)⟩
  | fill ok =>
    refine (readable_filled ok ?_).imp_right fun term _ => term
    rintro count rfl
    exact positive count (by simp [aggregateWidths])
  | replicate notBit _ inner =>
    have counted := positive _ (mem_cons_self ..)
    exact ⟨⟨counted, (inner spelled.2 fun count found => positive count (mem_cons_of_mem _ found)).1⟩, fun _ => rfl⟩
  | concat length _ each =>
    obtain ⟨⟨present, _⟩, inside⟩ := spelled
    have inside := (Vhdl.Expr.areAll_iff _).mp inside
    refine ⟨⟨?_, (Expr.areReadable_iff _).mpr fun result member => ?_⟩, fun _ => rfl⟩
    · rintro rfl
      exact present (length_eq_zero_iff.mp length)
    · obtain ⟨part, isPart, readable⟩ := source_of_mem (forall₂_iff_zip.mpr ⟨length, each⟩) member
      exact (readable (inside part isPart) fun count found => positive count (mem_listWidths isPart found)).1
  | index first _ inBase inSubscript =>
    obtain ⟨⟨named, _⟩, baseSpelled, subscriptSpelled⟩ := spelled
    cases first with
    | name =>
      have base := isWord_of_isIdentifier baseSpelled.1
      exact ⟨⟨⟨base, rfl⟩, (inSubscript subscriptSpelled positive).1⟩, fun _ => rfl⟩
    | _ => cases named
  | slice first _ _ inBase inLeft inRight =>
    obtain ⟨⟨named, _⟩, baseSpelled, leftSpelled, rightSpelled⟩ := spelled
    have left := inLeft leftSpelled fun count found => positive count (mem_append_left _ found)
    have right := inRight rightSpelled fun count found => positive count (mem_append_right _ found)
    cases first with
    | name => exact ⟨⟨⟨isWord_of_isIdentifier baseSpelled.1, rfl⟩, left.1, right.1⟩, fun _ => rfl⟩
    | _ => cases named

/-- Lowered expressions whose literals have ASCII digits and whose aggregates have bits. -/
def IsWritable (names : NameTable) (lend : Bool) (width : Option Int) (source : Vhdl.Expr) : Prop :=
  source.IsLowered ∧ source.HasAsciiLiterals ∧ PositiveAggregates names lend width source

theorem IsWritable.reads (writable : IsWritable names lend width source)
    (ok : expr names profile lend width source = .ok written) :
    ReadsAs source written (reading names profile.fillAggregates lend width source) := by
  obtain ⟨readable, isTerm⟩ := readable_of_writes (writes_of_expr ok) (writable.1.and writable.2.1) writable.2.2
  exact ⟨readable, tree_of_expr ok, isTerm⟩

/-- The tree of the value of a conditional assignment: the choices in source order, then the default. -/
def choiceReading (names : NameTable) (fills : Bool) (width : Option Int) (last : Vhdl.Expr) :
    List (Vhdl.Expr × Vhdl.Expr) → Tree
  | [] => reading names fills true width last
  | (value, condition) :: rest =>
    .choose (reading names fills true none condition) (reading names fills true width value)
      (choiceReading names fills width last rest)

theorem chosen_reads (context : Context) (lastWritable : IsWritable context.names true width last)
    (writable : ∀ choice ∈ choices, IsWritable context.names true width choice.1 ∧
      IsWritable context.names true none choice.2) (ok : chosen context width last choices = .ok written) :
    written.Readable ∧
      written.tree = choiceReading context.names context.profile.fillAggregates width last choices := by
  induction choices generalizing written with
  | nil =>
    have reads := lastWritable.reads ok
    exact ⟨reads.readable, reads.tree_eq⟩
  | cons choice rest ih =>
    obtain ⟨value, condition⟩ := choice
    rw [chosen] at ok
    obtain ⟨test, testOk, ok⟩ := bind_eq_ok.mp ok
    obtain ⟨yes, yesOk, ok⟩ := bind_eq_ok.mp ok
    obtain ⟨no, noOk, ok⟩ := bind_eq_ok.mp ok
    cases ok
    obtain ⟨valueWritable, conditionWritable⟩ := writable _ (mem_cons_self ..)
    have testReads := conditionWritable.reads testOk
    have yesReads := valueWritable.reads yesOk
    obtain ⟨noReadable, noTree⟩ := ih (fun c member => writable c (mem_cons_of_mem _ member)) noOk
    refine ⟨⟨⟨testReads.readable, rfl⟩, yesReads.readable, noReadable⟩, ?_⟩
    rw [choiceReading, ← testReads.tree_eq, ← yesReads.tree_eq, ← noTree]
    rfl

/-- A text without two minus signs in a row is read as the tree of its source: for single expressions, and
for the chain of choices of a conditional assignment. -/
theorem read_written_eq_reading (dialect : Dialect) :
    (∀ (names : NameTable) (source : Vhdl.Expr) (lend : Bool) (width : Option Int) (written : Verilog.Expr),
      IsWritable names lend width source →
      expr names dialect.profile lend width source = .ok written →
      Verilog.Apart written.text.toList →
      Verilog.read written.text.toList = some (reading names dialect.profile.fillAggregates lend width source)) ∧
    (∀ (resolved : Vhdl.Resolved) (assignment : Vhdl.ConditionalAssign) (place value : Verilog.Expr)
      (remarks : List Verilog.Remark),
      IsWritable resolved.names true (assignment.target.width? resolved.names) assignment.default →
      (∀ choice ∈ assignment.choices,
        IsWritable resolved.names true (assignment.target.width? resolved.names) choice.1 ∧
          IsWritable resolved.names true none choice.2) →
      continuous (Context.of dialect.profile resolved) assignment.target assignment.choices
        assignment.default = .ok (.assign place value remarks) →
      Verilog.Apart value.text.toList →
      Verilog.read value.text.toList =
        some (choiceReading resolved.names dialect.profile.fillAggregates
          (assignment.target.width? resolved.names) assignment.default assignment.choices)) := by
  constructor
  · intro names source lend width written writable ok apart
    have reads := writable.reads ok
    rw [Verilog.Expr.read_text written reads.readable apart, reads.tree_eq]
  · intro resolved assignment place value remarks last choices ok apart
    obtain ⟨written, writtenOk, ok⟩ := bind_eq_ok.mp ok
    obtain ⟨target, targetOk, ok⟩ := bind_eq_ok.mp ok
    cases ok
    obtain ⟨readable, tree⟩ := chosen_reads (Context.of dialect.profile resolved) last choices writtenOk
    rw [Verilog.Expr.read_text value readable apart, tree]
    rfl

/-- A difference with a negated operator, a conversion and a negative number. -/
def sampleDifference : Vhdl.Expr :=
  .binary .sub (.binary .nand (.name "a" 1) (.call "unsigned" [.name "b" 1] 1) 1) (.literal (.decimal "-5") 1) 1

/-- An assignment to `y` with two choices, the second of which is an aggregate. -/
def sampleChoices : Vhdl.ConditionalAssign where
  target := ⟨"y", .whole, 1⟩
  choices := [(.name "a" 1, .binary .eq (.name "s" 1) (.literal (.bit "1") 1) 1),
    (.aggregate (.literal (.bit "0") 1) ⟨0, none⟩ 1, .name "t" 1)]
  default := .literal (.hex "fF") 1
  line := 1

def sampleResolved : Vhdl.Resolved where
  design := ⟨⟨"e", [], 1⟩, none⟩
  names := ⟨[("y", ⟨.signal, some (.vector ⟨7, 0, false, by decide⟩)⟩)]⟩
  statements := []
  drivers := .empty
  findings := .none

theorem read_written_samples :
    Verilog.read "(~(a & b)) - -5".toList =
      some (.binary "-" (.unary "~" (.binary "&" (.name "a") (.name "b"))) (.unary "-" (.number "5"))) ∧
    Verilog.read "(s == 1'b1) ? a : (t) ? 8'b00000000 : 8'hFF".toList =
      some (.choose (.binary "==" (.name "s") (.based "1" 'b' "1")) (.name "a")
        (.choose (.name "t") (.based "8" 'b' "00000000") (.based "8" 'h' "FF"))) := by
  constructor
  · refine (read_written_eq_reading .legacy).1 .empty sampleDifference true none
      (.binary .sub (.paren (.unary .complement (.paren (.binary .and (.name "a") (.name "b")))))
        (.number "-5")) ⟨?_, ?_, ?_⟩ rfl (by decide)
    · exact ⟨trivial, ⟨trivial, rfl, rfl, rfl, trivial⟩, trivial⟩
    · exact ⟨trivial, ⟨trivial, trivial, trivial, trivial, trivial⟩, rfl⟩
    · simp [PositiveAggregates, sampleDifference, aggregateWidths]
  · refine (read_written_eq_reading .legacy).2 sampleResolved sampleChoices (.name "y")
      (.choose (.paren (.binary .eq (.name "s") (.sized 1 .binary "1"))) (.name "a")
        (.choose (.paren (.name "t")) (.sized 8 .binary "00000000") (.sized 8 .hex "FF"))) []
      ⟨trivial, ⟨by decide, List.all_iff_forall_prop.mp (by decide)⟩, ?_⟩ ?_ rfl (by decide)
    · simp [PositiveAggregates, sampleChoices, aggregateWidths]
    · simp only [sampleChoices, List.forall_mem_cons, List.not_mem_nil, false_implies, implies_true, and_true]
      have eight : Vhdl.Target.width? sampleResolved.names ⟨"y", .whole, 1⟩ = some 8 := by decide
      refine ⟨⟨⟨rfl, trivial, ?_⟩, ⟨trivial, rfl, trivial⟩, ⟨trivial, trivial, trivial⟩, ?_⟩,
        ⟨⟨trivial, trivial⟩, ⟨trivial, trivial⟩, ?_⟩, rfl, trivial, ?_⟩ <;>
        simp [PositiveAggregates, aggregateWidths, eight]

end Emission

end RtlBridge

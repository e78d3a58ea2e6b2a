import RtlBridge.Proofs.Text.LetterCase
import RtlBridge.Proofs.Vhdl.Parses
import RtlBridge.Proofs.Vhdl.Shape

/-! Writing parsed designs as tokens. Parentheses stand only where the operators need them: the ranks are
those of the parser, from terms to concatenations. -/

namespace RtlBridge.Vhdl

namespace BinaryOp

def rank : BinaryOp → Nat
  | .mul | .div | .mod | .rem => 1
  | .add | .sub => 2
  | .sll | .srl | .sla | .sra => 3
  | .eq | .ne | .lt | .le | .gt | .ge => 4
  | .and | .or | .nand | .nor | .xor | .xnor => 5

def lexeme : BinaryOp → Lexeme
  | .and => .keyword "and"
  | .or => .keyword "or"
  | .nand => .keyword "nand"
  | .nor => .keyword "nor"
  | .xor => .keyword "xor"
  | .xnor => .keyword "xnor"
  | .eq => .symbol "="
  | .ne => .symbol "/="
  | .lt => .symbol "<"
  | .le => .symbol "<="
  | .gt => .symbol ">"
  | .ge => .symbol ">="
  | .sll => .keyword "sll"
  | .srl => .keyword "srl"
  | .sla => .keyword "sla"
  | .sra => .keyword "sra"
  | .add => .symbol "+"
  | .sub => .symbol "-"
  | .mul => .symbol "*"
  | .div => .symbol "/"
  | .mod => .keyword "mod"
  | .rem => .keyword "rem"

end BinaryOp

def UnaryOp.lexeme : UnaryOp → Lexeme
  | .not => .keyword "not"
  | .minus => .symbol "-"
  | .plus => .symbol "+"

def loosest : Nat := 6

/-- A character that is read as the bit. Only one letter has two characters as its lower-case form. -/
def bitCharacter (value : String) : Char :=
  match value.toList with
  | [c] => c
  | _ => 'İ'

theorem lowerAlone_cases (c : Char) : Text.lowerAlone c = ['i', '\u0307'] ∨ ∃ d, Text.lowerAlone c = [d] := by
  unfold Text.lowerAlone Text.lowerChar
  split
  · exact .inr ⟨_, rfl⟩
  · split
    · exact .inr ⟨_, rfl⟩
    · split
      · exact .inl rfl
      · split <;> exact .inr ⟨_, rfl⟩

theorem lower_bitCharacter {c : Char} (lowered : value = Text.lower c.toString) :
    Text.lower (bitCharacter value).toString = value := by
  rw [Text.lower_toString] at lowered
  rcases lowerAlone_cases c with two | ⟨d, single⟩
  · rw [lowered, two]
    decide
  · have same : bitCharacter value = d := by simp [bitCharacter, lowered, single]
    rw [same, Text.lower_toString, Text.lowerAlone_of_mem (single ▸ List.mem_singleton_self d), lowered, single]

def Literal.lexeme : Literal → Lexeme
  | .bit value => .character (bitCharacter value)
  | .hex digits => .bitString .hex digits
  | .binary digits => .string digits
  | .decimal digits => .number digits

/-- The name of an attribute; reserved words can be attributes too. -/
def attributeLexeme (name : String) : Lexeme :=
  if reservedWords.contains name then .keyword name else .identifier name

def grouped (needed : Bool) (inner : List Lexeme) : List Lexeme :=
  if needed then .symbol "(" :: (inner ++ [.symbol ")"]) else inner

namespace Expr

/-- The tokens of an expression at a place that takes operators up to a rank. -/
def print : Expr → Nat → List Lexeme
  | .name spelling _, _ => [.identifier spelling]
  | .literal value _, _ => [value.lexeme]
  | .binary op lhs rhs _, limit => grouped (limit < op.rank) (lhs.print op.rank ++ op.lexeme :: rhs.print (op.rank - 1))
  | .unary op operand _, _ => op.lexeme :: operand.print 0
  | .call function arguments _, _ =>
    .identifier function :: .symbol "(" :: (Parser.joined "," (prints arguments loosest) ++ [.symbol ")"])
  | .aggregate fill _ _, _ => .symbol "(" :: .keyword "others" :: .symbol "=>" :: (fill.print loosest ++ [.symbol ")"])
  | .concat parts _, limit => grouped (limit < loosest) (Parser.joined "&" (prints parts (loosest - 1)))
  | .index base subscript _, _ => base.print 0 ++ .symbol "(" :: (subscript.print loosest ++ [.symbol ")"])
  | .slice base left right _, _ =>
    base.print 0 ++ .symbol "(" :: (left.print loosest ++ .keyword "downto" :: (right.print loosest ++ [.symbol ")"]))
  | .tick base attributeName _, _ => base.print 0 ++ [.symbol "'", attributeLexeme attributeName]
where
  prints : List Expr → Nat → List (List Lexeme)
    | [], _ => []
    | first :: rest, limit => first.print limit :: prints rest limit

theorem prints_eq_map (list : List Expr) (limit : Nat) :
    print.prints list limit = list.map fun element => element.print limit :=
  @eq_map _ _ (print.prints · limit) _ rfl (fun _ _ => rfl) list

theorem print_concat (parts : List Expr) (line limit : Nat) : (concat parts line).print limit =
    grouped (limit < loosest) (Parser.joined "&" (parts.map fun part => part.print (loosest - 1))) := by
  rw [print, prints_eq_map]

theorem print_call (function : String) (arguments : List Expr) (line limit : Nat) :
    (call function arguments line).print limit = .identifier function :: .symbol "(" ::
      (Parser.joined "," (arguments.map fun argument => argument.print loosest) ++ [.symbol ")"]) := by
  rw [print, prints_eq_map]

def erase : Expr → Expr
  | .name spelling _ => .name spelling 0
  | .literal value _ => .literal value 0
  | .binary op lhs rhs _ => .binary op lhs.erase rhs.erase 0
  | .unary op operand _ => .unary op operand.erase 0
  | .call function arguments _ => .call function (eraseAll arguments) 0
  | .aggregate fill _ _ => .aggregate fill.erase ⟨0, none⟩ 0
  | .concat parts _ => .concat (eraseAll parts) 0
  | .index base subscript _ => .index base.erase subscript.erase 0
  | .slice base left right _ => .slice base.erase left.erase right.erase 0
  | .tick base attributeName _ => .tick base.erase attributeName 0
where
  eraseAll : List Expr → List Expr
    | [] => []
    | first :: rest => first.erase :: eraseAll rest

theorem eraseAll_eq_map : ∀ list, erase.eraseAll list = list.map erase := eq_map rfl fun _ _ => rfl

end Expr

/-! ### Statements -/

def directionLexeme (ascending : Bool) : Lexeme := .keyword (if ascending then "to" else "downto")

def Part.print : Part → List Lexeme
  | .whole => []
  | .element subscript => .symbol "(" :: (subscript.print loosest ++ [.symbol ")"])
  | .range left right =>
    .symbol "(" :: (left.print loosest ++ directionLexeme false :: (right.print loosest ++ [.symbol ")"]))

def Part.erase : Part → Part
  | .whole => .whole
  | .element subscript => .element subscript.erase
  | .range left right => .range left.erase right.erase

def Target.print (target : Target) : List Lexeme := .identifier target.name :: target.part.print

def Target.erase (target : Target) : Target := ⟨target.name, target.part.erase, 0⟩

mutual

def Stmt.print : Stmt → List Lexeme
  | .assign target value immediate _ =>
    target.print ++ .symbol (if immediate then ":=" else "<=") :: (value.print loosest ++ [.symbol ";"])
  | .conditional branches otherwise _ =>
    branchPrint "if" branches ++
      ((if otherwise.isEmpty then [] else .keyword "else" :: bodyPrint otherwise) ++
        [.keyword "end", .keyword "if", .symbol ";"])
  | .selection selector arms default _ =>
    .keyword "case" :: (selector.print loosest ++ .keyword "is" ::
      (armPrint arms ++ (defaultPrint default ++ [.keyword "end", .keyword "case", .symbol ";"])))
  | .captured _ => []

def bodyPrint : List Stmt → List Lexeme
  | [] => []
  | first :: rest => first.print ++ bodyPrint rest

def branchPrint (word : String) : List (Expr × List Stmt) → List Lexeme
  | [] => []
  | (condition, body) :: rest =>
    .keyword word :: (condition.print loosest ++ .keyword "then" :: (bodyPrint body ++ branchPrint "elsif" rest))

def armPrint : List (List Expr × List Stmt) → List Lexeme
  | [] => []
  | (choices, body) :: rest =>
    .keyword "when" :: (Parser.joined "|" (choices.map fun choice => choice.print loosest) ++ .symbol "=>" ::
      (bodyPrint body ++ armPrint rest))

def defaultPrint : Option (List Stmt) → List Lexeme
  | none => []
  | some body => .keyword "when" :: .keyword "others" :: .symbol "=>" :: bodyPrint body

end

mutual

def Stmt.erase : Stmt → Stmt
  | .assign target value immediate _ => .assign target.erase value.erase immediate 0
  | .conditional branches otherwise _ => .conditional (branchErase branches) (bodyErase otherwise) 0
  | .selection selector arms default _ => .selection selector.erase (armErase arms) (defaultErase default) 0
  | .captured statement => .captured { statement with line := 0 }

def bodyErase : List Stmt → List Stmt
  | [] => []
  | first :: rest => first.erase :: bodyErase rest

def branchErase : List (Expr × List Stmt) → List (Expr × List Stmt)
  | [] => []
  | (condition, body) :: rest => (condition.erase, bodyErase body) :: branchErase rest

def armErase : List (List Expr × List Stmt) → List (List Expr × List Stmt)
  | [] => []
  | (choices, body) :: rest => (choices.map Expr.erase, bodyErase body) :: armErase rest

def defaultErase : Option (List Stmt) → Option (List Stmt)
  | none => none
  | some body => some (bodyErase body)

end

theorem bodyErase_append (first second : List Stmt) :
    bodyErase (first ++ second) = bodyErase first ++ bodyErase second := by
  induction first with
  | nil => rfl
  | cons stmt rest ih => rw [List.cons_append, bodyErase, ih, bodyErase, List.cons_append]

def Stmt.StructuralNode : Stmt → Prop
  | .captured _ => False
  | _ => True

def Stmt.IsStructural : Stmt → Prop := All StructuralNode

/-! ### Design units -/

namespace TypeMark

def print (mark : TypeMark) : List Lexeme :=
  .identifier mark.name ::
    match mark.bounds with
    | none => []
    | some bounds =>
      .symbol "(" :: (bounds.left.print loosest ++ directionLexeme bounds.ascending ::
        (bounds.right.print loosest ++ [.symbol ")"]))

def erase (mark : TypeMark) : TypeMark :=
  ⟨mark.name, mark.bounds.map fun bounds => ⟨bounds.left.erase, bounds.right.erase, bounds.ascending⟩, 0⟩

end TypeMark

def Direction.lexeme : Direction → Lexeme
  | .input => .keyword "in"
  | .output => .keyword "out"
  | .inout => .keyword "inout"
  | .buffer => .keyword "buffer"

namespace Port

def print (port : Port TypeMark) : List Lexeme :=
  .identifier port.name :: .symbol ":" :: port.direction.lexeme :: port.type.print

def erase (port : Port TypeMark) : Port TypeMark := ⟨port.name, port.direction, port.type.erase, 0⟩

end Port

namespace Entity

def print (entity : Entity TypeMark) : List Lexeme :=
  .keyword "entity" :: .identifier entity.name :: .keyword "is" ::
    ((if entity.ports.isEmpty then []
      else .keyword "port" :: .symbol "(" :: (Parser.joined ";" (entity.ports.map Port.print) ++
        [.symbol ")", .symbol ";"])) ++
      [.keyword "end", .keyword "entity", .identifier entity.name, .symbol ";"])

def erase (entity : Entity TypeMark) : Entity TypeMark := ⟨entity.name, entity.ports.map Port.erase, 0⟩

end Entity

def initPrint : Option Expr → List Lexeme
  | none => []
  | some value => .symbol ":=" :: value.print loosest

def ObjectDecl.print (word : String) (decl : ObjectDecl TypeMark) : List Lexeme :=
  .keyword word :: .identifier decl.name :: .symbol ":" :: (decl.type.print ++ (initPrint decl.init ++ [.symbol ";"]))

def ObjectDecl.erase (decl : ObjectDecl TypeMark) : ObjectDecl TypeMark :=
  ⟨decl.name, decl.type.erase, decl.init.map Expr.erase, 0⟩

def ConstantDecl.print (decl : ConstantDecl TypeMark) : List Lexeme :=
  .keyword "constant" :: .identifier decl.name :: .symbol ":" ::
    (decl.type.print ++ .symbol ":=" :: (decl.value.print loosest ++ [.symbol ";"]))

def ConstantDecl.erase (decl : ConstantDecl TypeMark) : ConstantDecl TypeMark :=
  ⟨decl.name, decl.type.erase, decl.value.erase, 0⟩

def EnumDecl.print (decl : EnumDecl) : List Lexeme :=
  .keyword "type" :: .identifier decl.type.name :: .keyword "is" :: .symbol "(" ::
    (Parser.joined "," (decl.type.literals.map fun literal => [.identifier literal]) ++ [.symbol ")", .symbol ";"])

def EnumDecl.erase (decl : EnumDecl) : EnumDecl := ⟨decl.type, 0⟩

def Sensitivity.print : Sensitivity → List Lexeme
  | .all => [.keyword "all"]
  | .listed names => Parser.joined "," (names.map fun name => [.identifier name])

namespace ProcessBlock

def unlabelledPrint (block : ProcessBlock TypeMark) : List Lexeme :=
  .keyword "process" :: .symbol "(" :: (block.sensitivity.print ++ .symbol ")" ::
    (block.vars.flatMap (ObjectDecl.print "variable") ++ .keyword "begin" ::
      (bodyPrint block.body ++ [.keyword "end", .keyword "process", .symbol ";"])))

def print (block : ProcessBlock TypeMark) : List Lexeme :=
  match block.label with
  | none => block.unlabelledPrint
  | some label => .identifier label :: .symbol ":" :: block.unlabelledPrint

def erase (block : ProcessBlock TypeMark) : ProcessBlock TypeMark :=
  ⟨block.label, block.sensitivity, block.vars.map ObjectDecl.erase, bodyErase block.body, 0⟩

end ProcessBlock

/-- The values of a conditional assignment, each with its condition, and the last one. -/
def choicesPrint (last : Expr) : List (Expr × Expr) → List Lexeme
  | [] => last.print loosest
  | (value, condition) :: rest =>
    value.print loosest ++ .keyword "when" :: (condition.print loosest ++ .keyword "else" :: choicesPrint last rest)

def chosenPrint (target : Target) (last : Expr) (choices : List (Expr × Expr)) : List Lexeme :=
  target.print ++ .symbol "<=" :: (choicesPrint last choices ++ [.symbol ";"])

namespace Concurrent

def print : Concurrent TypeMark → List Lexeme
  | .process block => block.print
  | .assign assignment => chosenPrint assignment.target assignment.value []
  | .conditional assignment => chosenPrint assignment.target assignment.default assignment.choices
  | .captured _ => []

def erase : Concurrent TypeMark → Concurrent TypeMark
  | .process block => .process block.erase
  | .assign assignment => .assign ⟨assignment.target.erase, assignment.value.erase, 0⟩
  | .conditional assignment =>
    .conditional ⟨assignment.target.erase,
      assignment.choices.map fun choice => (choice.1.erase, choice.2.erase), assignment.default.erase, 0⟩
  | .captured statement => .captured { statement with line := 0 }

def IsStructural : Concurrent TypeMark → Prop
  | .process block => ∀ stmt ∈ block.body, stmt.IsStructural
  | .captured _ => False
  | _ => True

end Concurrent

namespace Architecture

def print (body : Architecture TypeMark) : List Lexeme :=
  .keyword "architecture" :: .identifier body.name :: .keyword "of" :: .identifier body.entityName ::
    .keyword "is" ::
      ((body.signals.flatMap (ObjectDecl.print "signal") ++ (body.constants.flatMap ConstantDecl.print ++
        body.enums.flatMap EnumDecl.print)) ++ .keyword "begin" ::
          (body.statements.flatMap Concurrent.print ++
            [.keyword "end", .keyword "architecture", .identifier body.name, .symbol ";"]))

def erase (body : Architecture TypeMark) : Architecture TypeMark :=
  ⟨body.name, body.entityName, body.signals.map ObjectDecl.erase, body.constants.map ConstantDecl.erase,
    body.enums.map EnumDecl.erase, body.statements.map Concurrent.erase, 0⟩

end Architecture

namespace DesignUnit

def print (parsed : DesignUnit TypeMark) : List Lexeme :=
  parsed.entity.print ++
    match parsed.architecture with
    | none => []
    | some body => body.print

def erase (parsed : DesignUnit TypeMark) : DesignUnit TypeMark :=
  ⟨parsed.entity.erase, parsed.architecture.map Architecture.erase⟩

def IsStructural (parsed : DesignUnit TypeMark) : Prop :=
  ∀ body ∈ parsed.architecture, ∀ stmt ∈ body.statements, stmt.IsStructural

end DesignUnit

end RtlBridge.Vhdl

import RtlBridge.Fault
import RtlBridge.Verilog.Expr
import RtlBridge.Vhdl.Builtin

/-! Verilog modules and their text, line by line. -/

namespace RtlBridge.Verilog

inductive Remark where
  | droppedInitial (value : Expr) (name : String)
  | enumeration (name : String)
  | width (finding : Finding)

def Remark.text : Remark → String
  | .droppedInitial value name =>
      s!"initial value {value.text} dropped, {name} is not a register"
  | .enumeration name => name
  | .width finding => s!"VHDL2VER-WIDTH: {finding.message}"

def trailing (remarks : List Remark) : String :=
  if remarks.isEmpty then "" else "  // " ++ "; ".intercalate (remarks.map Remark.text)

/-- A statement that is kept as a comment, with the lines of its source text. -/
structure Placeholder where
  construct : String
  line : Nat
  text : List String

def Placeholder.lines (placeholder : Placeholder) : List String :=
  s!"// VHDL2VER-UNSUPPORTED: {placeholder.construct} (line {placeholder.line})" ::
    placeholder.text.map fun line => s!"// {line}"

inductive Stmt where
  | assign (target : Expr) (blocking : Bool) (value : Expr) (remarks : List Remark)
  | conditional (branches : List (Expr × List Stmt)) (otherwise : Option (List Stmt))
  | selection (unique : Bool) (selector : Expr) (arms : List (List Expr × List Stmt))
      (default : Option (List Stmt))
  | placeholder (comment : Placeholder)

/-- The indent at a depth, where one step is `unit`. -/
def pad (unit : String) (depth : Nat) : String :=
  String.join (List.replicate depth unit)

mutual

def Stmt.lines (unit : String) (depth : Nat) : Stmt → List String
  | .assign target blocking value remarks =>
      let op := if blocking then "=" else "<="
      [pad unit depth ++ s!"{target.text} {op} {value.text};" ++ trailing remarks]
  | .conditional branches otherwise =>
      branchLines unit depth "if" branches ++ elseLines unit depth otherwise ++
        [pad unit depth ++ "end"]
  | .selection unique selector arms default =>
      let word := if unique then "unique case" else "case"
      (pad unit depth ++ s!"{word} ({selector.text})") ::
        armLines unit (depth + 1) arms ++ defaultLines unit (depth + 1) default ++
        [pad unit depth ++ "endcase"]
  | .placeholder comment => comment.lines.map fun line => pad unit depth ++ line

def bodyLines (unit : String) (depth : Nat) : List Stmt → List String
  | [] => []
  | first :: rest => first.lines unit depth ++ bodyLines unit depth rest

def branchLines (unit : String) (depth : Nat) (word : String) :
    List (Expr × List Stmt) → List String
  | [] => []
  | (condition, body) :: rest =>
      (pad unit depth ++ s!"{word} ({condition.text}) begin") ::
        bodyLines unit (depth + 1) body ++ branchLines unit depth "end else if" rest

def elseLines (unit : String) (depth : Nat) : Option (List Stmt) → List String
  | none => []
  | some body => (pad unit depth ++ "end else begin") :: bodyLines unit (depth + 1) body

def armLines (unit : String) (depth : Nat) : List (List Expr × List Stmt) → List String
  | [] => []
  | (choices, body) :: rest =>
      (pad unit depth ++ ", ".intercalate (choices.map Expr.text) ++ ": begin") ::
        bodyLines unit (depth + 1) body ++ (pad unit depth ++ "end") :: armLines unit depth rest

def defaultLines (unit : String) (depth : Nat) : Option (List Stmt) → List String
  | none => []
  | some body =>
      (pad unit depth ++ "default: begin") :: bodyLines unit (depth + 1) body ++
        [pad unit depth ++ "end"]

end

structure Dimension where
  signed : Bool
  high : Int
  low : Int

def Dimension.text (dimension : Dimension) : String :=
  let range := s!"[{dimension.high}:{dimension.low}]"
  if dimension.signed then "signed " ++ range else range

/-- A dimension with the blank that sets it off; nothing for a single bit. -/
def dimensionText : Option Dimension → String
  | some dimension => " " ++ dimension.text
  | none => ""

/-- The members of an enumeration, numbered from zero. -/
structure Enumeration where
  name : String
  width : Nat
  members : List (String × Nat)

def Enumeration.memberList (enum : Enumeration) : String :=
  ", ".intercalate (enum.members.map fun (name, code) => s!"{name} = {enum.width}'d{code}")

/-- What starts an always block: any change of its inputs, in the dialect's words, or edges. -/
inductive Trigger where
  | inputs (header : String)
  | edges (keyword : String) (events : List (Vhdl.Edge × String))

def Trigger.text : Trigger → String
  | .inputs header => header
  | .edges keyword events =>
      let list := events.map fun (edge, signal) => s!"{edge.text} {signal}"
      keyword ++ " @(" ++ " or ".intercalate list ++ ")"

inductive Item where
  | enumType (enum : Enumeration) (dimension : Option Dimension)
  | enumNote (enum : Enumeration)
  | parameter (type : String) (dimension : Option Dimension) (name : String) (value : Expr)
      (remarks : List Remark)
  | object (type : String) (dimension : Option Dimension) (name : String) (init : Option Expr)
      (remarks : List Remark)
  | assign (target value : Expr) (remarks : List Remark)
  | always (trigger : Trigger) (label : Option String) (body : List Stmt)
  | placeholder (comment : Placeholder)

def Item.lines (unit : String) (depth : Nat) : Item → List String
  | .enumType enum dimension =>
      [pad unit depth ++ "typedef enum logic" ++ dimensionText dimension ++ " \x7b" ++
        enum.memberList ++ "\x7d " ++ enum.name ++ ";"]
  | .enumNote enum => [pad unit depth ++ s!"// {enum.name}: {enum.memberList}"]
  | .parameter type dimension name value remarks =>
      let qualifier := (if type.isEmpty then [] else [type]) ++
        dimension.toList.map Dimension.text ++ [name]
      [pad unit depth ++ "localparam " ++ " ".intercalate qualifier ++ s!" = {value.text};" ++
        trailing remarks]
  | .object type dimension name init remarks =>
      let value := match init with
        | some value => s!" = {value.text}"
        | none => ""
      [pad unit depth ++ s!"{type}{dimensionText dimension} {name}{value};" ++ trailing remarks]
  | .assign target value remarks =>
      [pad unit depth ++ s!"assign {target.text} = {value.text};" ++ trailing remarks]
  | .always trigger label body =>
      let name := match label with
        | some label => s!" : {label}"
        | none => ""
      (pad unit depth ++ s!"{trigger.text} begin{name}") :: bodyLines unit (depth + 1) body ++
        [pad unit depth ++ "end"]
  | .placeholder comment => comment.lines.map fun line => pad unit depth ++ line

structure Port where
  direction : String
  type : String
  dimension : Option Dimension
  name : String

def Port.text (port : Port) : String :=
  s!"{port.direction} {port.type}{dimensionText port.dimension} {port.name}"

/-- A module with its items in groups, which are set apart by empty lines. -/
structure Module where
  name : String
  banner : String
  ports : List Port
  groups : List (List Item)

namespace Module

def portLines (unit : String) : List Port → List String
  | [] => []
  | [port] => [unit ++ port.text]
  | port :: rest => (unit ++ port.text ++ ",") :: portLines unit rest

def lines (unit : String) (module : Module) : List String :=
  let opening :=
    if module.ports.isEmpty then [s!"module {module.name};"]
    else s!"module {module.name} (" :: portLines unit module.ports ++ [");"]
  let groups := module.groups.flatMap fun group => "" :: group.flatMap (Item.lines unit 1)
  s!"// {module.banner}" :: opening ++ groups ++ ["", "endmodule"]

/-- The text of a module, where one indent step is `unit`. -/
def text (module : Module) (unit : String) : String :=
  "\n".intercalate (module.lines unit) ++ "\n"

end Module

end RtlBridge.Verilog

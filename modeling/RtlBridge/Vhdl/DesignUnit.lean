import RtlBridge.Vhdl.DataType
import RtlBridge.Vhdl.Stmt

/-! Declarations and design units. What is declared carries a type `τ`: a type mark as written
(`TypeMark`) in a parsed unit, a `DataType` in a lowered one. -/

namespace RtlBridge.Vhdl

structure Bounds where
  left : Expr
  right : Expr
  ascending : Bool
deriving Repr, Inhabited

structure TypeMark where
  name : String
  bounds : Option Bounds
  line : Nat
deriving Repr, Inhabited

inductive Direction where
  | input
  | output
  | inout
  | buffer
deriving Repr, DecidableEq, Inhabited

def Direction.text : Direction → String
  | .input => "in"
  | .output => "out"
  | .inout => "inout"
  | .buffer => "buffer"

structure Port (τ : Type) where
  name : String
  direction : Direction
  type : τ
  line : Nat
deriving Repr, Inhabited

structure Entity (τ : Type) where
  name : String
  ports : List (Port τ)
  line : Nat
deriving Repr, Inhabited

/-- A signal of an architecture or a variable of a process. -/
structure ObjectDecl (τ : Type) where
  name : String
  type : τ
  init : Option Expr
  line : Nat
deriving Repr, Inhabited

structure ConstantDecl (τ : Type) where
  name : String
  type : τ
  value : Expr
  line : Nat
deriving Repr, Inhabited

structure EnumDecl where
  type : EnumType
  line : Nat
deriving Repr, Inhabited

/-- What wakes a process: every signal it reads, or the listed names. -/
inductive Sensitivity where
  | all
  | listed (names : List String)
deriving Repr, DecidableEq, Inhabited

structure ProcessBlock (τ : Type) where
  label : Option String
  sensitivity : Sensitivity
  vars : List (ObjectDecl τ)
  body : List Stmt
  line : Nat
deriving Repr, Inhabited

def ProcessBlock.shownName {τ : Type} (process : ProcessBlock τ) : String :=
  process.label.getD s!"process at line {process.line}"

structure ContinuousAssign where
  target : Target
  value : Expr
  line : Nat
deriving Repr, Inhabited

/-- A chain of values, each with the condition under which it is taken, and the final value. -/
structure ConditionalAssign where
  target : Target
  choices : List (Expr × Expr)
  default : Expr
  line : Nat
deriving Repr, Inhabited

inductive Concurrent (τ : Type) where
  | process (block : ProcessBlock τ)
  | assign (assignment : ContinuousAssign)
  | conditional (assignment : ConditionalAssign)
  | captured (statement : Captured)
deriving Repr, Inhabited

structure Architecture (τ : Type) where
  name : String
  entityName : String
  signals : List (ObjectDecl τ)
  constants : List (ConstantDecl τ)
  enums : List EnumDecl
  statements : List (Concurrent τ)
  line : Nat
deriving Repr, Inhabited

def Concurrent.process? {τ : Type} : Concurrent τ → Option (ProcessBlock τ)
  | .process block => some block
  | _ => none

def Architecture.processes {τ : Type} (architecture : Architecture τ) : List (ProcessBlock τ) :=
  architecture.statements.filterMap Concurrent.process?

structure DesignUnit (τ : Type) where
  entity : Entity τ
  architecture : Option (Architecture τ)
deriving Repr, Inhabited

/-- A unit whose names are as declared and whose types are known. -/
abbrev Design := DesignUnit DataType

end RtlBridge.Vhdl

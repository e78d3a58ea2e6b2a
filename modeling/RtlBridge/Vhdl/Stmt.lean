import RtlBridge.Vhdl.Expr

/-! Sequential statements. -/

namespace RtlBridge.Vhdl

inductive CapturedKind where
  | selectedAssignment
  | assertion
  | wait
  | report
  | exit
  | next
  | return
  | loop
deriving Repr, DecidableEq, Inhabited

def CapturedKind.text : CapturedKind → String
  | .selectedAssignment => "selected signal assignment"
  | .assertion => "assertion"
  | .wait => "wait statement"
  | .report => "report statement"
  | .exit => "exit statement"
  | .next => "next statement"
  | .return => "return statement"
  | .loop => "loop statement"

/-- A statement kept as the source text from its first to its last token. -/
structure Captured where
  kind : CapturedKind
  text : String
  line : Nat
deriving Repr, DecidableEq, Inhabited

/-- Sequential statements. An assignment is immediate for a variable and deferred for a signal; a
conditional has its branches in order and the statements for when none is taken. -/
inductive Stmt where
  | assign (target : Target) (value : Expr) (immediate : Bool) (line : Nat)
  | conditional (branches : List (Expr × List Stmt)) (otherwise : List Stmt) (line : Nat)
  | selection (selector : Expr) (arms : List (List Expr × List Stmt))
      (default : Option (List Stmt)) (line : Nat)
  | captured (statement : Captured)
deriving Repr, Inhabited

def Stmt.line : Stmt → Nat
  | .assign _ _ _ line => line
  | .conditional _ _ line => line
  | .selection _ _ _ line => line
  | .captured statement => statement.line

end RtlBridge.Vhdl

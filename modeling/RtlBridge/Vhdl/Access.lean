import RtlBridge.Vhdl.DesignUnit

/-! Which names statements read and write. -/

namespace RtlBridge.Vhdl

/-- The names in an expression, in order, as often as they stand there. -/
def Expr.reads : Expr → List String
  | .name spelling _ => [spelling]
  | .literal _ _ => []
  | .binary _ lhs rhs _ => lhs.reads ++ rhs.reads
  | .unary _ operand _ => operand.reads
  | .call _ arguments _ => readsAll arguments
  | .aggregate fill _ _ => fill.reads
  | .concat parts _ => readsAll parts
  | .index base subscript _ => base.reads ++ subscript.reads
  | .slice base left right _ => base.reads ++ left.reads ++ right.reads
  | .tick base _ _ => base.reads
where
  readsAll : List Expr → List String
    | [] => []
    | first :: rest => first.reads ++ readsAll rest

def Target.reads (target : Target) : List String :=
  match target.part with
  | .whole => []
  | .element subscript => subscript.reads
  | .range left right => left.reads ++ right.reads

mutual

/-- The names that a statement reads, in order, as often as they stand there. -/
def Stmt.reads : Stmt → List String
  | .assign target value _ _ => target.reads ++ value.reads
  | .conditional branches otherwise _ => branchReads branches ++ bodyReads otherwise
  | .selection selector arms default _ => selector.reads ++ armReads arms ++ defaultReads default
  | .captured _ => []

def bodyReads : List Stmt → List String
  | [] => []
  | first :: rest => first.reads ++ bodyReads rest

def branchReads : List (Expr × List Stmt) → List String
  | [] => []
  | (condition, body) :: rest => condition.reads ++ bodyReads body ++ branchReads rest

def armReads : List (List Expr × List Stmt) → List String
  | [] => []
  | (choices, body) :: rest => Expr.reads.readsAll choices ++ bodyReads body ++ armReads rest

def defaultReads : Option (List Stmt) → List String
  | none => []
  | some body => bodyReads body

end

mutual

/-- The names that a statement writes, each with the line of the assignment; with `signalsOnly`,
variables are left out. -/
def Stmt.writes (signalsOnly : Bool) : Stmt → List (String × Nat)
  | .assign target _ immediate line =>
      if signalsOnly && immediate then [] else [(target.name, line)]
  | .conditional branches otherwise _ =>
      branchWrites signalsOnly branches ++ bodyWrites signalsOnly otherwise
  | .selection _ arms default _ => armWrites signalsOnly arms ++ defaultWrites signalsOnly default
  | .captured _ => []

def bodyWrites (signalsOnly : Bool) : List Stmt → List (String × Nat)
  | [] => []
  | first :: rest => first.writes signalsOnly ++ bodyWrites signalsOnly rest

def branchWrites (signalsOnly : Bool) : List (Expr × List Stmt) → List (String × Nat)
  | [] => []
  | (_, body) :: rest => bodyWrites signalsOnly body ++ branchWrites signalsOnly rest

def armWrites (signalsOnly : Bool) : List (List Expr × List Stmt) → List (String × Nat)
  | [] => []
  | (_, body) :: rest => bodyWrites signalsOnly body ++ armWrites signalsOnly rest

def defaultWrites (signalsOnly : Bool) : Option (List Stmt) → List (String × Nat)
  | none => []
  | some body => bodyWrites signalsOnly body

end

end RtlBridge.Vhdl

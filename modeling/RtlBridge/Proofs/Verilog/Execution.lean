import RtlBridge.Proofs.Execution
import RtlBridge.Proofs.Verilog.Evaluation
import RtlBridge.Proofs.Verilog.ReadBack

/-! Running always blocks. A block runs at each of the edges that it lists: blocking assignments change names at
once, the others when it is done. Comments have no effect. -/

namespace RtlBridge.Verilog

namespace Tree

def position (scope : Scope) (store : Store) (tree : Tree) : Int :=
  let bits := tree.bits scope store (tree.width scope) (tree.isSigned scope)
  if tree.isSigned scope then bits.toInt else bits.toNat

def assigned (scope : Scope) (store : Store) (width : Nat) (value : Tree) : Nat :=
  (value.bits scope store (max width (value.width scope)) (value.isSigned scope)).toNat % 2 ^ width

/-- The change that an assignment makes. Nothing but a name, a bit or a range of it is a target. -/
def change (scope : Scope) (store : Store) (target value : Tree) : Change :=
  match target with
  | .name text => ⟨text, 0, scope.width text, value.assigned scope store (scope.width text)⟩
  | .index (.name text) subscript =>
    ⟨text, subscript.position scope store - scope.low text, 1, value.assigned scope store 1⟩
  | .slice (.name text) left right =>
    let last := min ((left.constant? scope).getD 0) ((right.constant? scope).getD 0)
    ⟨text, last - scope.low text, span scope left right, value.assigned scope store (span scope left right)⟩
  | _ => ⟨"", 0, 0, 0⟩

/-- Whether one of the choices has the value of the selector. All choices of a case are compared at one width,
and as signed numbers if all are signed. -/
def selects (scope : Scope) (store : Store) (all : List Tree) (selector : Tree) (choices : List Tree) : Bool :=
  let width := (all.map (Tree.width scope)).foldl max (selector.width scope)
  let signed := selector.isSigned scope && all.all (Tree.isSigned scope)
  choices.any fun choice => selector.bits scope store width signed == choice.bits scope store width signed

end Tree

mutual

def Stmt.exec (scope : Scope) : Stmt → Activity → Activity
  | .assign target blocking value _, activity =>
    activity.assign blocking (target.tree.change scope activity.store value.tree)
  | .conditional branches otherwise, activity =>
    (execBranches scope branches activity).getD (execElse scope otherwise activity)
  | .selection _ selector arms default, activity =>
    (execArms scope (arms.flatMap fun arm => arm.1.map Expr.tree) selector.tree arms activity).getD
      (execElse scope default activity)
  | .placeholder _, activity => activity

def execBody (scope : Scope) : List Stmt → Activity → Activity
  | [], activity => activity
  | first :: rest, activity => execBody scope rest (first.exec scope activity)

def execBranches (scope : Scope) : List (Expr × List Stmt) → Activity → Option Activity
  | [], _ => none
  | (condition, body) :: rest, activity =>
    if condition.tree.truth scope activity.store then some (execBody scope body activity)
    else execBranches scope rest activity

def execArms (scope : Scope) (all : List Tree) (selector : Tree) :
    List (List Expr × List Stmt) → Activity → Option Activity
  | [], _ => none
  | (choices, body) :: rest, activity =>
    if selector.selects scope activity.store all (choices.map Expr.tree) then
      some (execBody scope body activity)
    else execArms scope all selector rest activity

def execElse (scope : Scope) : Option (List Stmt) → Activity → Activity
  | none, activity => activity
  | some body, activity => execBody scope body activity

end

def react (scope : Scope) (events : List (Vhdl.Edge × String)) (body : List Stmt) (before after : Store) : Store :=
  if events.any (occurs before after) then (execBody scope body (.start after)).settle else after

end RtlBridge.Verilog

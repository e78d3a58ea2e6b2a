import Mathlib.Data.List.Perm.Basic
import RtlBridge.Proofs.Vhdl.Shape
import RtlBridge.Vhdl.Resolution

/-! What checks find. The findings of a statement are those of its own expressions and choices and those of the
statements inside it. -/

namespace RtlBridge.Vhdl

open List

def Findings.concat : List Findings → Findings
  | [] => .none
  | first :: rest => first ++ concat rest

/-- What is found of a statement itself. -/
def Stmt.findings (names : NameTable) : Stmt → Findings
  | .assign target value _ line =>
    checkGiven names .assignment target.name (target.width? names) line [(value, none)]
  | .conditional branches _ _ =>
    .concat (branches.map fun branch => .ofAggregates (branch.1.operandAggregates names))
  | .selection _ arms _ line =>
    if areExclusive names (arms.flatMap Prod.fst) then ⟨[], [], [], [line]⟩ else .none
  | .captured _ => .none

section Views

variable {β : Type} (view : Findings → List β) (empty : view .none = [])
  (joins : ∀ a b : Findings, view (a ++ b) = view a ++ view b)

include joins in
omit empty in
theorem Findings.view_foldl (all : List Findings) (start : Findings) :
    view (all.foldl (· ++ ·) start) = view start ++ all.flatMap view := by
  induction all generalizing start with
  | nil => simp
  | cons first rest ih => rw [foldl_cons, ih, joins, append_assoc, flatMap_cons]

include empty joins

theorem Findings.view_concat : ∀ all, view (concat all) = all.flatMap view := eq_flatMap empty fun _ _ => joins ..

theorem checkBody_view (names : NameTable) :
    ∀ body, view (checkBody names body) = body.flatMap fun inner => view (inner.check names) :=
  eq_flatMap empty fun _ _ => joins ..

theorem Stmt.check_perm (names : NameTable) (stmt : Stmt) :
    (view (stmt.check names)).Perm (stmt.stmts.flatMap fun inner => view (inner.findings names)) := by
  have inBody := checkBody_view view empty joins names
  have inBranches : ∀ branches, view (checkBranches names branches) = branches.flatMap fun branch =>
      view (.ofAggregates (branch.1.operandAggregates names)) ++ view (checkBody names branch.2) :=
    eq_flatMap empty fun _ _ => by rw [checkBranches, joins, joins]
  have inArms : ∀ arms, view (checkArms names arms) = arms.flatMap fun arm => view (checkBody names arm.2) :=
    eq_flatMap empty fun _ _ => joins ..
  induction stmt using childInduction with
  | step stmt ih =>
    suffices split : (view (stmt.check names)).Perm
        (view (stmt.findings names) ++ stmt.children.flatMap fun child => view (child.check names)) by
      rw [stmts_eq_cons, flatMap_cons, flatMap_assoc]
      exact split.trans (.append_left _ (.flatMap_left _ ih))
    cases stmt with
    | assign target value immediate line | captured statement => simp [check, findings, children]
    | conditional branches otherwise line =>
      rw [check, joins, findings, Findings.view_concat view empty joins, children, flatMap_append, flatMap_assoc,
        inBranches, inBody, flatMap_map, ← append_assoc]
      simp only [← inBody]
      exact .append_right _ (flatMap_append_perm ..).symm
    | selection selector arms default line =>
      have inDefault : view (checkDefault names default) =
          (default.getD []).flatMap fun inner => view (inner.check names) := by
        cases default with
        | none => exact empty
        | some body => exact inBody body
      simp only [check, joins, findings, children, flatMap_append, flatMap_assoc, inArms, inDefault, inBody,
        append_assoc, Perm.refl]

end Views

end RtlBridge.Vhdl

import RtlBridge.Proofs.Vhdl.ProcessShape
import RtlBridge.Vhdl.Resolution

/-! What resolution makes of designs: every process has a kind, and the statements that a kind keeps are
statements of the process. -/

namespace RtlBridge.Vhdl

/-- Whether a property holds of all statements that a kind keeps, and of all statements in them. -/
def ProcessKind.All (property : Stmt → Prop) : ProcessKind → Prop
  | .combinational => True
  | .sequential _ reset clocked => bodyAll property reset.ownBody ∧ bodyAll property clocked

theorem HasKind.all (hasKind : HasKind constants sensitivity body kind) (all : bodyAll property body) : kind.All property := by
  cases hasKind with
  | combinational free => trivial
  | clocked single isEdge hasReset =>
    obtain ⟨⟨_, ⟨inside, _⟩, _⟩, _⟩ := all
    refine ⟨?_, inside⟩
    cases hasReset <;> trivial
  | withReset single isLevel isEdge differ sensitive =>
    obtain ⟨⟨_, ⟨inReset, inside, _⟩, _⟩, _⟩ := all
    exact ⟨inReset, inside⟩

def ResolvedStmt.source : ResolvedStmt → Concurrent DataType
  | .process block _ => .process block
  | .assign assignment => .assign assignment
  | .conditional assignment => .conditional assignment
  | .captured statement => .captured statement

def ResolvedStmt.IsClassified (constants : List String) : ResolvedStmt → Prop
  | .process block kind => HasKind constants block.sensitivity block.body kind
  | _ => True

theorem ResolvedStmt.ofConcurrent_eq_ok (ok : ofConcurrent constants stmt = .ok resolved) :
    resolved.source = stmt ∧ resolved.IsClassified constants := by
  cases stmt with
  | process block =>
    obtain ⟨kind, isKind, ok⟩ := bind_eq_ok.mp ok
    cases ok
    exact ⟨rfl, classify_eq_ok.mp isKind⟩
  | assign assignment | conditional assignment | captured statement =>
    cases ok
    exact ⟨rfl, trivial⟩

/-- The concurrent statements of a design; an entity alone has none. -/
def DesignUnit.statements (design : Design) : List (Concurrent DataType) :=
  design.architecture.elim [] Architecture.statements

theorem DesignUnit.mem_statements {design : Design} :
    stmt ∈ design.statements ↔ ∃ body, design.architecture = some body ∧ stmt ∈ body.statements := by
  rw [statements]
  cases design.architecture with
  | none => simp
  | some body => simp

/-- What is resolved is the design itself, and each of its statements. -/
structure Resolves (design : Design) (resolved : Resolved) : Prop where
  sameDesign : resolved.design = design
  sameNames : resolved.names = names design
  eachStatement : design.statements.mapM (ResolvedStmt.ofConcurrent (names design).constants) = .ok resolved.statements

theorem resolveBody_resolves (is : design.architecture = some body)
    (ok : (resolveBody design body).result = .ok resolved) : Resolves design resolved := by
  simp only [resolveBody, Traced.result_bind] at ok
  obtain ⟨statements, statementsOk, ok⟩ := bind_eq_ok.mp ok
  obtain ⟨drivers, _, ok⟩ := bind_eq_ok.mp ok
  obtain ⟨_, _, ok⟩ := bind_eq_ok.mp ok
  obtain ⟨_, _, ok⟩ := bind_eq_ok.mp ok
  obtain ⟨checked, _, ok⟩ := bind_eq_ok.mp ok
  cases ok
  refine ⟨rfl, rfl, ?_⟩
  rw [DesignUnit.statements, is]
  exact statementsOk

theorem resolve_eq_ok (ok : (resolve design strict).result = .ok resolved) :
    (design.architecture = none ∧ resolved = ⟨design, names design, [], Table.empty, .none⟩) ∨
      ∃ body, design.architecture = some body ∧ (resolveBody design body).result = .ok resolved := by
  unfold resolve at ok
  -- In strict mode a finding ends the work; otherwise it changes nothing.
  cases is : design.architecture with
  | none =>
    simp only [is, Traced.result_bind] at ok
    obtain ⟨found, foundOk, ok⟩ := bind_eq_ok.mp ok
    split at ok
    · nomatch ok
    · cases ok
      cases foundOk
      exact .inl ⟨rfl, rfl⟩
  | some body =>
    simp only [is, Traced.result_bind] at ok
    obtain ⟨found, foundOk, ok⟩ := bind_eq_ok.mp ok
    split at ok
    · nomatch ok
    · cases ok
      exact .inr ⟨body, rfl, foundOk⟩

theorem resolve_resolves (ok : (resolve design strict).result = .ok resolved) : Resolves design resolved := by
  obtain ⟨is, rfl⟩ | ⟨body, is, ok⟩ := resolve_eq_ok ok
  · refine ⟨rfl, rfl, ?_⟩
    rw [DesignUnit.statements, is]
    rfl
  · exact resolveBody_resolves is ok

namespace Resolves

variable {design : Design} {resolved : Resolved}

theorem classified (resolves : Resolves design resolved) (member : stmt ∈ resolved.statements) :
    stmt.source ∈ design.statements ∧ stmt.IsClassified resolved.names.constants := by
  obtain ⟨source, inDesign, ok⟩ := (mapM_eq_ok resolves.eachStatement).2 stmt member
  obtain ⟨rfl, classified⟩ := ResolvedStmt.ofConcurrent_eq_ok ok
  rw [resolves.sameNames]
  exact ⟨inDesign, classified⟩

theorem exists_kind (resolves : Resolves design resolved) (isProcess : .process block ∈ design.statements)
    : ∃ kind, (block, kind) ∈ resolved.processes ∧
      HasKind resolved.names.constants block.sensitivity block.body kind := by
  obtain ⟨stmt, member, ok⟩ := (mapM_eq_ok resolves.eachStatement).1 _ isProcess
  obtain ⟨same, classified⟩ := ResolvedStmt.ofConcurrent_eq_ok ok
  cases stmt with
  | process found kind =>
    cases same
    rw [resolves.sameNames]
    exact ⟨kind, List.mem_filterMap.mpr ⟨_, member, rfl⟩, classified⟩
  | _ => nomatch same

end Resolves

end RtlBridge.Vhdl

import RtlBridge.Proofs.Emission.Written

/-! The groups of concurrent statements. Each statement is written as one item, and each process is followed
by the assignments that forward registers to the wires that it is the first to write. -/

namespace RtlBridge.Emission

open List

open Vhdl (ResolvedStmt)

variable (context : Context)

def leading : ResolvedStmt → Traced Refusal Verilog.Item
  | .process block kind => always context block kind
  | .assign assignment =>
    orPlaceholder context assignment.line (continuous context assignment.target [] assignment.value)
  | .conditional assignment =>
    orPlaceholder context assignment.line (continuous context assignment.target assignment.choices assignment.default)
  | .captured statement => return .placeholder (placeholderOf statement)

/-- The forwarding assignments behind a statement, with the names that they are for. -/
def forwardsBehind (forwarded : List String) : ResolvedStmt → List (String × Verilog.Item)
  | .process block _ => forwards context forwarded block
  | _ => []

def forwardings (forwarded : List String) : List ResolvedStmt → List (List Verilog.Item)
  | [] => []
  | statement :: rest =>
    let assigns := forwardsBehind context forwarded statement
    assigns.map Prod.snd :: forwardings (assigns.map Prod.fst ++ forwarded) rest

theorem length_forwardings (forwarded : List String) (statements : List ResolvedStmt) :
    (forwardings context forwarded statements).length = statements.length := by
  induction statements generalizing forwarded with
  | nil => rfl
  | cons statement rest ih => rw [forwardings, length_cons, ih, length_cons]

theorem result_statementGroups (forwarded : List String) (statements : List ResolvedStmt) :
    (statementGroups context forwarded statements).result =
      statements.mapM (fun statement => (leading context statement).result) >>= fun items =>
        .ok (zipWith cons items (forwardings context forwarded statements)) := by
  induction statements generalizing forwarded with
  | nil => rfl
  | cons statement rest ih =>
    rw [mapM_cons, forwardings, bind_assoc]
    cases statement <;>
      simp only [statementGroups, Traced.result_bind, ih, bind_assoc, leading, forwardsBehind] <;> rfl

theorem statementGroups_eq_ok {groups : List (List Verilog.Item)}
    (ok : (statementGroups context forwarded statements).result = .ok groups) :
    ∃ items, Forall₂ (fun statement item => (leading context statement).result = .ok item) statements items ∧
      groups = zipWith cons items (forwardings context forwarded statements) := by
  rw [result_statementGroups] at ok
  obtain ⟨items, itemsOk, ok⟩ := bind_eq_ok.mp ok
  cases ok
  exact ⟨items, mapM_eq_ok_iff.mp itemsOk, rfl⟩

variable {context}

theorem mem_forwardings (member : item ∈ (forwardings context forwarded statements).flatten) :
    ∃ block kind name shadow, .process block kind ∈ statements ∧
      name ∈ (Vhdl.bodyWrites false block.body).map Prod.fst ∧ context.shadows.lookup name = some shadow ∧
      item = .assign (.name name) (.name shadow) [] := by
  induction statements generalizing forwarded with
  | nil => cases member
  | cons statement rest ih =>
    rcases mem_append.mp member with here | later
    · cases statement with
      | process block kind =>
        obtain ⟨⟨name, _⟩, inForwards, rfl⟩ := mem_map.mp here
        obtain ⟨written, writes, isSome⟩ := mem_filterMap.mp inForwards
        split at isSome
        · cases isSome
        · obtain ⟨shadow, shadowed, same⟩ := Option.map_eq_some_iff.mp isSome
          cases same
          exact ⟨block, kind, name, shadow, mem_cons_self .., mem_eraseDups.mp writes, shadowed, rfl⟩
      | _ => cases here
    · obtain ⟨block, kind, name, shadow, isProcess, found⟩ := ih later
      exact ⟨block, kind, name, shadow, mem_cons_of_mem _ isProcess, found⟩

theorem mem_flatten_zipWith_cons {α : Type} {item : α} {items : List α} {lists : List (List α)}
    (lengths : items.length = lists.length) :
    item ∈ (zipWith cons items lists).flatten ↔ item ∈ items ∨ item ∈ lists.flatten := by
  induction items generalizing lists with
  | nil =>
    rw [eq_nil_of_length_eq_zero lengths.symm]
    simp
  | cons first items ih =>
    cases lists with
    | nil => cases lengths
    | cons list lists =>
      rw [zipWith_cons_cons, flatten_cons, mem_append, ih (Nat.succ.inj lengths)]
      grind

theorem mem_groups_iff {groups : List (List Verilog.Item)}
    (ok : (statementGroups context forwarded statements).result = .ok groups) :
    item ∈ groups.flatten ↔ (∃ statement ∈ statements, (leading context statement).result = .ok item) ∨
      item ∈ (forwardings context forwarded statements).flatten := by
  obtain ⟨items, areItems, rfl⟩ := statementGroups_eq_ok _ ok
  have lengths : items.length = (forwardings context forwarded statements).length := by
    rw [length_forwardings, areItems.length_eq]
  rw [mem_flatten_zipWith_cons lengths]
  refine or_congr_left ⟨source_of_mem areItems, ?_⟩
  rintro ⟨statement, member, itemOk⟩
  obtain ⟨item, inItems, isItem⟩ := result_of_mem areItems member
  rwa [Except.ok.inj (itemOk.symm.trans isItem)]

theorem mem_statementGroups {groups : List (List Verilog.Item)}
    (ok : (statementGroups context [] statements).result = .ok groups) (member : item ∈ groups.flatten)
    : ∃ statement ∈ statements, ItemFor context statement item := by
  obtain ⟨statement, inStatements, itemOk⟩ | isForward := (mem_groups_iff ok).mp member
  · refine ⟨statement, inStatements, ?_⟩
    cases statement with
    | process block kind => exact .always itemOk
    | assign assignment =>
      obtain written | ⟨comment, rfl⟩ := orPlaceholder_eq_ok itemOk
      · exact .assign written
      · exact .placeholder
    | conditional assignment =>
      obtain written | ⟨comment, rfl⟩ := orPlaceholder_eq_ok itemOk
      · exact .conditional written
      · exact .placeholder
    | captured captured =>
      cases itemOk
      exact .placeholder
  · obtain ⟨block, kind, name, shadow, isProcess, writes, shadowed, rfl⟩ := mem_forwardings isForward
    exact ⟨_, isProcess, .forward writes shadowed⟩

end RtlBridge.Emission

import RtlBridge.Proofs.Vhdl.ResolvedShape

/-! What drives a name: once a statement writes it, the table of drivers has it with the kind of that
statement. -/

namespace RtlBridge

theorem Table.find?_of_mem_entries {κ α : Type} [DecidableEq κ] {table : Table κ α} (distinct : table.keys.Nodup)
    {key : κ} {value : α} (member : (key, value) ∈ table.entries) : table.find? key = some value := by
  obtain ⟨entries⟩ := table
  rw [find?]
  induction entries with
  | nil => cases member
  | cons entry rest ih =>
    obtain ⟨first, others⟩ := List.nodup_cons.mp distinct
    obtain rfl | later := List.mem_cons.mp member
    · exact List.lookup_cons_self
    · have other : (key == entry.1) = false := by
        rw [beq_eq_false_iff_ne]
        intro same
        exact first (same ▸ List.mem_map_of_mem later)
      rw [List.lookup_cons, other]
      exact ih others later

theorem Table.nodup_keys_insert {κ α : Type} [DecidableEq κ] {table : Table κ α} (distinct : table.keys.Nodup)
    (key : κ) (value : α) : (table.insert key value).keys.Nodup := by
  rw [keys_insert]
  split
  · exact distinct
  · rename_i new
    have others : ∀ other ∈ table.keys, ¬ other = key := fun other member same => new (same ▸ member)
    simpa [List.nodup_append, distinct] using others

theorem Table.find?_eq_some_iff {κ α : Type} [DecidableEq κ] {table : Table κ α} (distinct : table.keys.Nodup)
    {key : κ} {value : α} : table.find? key = some value ↔ (key, value) ∈ table.entries := by
  refine ⟨fun found => ?_, find?_of_mem_entries distinct⟩
  obtain ⟨before, after, split, _⟩ := List.lookup_eq_some_iff.mp found
  simp [split]

theorem Table.filterMap_sublist_keys {κ α : Type} {table : Table κ α} {pick : κ × α → Option κ}
    (picks : ∀ entry key, pick entry = some key → entry.1 = key) : (table.entries.filterMap pick).Sublist table.keys := by
  rw [keys]
  induction table.entries with
  | nil => exact .slnil
  | cons entry rest ih =>
    rw [List.filterMap_cons, List.map_cons]
    split
    · exact ih.cons _
    · rename_i key isKey
      rw [picks entry key isKey]
      exact ih.cons_cons _

namespace Vhdl.DriverTable

/-- A table that has all drivers of another, and each name once. -/
structure Extends (before after : DriverTable) : Prop where
  distinct : before.keys.Nodup → after.keys.Nodup
  keeps : ∀ name driver, before.find? name = some driver → after.find? name = some driver

theorem Extends.refl (drivers : DriverTable) : Extends drivers drivers := ⟨id, fun _ _ => id⟩

theorem Extends.trans (one : Extends first second) (two : Extends second third) : Extends first third :=
  ⟨fun distinct => two.distinct (one.distinct distinct),
    fun name driver found => two.keeps name driver (one.keeps name driver found)⟩

def Drives (drivers : DriverTable) (kind : DriverKind) (name : String) : Prop :=
  ∃ driver, drivers.find? name = some driver ∧ driver.kind = kind

theorem Drives.mem_keys {drivers : DriverTable} (drives : drivers.Drives kind name) : name ∈ drivers.keys := by
  obtain ⟨driver, found, _⟩ := drives
  obtain ⟨before, after, split, _⟩ := List.lookup_eq_some_iff.mp found
  simp [Table.keys, split]

theorem Drives.mono (extended : Extends before after) (drives : before.Drives kind name) : after.Drives kind name := by
  obtain ⟨driver, found, isKind⟩ := drives
  exact ⟨driver, extended.keeps name driver found, isKind⟩

theorem add_eq_ok (ok : add inputs kind before write = .ok after) : Extends before after ∧ after.Drives kind write.1 := by
  unfold add at ok
  dsimp only at ok
  split at ok
  · nomatch ok
  · split at ok
    · rename_i absent
      cases ok
      refine ⟨⟨fun distinct => Table.nodup_keys_insert distinct _ _, fun name driver found => ?_⟩, _,
        by rw [Table.find?_insert, if_pos rfl], rfl⟩
      rw [Table.find?_insert, if_neg]
      · exact found
      · rintro rfl
        rw [absent] at found
        nomatch found
    · rename_i driver found
      split at ok
      · rename_i same
        cases ok
        exact ⟨.refl before, driver, found, same⟩
      · nomatch ok

theorem foldlM_add_eq_ok {writes : List (String × Nat)} (ok : writes.foldlM (add inputs kind) before = .ok after) :
    Extends before after ∧ ∀ write ∈ writes, after.Drives kind write.1 := by
  induction writes generalizing before with
  | nil =>
    cases ok
    exact ⟨.refl _, nofun⟩
  | cons write rest ih =>
    rw [List.foldlM_cons] at ok
    obtain ⟨middle, first, ok⟩ := bind_eq_ok.mp ok
    obtain ⟨extended, drives⟩ := add_eq_ok first
    obtain ⟨further, others⟩ := ih ok
    exact ⟨extended.trans further, List.forall_mem_cons.mpr ⟨drives.mono further, others⟩⟩

/-- Every name that a statement writes is driven by statements of its kind. -/
def Covers (drivers : DriverTable) (statement : ResolvedStmt) : Prop :=
  ∀ kind writes, statement.drives = some (kind, writes) → ∀ write ∈ writes, drivers.Drives kind write.1

theorem addAll_eq_ok (ok : addAll inputs before statement = .ok after) : Extends before after ∧ after.Covers statement := by
  unfold addAll at ok
  split at ok
  · rename_i kind writes drives
    obtain ⟨extended, driven⟩ := foldlM_add_eq_ok ok
    refine ⟨extended, fun other others same => ?_⟩
    rw [drives] at same
    cases same
    exact driven
  · rename_i none
    cases ok
    refine ⟨.refl before, fun kind writes some => ?_⟩
    rw [none] at some
    nomatch some

theorem foldlM_addAll_eq_ok {statements : List ResolvedStmt} (ok : statements.foldlM (addAll inputs) before = .ok after) :
    Extends before after ∧ ∀ statement ∈ statements, after.Covers statement := by
  induction statements generalizing before with
  | nil =>
    cases ok
    exact ⟨.refl _, nofun⟩
  | cons statement rest ih =>
    rw [List.foldlM_cons] at ok
    obtain ⟨middle, first, ok⟩ := bind_eq_ok.mp ok
    obtain ⟨extended, covers⟩ := addAll_eq_ok first
    obtain ⟨further, others⟩ := ih ok
    refine ⟨extended.trans further, List.forall_mem_cons.mpr ⟨?_, others⟩⟩
    exact fun kind writes drives write member => (covers kind writes drives write member).mono further

theorem keys_of_add (ok : add inputs kind before write = .ok after) (member : name ∈ after.keys) :
    name ∈ before.keys ∨ name = write.1 := by
  unfold add at ok
  dsimp only at ok
  split at ok
  · nomatch ok
  · split at ok
    · cases ok
      rw [Table.keys_insert] at member
      split at member
      · exact .inl member
      · simpa using member
    · split at ok
      · cases ok
        exact .inl member
      · nomatch ok

theorem keys_of_foldlM {writes : List (String × Nat)} (ok : writes.foldlM (add inputs kind) before = .ok after)
    (member : name ∈ after.keys) : name ∈ before.keys ∨ name ∈ writes.map Prod.fst := by
  induction writes generalizing before with
  | nil =>
    cases ok
    exact .inl member
  | cons write rest ih =>
    rw [List.foldlM_cons] at ok
    obtain ⟨middle, first, ok⟩ := bind_eq_ok.mp ok
    rw [List.map_cons, List.mem_cons]
    rcases ih ok with earlier | later
    · exact (keys_of_add first earlier).imp_right .inl
    · exact .inr (.inr later)

def WrittenBy (statement : ResolvedStmt) (name : String) : Prop :=
  ∃ kind writes, statement.drives = some (kind, writes) ∧ name ∈ writes.map Prod.fst

theorem keys_of_addAll {statements : List ResolvedStmt} (ok : statements.foldlM (addAll inputs) before = .ok after)
    (member : name ∈ after.keys) : name ∈ before.keys ∨ ∃ statement ∈ statements, WrittenBy statement name := by
  induction statements generalizing before with
  | nil =>
    cases ok
    exact .inl member
  | cons statement rest ih =>
    rw [List.foldlM_cons] at ok
    obtain ⟨middle, first, ok⟩ := bind_eq_ok.mp ok
    rcases ih ok with earlier | ⟨later, inRest, writes⟩
    · unfold addAll at first
      split at first
      · rename_i kind writes drives
        rcases keys_of_foldlM first earlier with before | here
        · exact .inl before
        · exact .inr ⟨statement, List.mem_cons_self .., kind, writes, drives, here⟩
      · cases first
        exact .inl earlier
    · exact .inr ⟨later, List.mem_cons_of_mem _ inRest, writes⟩

end Vhdl.DriverTable

namespace Vhdl

theorem drivers_of_resolve (ok : (resolve design strict).result = .ok resolved) :
    resolved.drivers.keys.Nodup ∧ ∀ statement ∈ resolved.statements, resolved.drivers.Covers statement := by
  obtain ⟨is, rfl⟩ | ⟨body, is, ok⟩ := resolve_eq_ok ok
  · exact ⟨List.nodup_nil, nofun⟩
  · simp only [resolveBody, Traced.result_bind] at ok
    obtain ⟨statements, _, ok⟩ := bind_eq_ok.mp ok
    obtain ⟨drivers, driversOk, ok⟩ := bind_eq_ok.mp ok
    obtain ⟨_, _, ok⟩ := bind_eq_ok.mp ok
    obtain ⟨_, _, ok⟩ := bind_eq_ok.mp ok
    obtain ⟨checked, _, ok⟩ := bind_eq_ok.mp ok
    cases ok
    obtain ⟨extended, covers⟩ := DriverTable.foldlM_addAll_eq_ok driversOk
    exact ⟨extended.distinct List.nodup_nil, covers⟩

theorem writtenBy_of_resolve (ok : (resolve design strict).result = .ok resolved)
    (member : name ∈ resolved.drivers.keys) :
    ∃ statement ∈ resolved.statements, DriverTable.WrittenBy statement name := by
  obtain ⟨is, rfl⟩ | ⟨body, is, ok⟩ := resolve_eq_ok ok
  · cases member
  · simp only [resolveBody, Traced.result_bind] at ok
    obtain ⟨statements, _, ok⟩ := bind_eq_ok.mp ok
    obtain ⟨drivers, driversOk, ok⟩ := bind_eq_ok.mp ok
    obtain ⟨_, _, ok⟩ := bind_eq_ok.mp ok
    obtain ⟨_, _, ok⟩ := bind_eq_ok.mp ok
    obtain ⟨checked, _, ok⟩ := bind_eq_ok.mp ok
    cases ok
    rcases DriverTable.keys_of_addAll driversOk member with none | found
    · cases none
    · exact found

end Vhdl

end RtlBridge

/-! Tables in order of insertion: a key that is inserted again keeps its place and takes the new value. -/

namespace RtlBridge

structure Table (κ α : Type) where
  entries : List (κ × α)
deriving Repr

namespace Table

variable {κ α : Type} [DecidableEq κ]

instance : Inhabited (Table κ α) := ⟨⟨[]⟩⟩

def empty : Table κ α := ⟨[]⟩

def find? (table : Table κ α) (key : κ) : Option α := table.entries.lookup key

def contains (table : Table κ α) (key : κ) : Bool := (table.find? key).isSome

omit [DecidableEq κ] in
def keys (table : Table κ α) : List κ := table.entries.map Prod.fst

def insertInto (key : κ) (value : α) : List (κ × α) → List (κ × α)
  | [] => [(key, value)]
  | (k, v) :: rest => if key = k then (k, value) :: rest else (k, v) :: insertInto key value rest

def insert (table : Table κ α) (key : κ) (value : α) : Table κ α :=
  ⟨insertInto key value table.entries⟩

def ofList (entries : List (κ × α)) : Table κ α :=
  entries.foldl (fun table entry => table.insert entry.1 entry.2) empty

private theorem lookup_pair (key other : κ) (value : α) (rest : List (κ × α)) :
    ((key, value) :: rest).lookup other = if other = key then some value else rest.lookup other := by
  by_cases h : other = key
  · simp [h]
  · have : (other == key) = false := by simpa using h
    rw [List.lookup_cons, this, if_neg h]

private theorem lookup_insertInto (key other : κ) (value : α) (entries : List (κ × α)) :
    (insertInto key value entries).lookup other =
      if other = key then some value else entries.lookup other := by
  induction entries with
  | nil => simp [insertInto, lookup_pair]
  | cons entry rest ih =>
      rcases entry with ⟨k, v⟩
      by_cases same : key = k
      · simp only [insertInto, same, if_true, lookup_pair]
        split <;> rfl
      · simp only [insertInto, same, if_false, lookup_pair, ih]
        by_cases h : other = k
        · simp [h, Ne.symm same]
        · simp [h]

@[simp] theorem find?_insert (table : Table κ α) (key other : κ) (value : α) :
    (table.insert key value).find? other = if other = key then some value else table.find? other :=
  lookup_insertInto key other value table.entries

@[simp] theorem find?_empty (key : κ) : (empty : Table κ α).find? key = none := rfl

private theorem keys_insertInto (key : κ) (value : α) (entries : List (κ × α)) :
    (insertInto key value entries).map Prod.fst =
      if key ∈ entries.map Prod.fst then entries.map Prod.fst
      else entries.map Prod.fst ++ [key] := by
  induction entries with
  | nil => simp [insertInto]
  | cons entry rest ih =>
      by_cases same : key = entry.1
      · simp [insertInto, same]
      · simp only [insertInto, same, if_false, List.map_cons, ih, List.mem_cons, false_or]
        split <;> simp

theorem keys_insert (table : Table κ α) (key : κ) (value : α) :
    (table.insert key value).keys =
      if key ∈ table.keys then table.keys else table.keys ++ [key] :=
  keys_insertInto key value table.entries

end Table

end RtlBridge

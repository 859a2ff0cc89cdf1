/-! # Tables

Readers of a table see `get?` alone; the lemmas say what each operation does to it.
-/

namespace MapCatalog

structure Table (κ α : Type) where
  entries : List (κ × α)
  nodup_keys : (entries.map Prod.fst).Nodup
deriving DecidableEq

namespace Table

variable {κ α : Type}

theorem entries_inj {table other : Table κ α} :
    table.entries = other.entries ↔ table = other := by
  cases table
  cases other
  simp

variable [DecidableEq κ]

def empty : Table κ α :=
  ⟨[], List.nodup_nil⟩

instance : Inhabited (Table κ α) :=
  ⟨empty⟩

def lookup (key : κ) : List (κ × α) → Option α
  | [] => none
  | (k, v) :: rest => if k = key then some v else lookup key rest

def get? (table : Table κ α) (key : κ) : Option α :=
  lookup key table.entries

def contains (table : Table κ α) (key : κ) : Bool :=
  (table.get? key).isSome

def size (table : Table κ α) : Nat :=
  table.entries.length

def keys (table : Table κ α) : List κ :=
  table.entries.map Prod.fst

/-- Put a value in the place of its key, or at the end. -/
def put (key : κ) (value : α) : List (κ × α) → List (κ × α)
  | [] => [(key, value)]
  | (k, v) :: rest => if k = key then (key, value) :: rest else (k, v) :: put key value rest

theorem put_of_fresh {key : κ} {value : α} {entries : List (κ × α)}
    (h : key ∉ entries.map Prod.fst) :
    put key value entries = entries ++ [(key, value)] := by
  induction entries with
  | nil =>
      rfl
  | cons entry rest ih =>
      simp only [List.map_cons, List.mem_cons, not_or] at h
      simp [put, Ne.symm h.1, ih h.2]

theorem keys_put_of_mem {key : κ} {value : α} {entries : List (κ × α)}
    (h : key ∈ entries.map Prod.fst) :
    (put key value entries).map Prod.fst = entries.map Prod.fst := by
  induction entries with
  | nil =>
      simp at h
  | cons entry rest ih =>
      by_cases hk : entry.1 = key
      · simp [put, hk]
      · have hrest : key ∈ rest.map Prod.fst := by
          simpa [Ne.symm hk] using h
        simp [put, hk, ih hrest]

theorem nodup_keys_put (key : κ) (value : α) {entries : List (κ × α)}
    (h : (entries.map Prod.fst).Nodup) :
    ((put key value entries).map Prod.fst).Nodup := by
  by_cases hk : key ∈ entries.map Prod.fst
  · rw [keys_put_of_mem hk]
    exact h
  · rw [put_of_fresh hk, List.map_append, List.nodup_append]
    refine ⟨h, by simp, ?_⟩
    intro other hother fresh hfresh heq
    have hkey : fresh = key := by simpa using hfresh
    exact hk (hkey ▸ heq ▸ hother)

def insert (table : Table κ α) (key : κ) (value : α) : Table κ α :=
  ⟨put key value table.entries, nodup_keys_put key value table.nodup_keys⟩

def filter (table : Table κ α) (keep : κ × α → Bool) : Table κ α :=
  ⟨table.entries.filter keep, table.nodup_keys.sublist (List.filter_sublist.map Prod.fst)⟩

def erase (table : Table κ α) (key : κ) : Table κ α :=
  table.filter fun entry => decide (entry.1 ≠ key)

def modify (table : Table κ α) (key : κ) (change : α → α) : Table κ α :=
  match table.get? key with
  | some value => table.insert key (change value)
  | none => table

@[simp] theorem get?_empty (key : κ) :
    (empty : Table κ α).get? key = none :=
  rfl

theorem lookup_put (key other : κ) (value : α) (entries : List (κ × α)) :
    lookup other (put key value entries) =
      if key = other then some value else lookup other entries := by
  induction entries with
  | nil =>
      simp [put, lookup]
  | cons entry rest ih =>
      obtain ⟨k, v⟩ := entry
      by_cases hk : k = key
      · subst hk
        by_cases ho : k = other <;> simp [put, lookup, ho]
      · by_cases ho : key = other
        · subst ho
          simp [put, lookup, hk, ih]
        · by_cases hko : k = other
          · subst hko
            simp [put, lookup, hk, ho]
          · simp [put, lookup, hk, hko, ih, ho]

theorem get?_insert (table : Table κ α) (key other : κ) (value : α) :
    (table.insert key value).get? other = if key = other then some value else table.get? other :=
  lookup_put key other value table.entries

@[simp] theorem get?_insert_self (table : Table κ α) (key : κ) (value : α) :
    (table.insert key value).get? key = some value := by
  simp [get?_insert]

theorem modify_of_get? {table : Table κ α} {key : κ} {value : α} (h : table.get? key = some value)
    (change : α → α) : table.modify key change = table.insert key (change value) := by
  simp [modify, h]

theorem get?_modify (table : Table κ α) (key other : κ) (change : α → α) :
    (table.modify key change).get? other =
      if key = other then (table.get? key).map change else table.get? other := by
  unfold modify
  cases h : table.get? key with
  | none =>
      by_cases ho : key = other
      · subst ho
        simp [h]
      · simp [ho]
  | some value =>
      simp [get?_insert]

/-! ## Entries -/

theorem lookup_eq_some_iff {entries : List (κ × α)} (h : (entries.map Prod.fst).Nodup)
    {key : κ} {value : α} :
    lookup key entries = some value ↔ (key, value) ∈ entries := by
  induction entries with
  | nil =>
      simp [lookup]
  | cons entry rest ih =>
      obtain ⟨k, v⟩ := entry
      have hnodup := List.nodup_cons.1 h
      by_cases hk : k = key
      · subst hk
        have hrest : (k, value) ∉ rest := fun hmem =>
          hnodup.1 (List.mem_map.2 ⟨(k, value), hmem, rfl⟩)
        simp [lookup, hrest, eq_comm]
      · simp [lookup, hk, Ne.symm hk, ih hnodup.2]

theorem get?_eq_some_iff (table : Table κ α) {key : κ} {value : α} :
    table.get? key = some value ↔ (key, value) ∈ table.entries :=
  lookup_eq_some_iff table.nodup_keys

theorem get?_filter (table : Table κ α) (keep : κ × α → Bool) (key : κ) :
    (table.filter keep).get? key = (table.get? key).filter fun value => keep (key, value) := by
  ext value
  rw [get?_eq_some_iff, Option.filter_eq_some_iff, get?_eq_some_iff]
  exact List.mem_filter

theorem get?_erase (table : Table κ α) (key other : κ) :
    (table.erase key).get? other = if key = other then none else table.get? other := by
  rw [erase, get?_filter]
  by_cases hother : key = other
  · simp [hother]
  · cases table.get? other <;> simp [hother, Ne.symm hother]

theorem mem_keys_iff (table : Table κ α) {key : κ} :
    key ∈ table.keys ↔ ∃ value, table.get? key = some value := by
  simp [keys, get?_eq_some_iff]

theorem get?_eq_none_iff (table : Table κ α) {key : κ} :
    table.get? key = none ↔ key ∉ table.keys := by
  rw [mem_keys_iff, Option.eq_none_iff_forall_ne_some, not_exists]

theorem contains_iff (table : Table κ α) {key : κ} :
    table.contains key = true ↔ ∃ value, table.get? key = some value :=
  Option.isSome_iff_exists

theorem contains_eq_false_iff (table : Table κ α) {key : κ} :
    table.contains key = false ↔ table.get? key = none := by
  simp [contains]

theorem contains_insert (table : Table κ α) (key other : κ) (value : α) :
    (table.insert key value).contains other = (decide (key = other) || table.contains other) := by
  by_cases h : key = other <;> simp [contains, get?_insert, h]

theorem contains_erase (table : Table κ α) (key other : κ) :
    (table.erase key).contains other = (decide (key ≠ other) && table.contains other) := by
  by_cases h : key = other <;> simp [contains, get?_erase, h]

/-- Entering a value for a key that is there keeps the set of keys. -/
theorem contains_insert_of_get? {table : Table κ α} {key : κ} {old : α}
    (h : table.get? key = some old) (other : κ) (value : α) :
    (table.insert key value).contains other = table.contains other := by
  rw [contains_insert]
  by_cases ho : key = other
  · subst ho
    simp [contains, h]
  · simp [ho]

theorem contains_modify (table : Table κ α) (key other : κ) (change : α → α) :
    (table.modify key change).contains other = table.contains other := by
  by_cases ho : key = other
  · subst ho
    simp [contains, get?_modify]
  · simp [contains, get?_modify, ho]

theorem put_of_lookup {key : κ} {value : α} {entries : List (κ × α)}
    (h : lookup key entries = some value) : put key value entries = entries := by
  induction entries with
  | nil =>
      cases h
  | cons entry rest ih =>
      obtain ⟨k, v⟩ := entry
      by_cases hk : k = key
      · subst hk
        simp_all [lookup, put]
      · simp only [lookup, hk, if_false] at h
        simp [put, hk, ih h]

theorem insert_of_get? {table : Table κ α} {key : κ} {value : α} (h : table.get? key = some value) :
    table.insert key value = table :=
  entries_inj.1 (put_of_lookup h)

theorem entries_insert_of_fresh {table : Table κ α} {key : κ} {value : α}
    (h : table.get? key = none) :
    (table.insert key value).entries = table.entries ++ [(key, value)] :=
  put_of_fresh (table.get?_eq_none_iff.1 h)

theorem entries_eq_append_iff {table other : Table κ α} {key : κ} {value : α} :
    other.entries = table.entries ++ [(key, value)] ↔
      table.contains key = false ∧ other = table.insert key value := by
  rw [contains_eq_false_iff]
  constructor
  · intro h
    have hfresh : table.get? key = none := by
      rw [get?_eq_none_iff]
      intro hmem
      have hnodup := other.nodup_keys
      rw [h, List.map_append, List.nodup_append] at hnodup
      exact hnodup.2.2 key hmem key (List.mem_singleton.2 rfl) rfl
    refine ⟨hfresh, entries_inj.1 ?_⟩
    rw [h, entries_insert_of_fresh hfresh]
  · rintro ⟨hfresh, rfl⟩
    exact entries_insert_of_fresh hfresh

end Table

end MapCatalog

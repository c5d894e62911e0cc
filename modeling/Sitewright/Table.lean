/-!
An insertion-ordered table: every key has one entry, a new key goes to the end, and writing to a known
key keeps its place. That the keys are distinct is part of the type.
-/

namespace Sitewright

/-- A table of values by key, in the order in which the keys were first written. -/
structure Table (κ α : Type) where
  entries : List (κ × α)
  /-- No key has two entries. -/
  nodup : (entries.map Prod.fst).Nodup
  deriving DecidableEq

namespace Table

variable {κ α : Type}

def empty : Table κ α := ⟨[], by simp⟩

instance : EmptyCollection (Table κ α) := ⟨empty⟩

instance : Inhabited (Table κ α) := ⟨empty⟩

def keys (table : Table κ α) : List κ :=
  table.entries.map Prod.fst

def values (table : Table κ α) : List α :=
  table.entries.map Prod.snd

@[simp] theorem keys_empty : (empty : Table κ α).keys = [] := rfl

def size (table : Table κ α) : Nat :=
  table.entries.length

def map {β : Type} (f : κ → α → β) (table : Table κ α) : Table κ β where
  entries := table.entries.map fun entry => (entry.1, f entry.1 entry.2)
  nodup := by
    have h := table.nodup
    rwa [List.map_map]

variable [DecidableEq κ]

def get? (table : Table κ α) (key : κ) : Option α :=
  table.entries.lookup key

def contains (table : Table κ α) (key : κ) : Bool :=
  (table.get? key).isSome

def position? (table : Table κ α) (key : κ) : Option Nat :=
  table.keys.idxOf? key

/-- Writes one entry into a list of entries: in its place if the key is there, else at the end. -/
def write (key : κ) (value : α) : List (κ × α) → List (κ × α)
  | [] => [(key, value)]
  | entry :: rest =>
    if entry.1 = key then (key, value) :: rest else entry :: write key value rest

theorem map_fst_write (key : κ) (value : α) (entries : List (κ × α)) :
    (write key value entries).map Prod.fst =
      if key ∈ entries.map Prod.fst then entries.map Prod.fst else entries.map Prod.fst ++ [key] := by
  induction entries with
  | nil => simp [write]
  | cons entry rest ih =>
    by_cases h : entry.1 = key
    · simp [write, h]
    · have h' : ¬ key = entry.1 := fun e => h e.symm
      simp only [write, h, if_false, List.map_cons, ih, List.mem_cons, h', false_or]
      split <;> simp

def insert (table : Table κ α) (key : κ) (value : α) : Table κ α where
  entries := write key value table.entries
  nodup := by
    rw [map_fst_write]
    split
    · exact table.nodup
    · rename_i h
      rw [List.nodup_append]
      refine ⟨table.nodup, by simp, ?_⟩
      intro a ha b hb
      simp only [List.mem_singleton] at hb
      subst hb
      exact fun e => h (e ▸ ha)

/-- The table without the entry at `key`; the order of the others stays. -/
def erase (table : Table κ α) (key : κ) : Table κ α where
  entries := table.entries.filter fun entry => entry.1 ≠ key
  nodup := List.Nodup.sublist (List.filter_sublist.map Prod.fst) table.nodup

def eraseAll (table : Table κ α) (gone : List κ) : Table κ α :=
  gone.foldl erase table

def ofList (entries : List (κ × α)) : Table κ α :=
  entries.foldl (fun table entry => table.insert entry.1 entry.2) empty

/-! ## Keys -/

theorem keys_insert (table : Table κ α) (key : κ) (value : α) :
    (table.insert key value).keys =
      if key ∈ table.keys then table.keys else table.keys ++ [key] :=
  map_fst_write key value table.entries

theorem keys_erase (table : Table κ α) (key : κ) :
    (table.erase key).keys = table.keys.filter fun k => k ≠ key := by
  simp [keys, erase, List.filter_map, Function.comp_def]

/-! ## Reading after writing -/

@[simp] theorem get?_empty (key : κ) : (empty : Table κ α).get? key = none := rfl

theorem lookup_write (key key' : κ) (value : α) (entries : List (κ × α)) :
    (write key value entries).lookup key' =
      if key' = key then some value else entries.lookup key' := by
  induction entries with
  | nil =>
    by_cases h : key' = key
    · simp [write, h]
    · have hb : (key' == key) = false := by simpa using h
      simp [write, List.lookup_cons, h, hb]
  | cons entry rest ih =>
    obtain ⟨k, v⟩ := entry
    by_cases hk : k = key
    · subst hk
      by_cases h : key' = k
      · simp [write, h]
      · have hb : (key' == k) = false := by simpa using h
        simp [write, List.lookup_cons, h, hb]
    · by_cases h : key' = k
      · subst h
        simp [write, hk]
      · have hb : (key' == k) = false := by simpa using h
        simp only [write, hk, if_false, List.lookup_cons, hb, ih]

theorem get?_insert (table : Table κ α) (key key' : κ) (value : α) :
    (table.insert key value).get? key' = if key' = key then some value else table.get? key' :=
  lookup_write key key' value table.entries

theorem lookup_filter_ne (key key' : κ) (entries : List (κ × α)) :
    (entries.filter fun entry => entry.1 ≠ key).lookup key' =
      if key' = key then none else entries.lookup key' := by
  induction entries with
  | nil => simp
  | cons entry rest ih =>
    obtain ⟨k, v⟩ := entry
    by_cases hk : k = key
    · subst hk
      by_cases h : key' = k
      · subst h
        simpa using ih
      · have hb : (key' == k) = false := by simpa using h
        simp only [ne_eq, not_true_eq_false, decide_false, Bool.false_eq_true, not_false_eq_true,
          List.filter_cons_of_neg, ih, List.lookup_cons, hb]
    · by_cases h : key' = k
      · subst h
        simp [hk]
      · have hb : (key' == k) = false := by simpa using h
        simp only [ne_eq, hk, not_false_eq_true, decide_true, List.filter_cons_of_pos, List.lookup_cons,
          hb, ih]

theorem get?_erase (table : Table κ α) (key key' : κ) :
    (table.erase key).get? key' = if key' = key then none else table.get? key' :=
  lookup_filter_ne key key' table.entries

theorem lookup_map {β : Type} (f : κ → α → β) (key : κ) (entries : List (κ × α)) :
    (entries.map fun entry => (entry.1, f entry.1 entry.2)).lookup key =
      (entries.lookup key).map (f key) := by
  induction entries with
  | nil => rfl
  | cons entry rest ih =>
    obtain ⟨k, v⟩ := entry
    by_cases h : key = k
    · subst h
      simp
    · have hb : (key == k) = false := by simpa using h
      simp only [List.map_cons, List.lookup_cons, hb, ih]

theorem get?_map {β : Type} (f : κ → α → β) (table : Table κ α) (key : κ) :
    (table.map f).get? key = (table.get? key).map (f key) :=
  lookup_map f key table.entries

end Table

end Sitewright

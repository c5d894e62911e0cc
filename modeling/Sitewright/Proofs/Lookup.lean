import Sitewright.Table
import Sitewright.Template.Id

/-!
What tables and sets hold after they were changed. Everything is said through `get?` and membership, so
that later statements about a project never open a list of entries.
-/

namespace Sitewright

theorem countP_lt_countP {α : Type} {p q : α → Bool} {l : List α} (hpq : ∀ x ∈ l, p x = true → q x = true)
    {a : α} (ha : a ∈ l) (hp : p a = false) (hq : q a = true) : l.countP p < l.countP q := by
  induction l with
  | nil => cases ha
  | cons x rest ih =>
    have hrest : ∀ y ∈ rest, p y = true → q y = true := fun y hy => hpq y (List.mem_cons_of_mem x hy)
    rw [List.countP_cons, List.countP_cons]
    rcases List.mem_cons.mp ha with rfl | ha
    · have hle := List.countP_mono_left hrest
      simp only [hp, hq, Bool.false_eq_true, if_false, if_true]
      omega
    · have hlt := ih hrest ha
      have hx := hpq x List.mem_cons_self
      cases hpx : p x with
      | false => simp only [Bool.false_eq_true, if_false]; omega
      | true => simp only [hx hpx, if_true]; omega

namespace Table

variable {κ α β : Type}

theorem ext_entries {a b : Table κ α} (h : a.entries = b.entries) : a = b := by
  cases a
  cases b
  cases h
  rfl

theorem size_map (f : κ → α → β) (table : Table κ α) : (table.map f).size = table.size :=
  List.length_map _

theorem map_map {γ : Type} (f : κ → α → β) (g : κ → β → γ) (table : Table κ α) :
    (table.map f).map g = table.map fun key value => g key (f key value) :=
  ext_entries List.map_map

variable [DecidableEq κ]

theorem contains_iff {table : Table κ α} {key : κ} :
    table.contains key = true ↔ ∃ value, table.get? key = some value :=
  Option.isSome_iff_exists

theorem contains_eq_false_iff {table : Table κ α} {key : κ} :
    table.contains key = false ↔ table.get? key = none := by
  simp [contains]

/-- Keys are distinct, so an entry is what its key gives. -/
theorem mem_entries {table : Table κ α} {key : κ} {value : α} :
    (key, value) ∈ table.entries ↔ table.get? key = some value := by
  obtain ⟨entries, hnodup⟩ := table
  show _ ↔ entries.lookup key = some value
  induction entries with
  | nil => simp
  | cons entry rest ih =>
    obtain ⟨k, v⟩ := entry
    rw [List.map_cons, List.nodup_cons] at hnodup
    rw [List.lookup_cons, List.mem_cons]
    by_cases hk : key = k
    · subst hk
      have hnot : (key, value) ∉ rest := fun hmem =>
        hnodup.1 (List.mem_map.mpr ⟨_, hmem, rfl⟩)
      simp only [hnot, or_false, beq_self_eq_true, Option.some.injEq, Prod.mk.injEq, true_and]
      exact eq_comm
    · have hb : (key == k) = false := by simpa using hk
      simp only [hb, Prod.mk.injEq, hk, false_and, false_or]
      exact ih hnodup.2

theorem mem_keys {table : Table κ α} {key : κ} :
    key ∈ table.keys ↔ ∃ value, table.get? key = some value := by
  simp only [keys, List.mem_map]
  constructor
  · rintro ⟨⟨k, v⟩, hmem, rfl⟩
    exact ⟨v, mem_entries.mp hmem⟩
  · rintro ⟨value, hget⟩
    exact ⟨(key, value), mem_entries.mpr hget, rfl⟩

theorem not_mem_keys {table : Table κ α} {key : κ} : key ∉ table.keys ↔ table.get? key = none := by
  rw [mem_keys, not_exists, Option.eq_none_iff_forall_ne_some]

theorem get?_insert_self (table : Table κ α) (key : κ) (value : α) :
    (table.insert key value).get? key = some value := by
  rw [get?_insert, if_pos rfl]

theorem get?_insert_other (table : Table κ α) {key other : κ} (value : α) (h : other ≠ key) :
    (table.insert key value).get? other = table.get? other := by
  rw [get?_insert, if_neg h]

theorem get?_erase_self (table : Table κ α) (key : κ) : (table.erase key).get? key = none := by
  rw [get?_erase, if_pos rfl]

theorem get?_erase_other (table : Table κ α) {key other : κ} (h : other ≠ key) :
    (table.erase key).get? other = table.get? other := by
  rw [get?_erase, if_neg h]

theorem get?_eraseAll (table : Table κ α) (gone : List κ) (key : κ) :
    (table.eraseAll gone).get? key = if key ∈ gone then none else table.get? key := by
  induction gone generalizing table with
  | nil => rfl
  | cons first rest ih =>
    show ((table.erase first).eraseAll rest).get? key = _
    rw [ih, get?_erase]
    by_cases hrest : key ∈ rest
    · simp [hrest]
    · by_cases hfirst : key = first <;> simp [hrest, hfirst]

theorem of_get?_erase {table : Table κ α} {gone key : κ} {value : α}
    (h : (table.erase gone).get? key = some value) : key ≠ gone ∧ table.get? key = some value := by
  rw [get?_erase] at h
  split at h
  · cases h
  · rename_i hkey
    exact ⟨hkey, h⟩

/-- What is left after entries were dropped was there before, under a key that was not dropped. -/
theorem of_get?_eraseAll {table : Table κ α} {gone : List κ} {key : κ} {value : α}
    (h : (table.eraseAll gone).get? key = some value) :
    key ∉ gone ∧ table.get? key = some value := by
  rw [get?_eraseAll] at h
  split at h
  · cases h
  · rename_i hkey
    exact ⟨hkey, h⟩

/-! ## Order -/

theorem write_of_not_mem {key : κ} {value : α} {entries : List (κ × α)}
    (h : key ∉ entries.map Prod.fst) : write key value entries = entries ++ [(key, value)] := by
  induction entries with
  | nil => rfl
  | cons entry rest ih =>
    rw [List.map_cons, List.mem_cons, not_or] at h
    rw [write, if_neg (fun e => h.1 e.symm), ih h.2, List.cons_append]

/-- A new key goes to the end. -/
theorem entries_insert_new {table : Table κ α} {key : κ} (value : α) (h : table.get? key = none) :
    (table.insert key value).entries = table.entries ++ [(key, value)] :=
  write_of_not_mem (not_mem_keys.mpr h)

theorem isSome_position? {table : Table κ α} {key : κ} :
    (table.position? key).isSome = true ↔ key ∈ table.keys := by
  rw [position?, List.idxOf?, List.findIdx?_isSome, List.any_eq_true]
  simp

theorem position?_injective {table : Table κ α} {key other : κ} {position : Nat}
    (h : table.position? key = some position) (hother : table.position? other = some position) :
    key = other := by
  rw [position?, List.idxOf?, List.findIdx?_eq_some_iff_getElem] at h hother
  obtain ⟨hlt, heq, -⟩ := h
  obtain ⟨_, heq', -⟩ := hother
  exact (eq_of_beq heq).symm.trans (eq_of_beq heq')

theorem position?_of_getElem? {table : Table κ α} {key : κ} {position : Nat}
    (h : table.keys[position]? = some key) : table.position? key = some position := by
  obtain ⟨hlt, rfl⟩ := List.getElem?_eq_some_iff.mp h
  rw [position?, List.idxOf?, List.findIdx?_eq_some_iff_getElem]
  refine ⟨hlt, beq_self_eq_true _, fun earlier hearlier heq => ?_⟩
  exact List.pairwise_iff_getElem.mp table.nodup earlier position _ hlt hearlier (eq_of_beq heq)

/-- A new key comes last, so that it moves none of the others. -/
theorem position?_insert_of_mem {table : Table κ α} {key other : κ} (value : α) (h : other ∈ table.keys) :
    (table.insert key value).position? other = table.position? other := by
  have hfound : (table.keys.findIdx? (· == other)).isSome = true := isSome_position?.mpr h
  rw [position?, position?, keys_insert]
  split
  · rfl
  · simp only [List.idxOf?, List.findIdx?_append, Option.or_of_isSome hfound]

theorem contains_map (f : κ → α → β) (table : Table κ α) (key : κ) :
    (table.map f).contains key = table.contains key := by
  rw [contains, contains, get?_map, Option.isSome_map]

theorem map_write (f : κ → α → β) (key : κ) (value : α) (entries : List (κ × α)) :
    (write key value entries).map (fun entry => (entry.1, f entry.1 entry.2)) =
      write key (f key value) (entries.map fun entry => (entry.1, f entry.1 entry.2)) := by
  induction entries with
  | nil => rfl
  | cons entry rest ih =>
    by_cases h : entry.1 = key
    · simp only [write, h, if_true, List.map_cons]
    · simp only [write, h, if_false, List.map_cons, ih]

theorem map_insert (f : κ → α → β) (table : Table κ α) (key : κ) (value : α) :
    (table.insert key value).map f = (table.map f).insert key (f key value) :=
  ext_entries (map_write f key value table.entries)

end Table

namespace NameSet

variable {name : Text} {names : NameSet}

theorem contains_iff : names.contains name = true ↔ name ∈ names :=
  decide_eq_true_iff

theorem contains_eq_false_iff :
    names.contains name = false ↔ name ∉ names :=
  decide_eq_false_iff_not

theorem mem_toList : name ∈ names.toList ↔ name ∈ names := Iff.rfl

theorem contains_congr {a b : NameSet} (h : name ∈ a ↔ name ∈ b) :
    a.contains name = b.contains name :=
  decide_eq_decide.mpr h

end NameSet

namespace TemplateSet

theorem mem_toList {set : TemplateSet} {id : TemplateId} : id ∈ set.toList ↔ id ∈ set := by
  cases id <;> simp [toList, NameSet.mem_toList]

theorem ext {a b : TemplateSet} (h : ∀ id, id ∈ a ↔ id ∈ b) : a = b := by
  obtain ⟨aComponents, aPages⟩ := a
  obtain ⟨bComponents, bPages⟩ := b
  have hcomponents : aComponents = bComponents := NameSet.ext fun name => h (.component name)
  have hpages : aPages = bPages := NameSet.ext fun path => h (.page path)
  rw [hcomponents, hpages]

end TemplateSet

end Sitewright

import Mathlib.Data.List.Perm.Basic
import Sitewright.Proofs.Template.Numbering

/-!
The rows of a numbered forest, one for each label. A row names the parent and the children, and the two always agree: a
head of the forest below a label has this label as its parent, and every row is listed by its parent. Putting another
forest below a label changes the children of that label and trades the rows below it for the new ones.
-/

namespace Sitewright.Forest

variable {α : Type} {id parent : Nat} {new old forest : Forest (Nat × α)} {row : Row α}
variable {children : List Nat}

/-- The numbers of the trees themselves. -/
def heads (forest : Forest (Nat × α)) : List Nat :=
  forest.roots.map Prod.fst

@[simp] theorem heads_cons (label : Nat × α) (below after : Forest (Nat × α)) :
    (cons label below after).heads = label.1 :: after.heads := rfl

theorem map_id_rows (parent : Nat) (forest : Forest (Nat × α)) : (forest.rows parent).map Row.id = forest.numbers := by
  induction forest generalizing parent with
  | nil => rfl
  | cons label below after ihbelow ihafter =>
    simp only [rows, List.map_cons, List.map_append, ihbelow, ihafter, numbers_cons]

theorem id_mem_numbers (hrow : row ∈ forest.rows parent) : row.id ∈ forest.numbers := by
  rw [← map_id_rows parent]
  exact List.mem_map_of_mem hrow

/-! ## Parents and children -/

/-- Numbers count up in document order, so a parent has a smaller one than what is below it. -/
theorem parent_lt_of_mem_rows_number {start : Nat} {nodes : Forest α} (hstart : parent < start)
    (hrow : row ∈ (nodes.number start).rows parent) : row.parent < row.id := by
  induction nodes generalizing start parent with
  | nil => cases hrow
  | cons label below after ihbelow ihafter =>
    rw [number, rows, List.mem_cons, List.mem_append] at hrow
    rcases hrow with rfl | hrow | hrow
    · exact hstart
    · exact ihbelow (Nat.lt_succ_self start) hrow
    · exact ihafter (by omega) hrow

/-! ## What stands below a number -/

theorem below?_eq_none_iff : forest.below? id = none ↔ id ∉ forest.numbers := by
  induction forest with
  | nil => simp [below?, numbers, preorder]
  | cons label below after ihbelow ihafter =>
    rw [below?, numbers_cons, List.mem_cons, List.mem_append]
    split
    case isTrue h => simp [h]
    case isFalse h => simp [Option.or_eq_none_iff, ihbelow, ihafter, Ne.symm h]

theorem mem_numbers_of_below? (h : forest.below? id = some old) : id ∈ forest.numbers := by
  by_contra hnot
  rw [below?_eq_none_iff.mpr hnot] at h
  cases h

theorem heads_replaceBelow (id : Nat) (new forest : Forest (Nat × α)) :
    (replaceBelow id new forest).heads = forest.heads := by
  induction forest with
  | nil => rfl
  | cons label below after _ ih =>
    rw [replaceBelow]
    split
    · rfl
    · rw [heads_cons, heads_cons, ih]

/-- A row with other children, if it is the row of a number. -/
def Row.withChildren (id : Nat) (children : List Nat) (row : Row α) : Row α :=
  if row.id = id then { row with children } else row

@[simp] theorem Row.id_withChildren (id : Nat) (children : List Nat) (row : Row α) :
    (row.withChildren id children).id = row.id := by
  rw [Row.withChildren]
  split <;> rfl

@[simp] theorem Row.parent_withChildren (id : Nat) (children : List Nat) (row : Row α) :
    (row.withChildren id children).parent = row.parent := by
  rw [Row.withChildren]
  split <;> rfl

theorem Row.withChildren_of_ne (h : row.id ≠ id) : row.withChildren id children = row :=
  if_neg h

/-- Other children for a number that no row has change nothing. -/
theorem Row.map_withChildren_of_not_mem {rows : List (Row α)} (h : id ∉ rows.map Row.id) :
    rows.map (Row.withChildren id children) = rows := by
  have hsame : ∀ row ∈ rows, Row.withChildren id children row = row := fun row hrow =>
    Row.withChildren_of_ne fun hid => h (hid ▸ List.mem_map_of_mem hrow)
  rw [List.map_congr_left hsame, List.map_id']

theorem map_withChildren_rows_of_not_mem (h : id ∉ forest.numbers) (parent : Nat) :
    (forest.rows parent).map (Row.withChildren id children) = forest.rows parent := by
  rw [← map_id_rows parent] at h
  exact Row.map_withChildren_of_not_mem h

/-- What is traded beside a list is traded around it. -/
theorem perm_append_between {β : Type} {before after out into : List β} (h : (after ++ out).Perm (before ++ into))
    (rest : List β) : (after ++ rest ++ out).Perm (before ++ rest ++ into) := by
  have hswap (a b c : List β) : (a ++ b ++ c).Perm (a ++ c ++ b) := by
    rw [List.append_assoc, List.append_assoc]
    exact List.perm_append_comm.append_left a
  exact (hswap _ _ _).trans ((h.append_right rest).trans (hswap _ _ _))

/-- The rows that leave the forest are those of `old`, and those that come in are those of `new`. -/
theorem perm_rows_replaceBelow (hnodup : forest.numbers.Nodup) (hold : forest.below? id = some old)
    (new : Forest (Nat × α)) (parent : Nat) :
    ((replaceBelow id new forest).rows parent ++ old.rows id).Perm
      ((forest.rows parent).map (Row.withChildren id new.heads) ++ new.rows id) := by
  induction forest generalizing parent with
  | nil => cases hold
  | cons label below after ihbelow ihafter =>
    rw [numbers_cons, List.nodup_cons, List.mem_append, not_or, List.nodup_append] at hnodup
    obtain ⟨⟨hbelow, hafter⟩, hnodupBelow, hnodupAfter, hdisjoint⟩ := hnodup
    rw [below?] at hold
    rw [replaceBelow]
    split at hold
    case isTrue hid =>
      cases hold
      subst hid
      rw [if_pos rfl, rows, rows, List.map_cons, List.map_append, map_withChildren_rows_of_not_mem hbelow,
        map_withChildren_rows_of_not_mem hafter, Row.withChildren, if_pos rfl]
      exact (perm_append_between List.perm_append_comm _).cons _
    case isFalse hid =>
      rw [if_neg hid, rows, rows, List.map_cons, List.map_append, Row.withChildren_of_ne hid]
      have hheads : (replaceBelow id new below).roots.map Prod.fst = below.roots.map Prod.fst :=
        heads_replaceBelow id new below
      rw [hheads, List.cons_append, List.cons_append]
      refine List.Perm.cons _ ?_
      rcases Option.or_eq_some_iff.mp hold with hold | ⟨hnone, hold⟩
      · -- The label is in the first tree, so the trees after it stay as they are.
        have hother : id ∉ after.numbers := fun h => hdisjoint id (mem_numbers_of_below? hold) id h rfl
        rw [replaceBelow_of_not_mem hother, map_withChildren_rows_of_not_mem hother]
        exact perm_append_between (ihbelow hnodupBelow hold label.1) _
      · have hother : id ∉ below.numbers := below?_eq_none_iff.mp hnone
        rw [replaceBelow_of_not_mem hother, map_withChildren_rows_of_not_mem hother, List.append_assoc,
          List.append_assoc]
        exact (ihafter hnodupAfter hold parent).append_left _

/-! ## Several forests, each below a number of its own -/

variable {sites : List (Nat × Forest (Nat × α))}

/-- The rows of several forests. -/
def siteRows (sites : List (Nat × Forest (Nat × α))) : List (Row α) :=
  sites.flatMap fun site => site.2.rows site.1

theorem rows_sublist_siteRows {site : Nat × Forest (Nat × α)} (h : site ∈ sites) :
    (site.2.rows site.1).Sublist (siteRows sites) := by
  rw [siteRows, List.flatMap_def]
  exact List.sublist_flatten_of_mem (List.mem_map_of_mem h)

theorem not_mem_numbers_of_not_mem_siteRows (h : id ∉ (siteRows sites).map Row.id) {site : Nat × Forest (Nat × α)}
    (hsite : site ∈ sites) : id ∉ site.2.numbers := by
  rw [← map_id_rows site.1]
  exact fun hmem => h (((rows_sublist_siteRows hsite).map Row.id).subset hmem)

/-- The forest below a number, in any of several. -/
def siteBelow? (id : Nat) (sites : List (Nat × Forest (Nat × α))) : Option (Forest (Nat × α)) :=
  sites.findSome? fun site => site.2.below? id

theorem not_mem_siteRows_of_siteBelow? (h : siteBelow? id sites = none) : id ∉ (siteRows sites).map Row.id := by
  intro hid
  obtain ⟨row, hrow, rfl⟩ := List.mem_map.mp hid
  obtain ⟨site, hsite, hrow⟩ := List.mem_flatMap.mp hrow
  exact below?_eq_none_iff.mp (List.findSome?_eq_none_iff.mp h site hsite) (id_mem_numbers hrow)

/-- Puts a forest below a number, in whichever of several forests has it. -/
def replaceSites (id : Nat) (new : Forest (Nat × α)) (sites : List (Nat × Forest (Nat × α))) :
    List (Nat × Forest (Nat × α)) :=
  sites.map fun site => (site.1, replaceBelow id new site.2)

theorem replaceSites_of_not_mem (h : id ∉ (siteRows sites).map Row.id) : replaceSites id new sites = sites := by
  have hsame : ∀ site ∈ sites, (site.1, replaceBelow id new site.2) = site := fun site hsite => by
    rw [replaceBelow_of_not_mem (not_mem_numbers_of_not_mem_siteRows h hsite)]
  rw [replaceSites, List.map_congr_left hsame, List.map_id']

theorem perm_siteRows_replaceSites (hnodup : ((siteRows sites).map Row.id).Nodup) (hold : siteBelow? id sites = some old)
    (new : Forest (Nat × α)) :
    (siteRows (replaceSites id new sites) ++ old.rows id).Perm
      ((siteRows sites).map (Row.withChildren id new.heads) ++ new.rows id) := by
  induction sites with
  | nil => cases hold
  | cons site rest ih =>
    have hrows (site : Nat × Forest (Nat × α)) (rest : List (Nat × Forest (Nat × α))) :
        siteRows (site :: rest) = site.2.rows site.1 ++ siteRows rest := List.flatMap_cons
    rw [hrows, List.map_append, map_id_rows, List.nodup_append] at hnodup
    obtain ⟨hnodupSite, hnodupRest, hdisjoint⟩ := hnodup
    have hreplace : replaceSites id new (site :: rest) =
        (site.1, replaceBelow id new site.2) :: replaceSites id new rest := rfl
    rw [hreplace, hrows, hrows, List.map_append]
    rw [siteBelow?, List.findSome?_cons] at hold
    cases hsite : site.2.below? id with
    | some below =>
      rw [hsite] at hold
      cases hold
      have hother : id ∉ (siteRows rest).map Row.id := fun h => hdisjoint id (mem_numbers_of_below? hsite) id h rfl
      rw [replaceSites_of_not_mem hother, Row.map_withChildren_of_not_mem hother]
      exact perm_append_between (perm_rows_replaceBelow hnodupSite hsite new site.1) _
    | none =>
      rw [hsite] at hold
      have hother : id ∉ site.2.numbers := below?_eq_none_iff.mp hsite
      rw [replaceBelow_of_not_mem hother, map_withChildren_rows_of_not_mem hother, List.append_assoc,
        List.append_assoc]
      exact (ih hnodupRest hold).append_left _

end Sitewright.Forest

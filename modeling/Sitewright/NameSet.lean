import Sitewright.Text.Order

/-!
Sets of names, kept as lists in the order of texts. Because the list is increasing, two sets with the
same members are equal.
-/

namespace Sitewright

/-- A finite set of names, listed in increasing order. -/
structure NameSet where
  toList : List Text
  /-- Each member comes before those that follow it. -/
  increasing : toList.Pairwise (Text.before · ·)
  deriving DecidableEq

namespace NameSet

def empty : NameSet := ⟨[], .nil⟩

instance : EmptyCollection NameSet := ⟨empty⟩

instance : Inhabited NameSet := ⟨empty⟩

instance : Membership Text NameSet := ⟨fun names name => name ∈ names.toList⟩

instance (name : Text) (names : NameSet) : Decidable (name ∈ names) :=
  inferInstanceAs (Decidable (name ∈ names.toList))

def contains (names : NameSet) (name : Text) : Bool :=
  decide (name ∈ names)

/-- Puts a name into its place in an increasing list, unless it is there. -/
def place (name : Text) : List Text → List Text
  | [] => [name]
  | first :: rest =>
    if Text.before name first then name :: first :: rest
    else if name = first then first :: rest
    else first :: place name rest

theorem mem_place {name other : Text} {names : List Text} :
    other ∈ place name names ↔ other = name ∨ other ∈ names := by
  induction names with
  | nil => simp [place]
  | cons first rest ih =>
    simp only [place]
    split
    · simp
    · split
      · rename_i h
        subst h
        simp
      · simp only [List.mem_cons, ih]
        exact or_left_comm

theorem pairwise_place (name : Text) {names : List Text} (h : names.Pairwise (Text.before · ·)) :
    (place name names).Pairwise (Text.before · ·) := by
  induction names with
  | nil => simp [place]
  | cons first rest ih =>
    have hfirst := (List.pairwise_cons.mp h).1
    have hrest := (List.pairwise_cons.mp h).2
    simp only [place]
    split
    · rename_i hlt
      refine List.pairwise_cons.mpr ⟨?_, h⟩
      intro other ho
      rcases List.mem_cons.mp ho with rfl | ho
      · exact hlt
      · exact Text.before_trans hlt (hfirst other ho)
    · split
      · exact h
      · rename_i hlt hne
        refine List.pairwise_cons.mpr ⟨?_, ih hrest⟩
        intro other ho
        rcases mem_place.mp ho with rfl | ho
        · exact Text.before_of_not_before_of_ne (by simpa using hlt) hne
        · exact hfirst other ho

def insert (names : NameSet) (name : Text) : NameSet :=
  ⟨place name names.toList, pairwise_place name names.increasing⟩

def erase (names : NameSet) (name : Text) : NameSet :=
  ⟨names.toList.filter (· ≠ name), names.increasing.filter _⟩

def ofList (names : List Text) : NameSet :=
  names.foldr (fun name set => set.insert name) empty

@[simp] theorem not_mem_empty (name : Text) : ¬ name ∈ empty :=
  List.not_mem_nil

@[simp] theorem mem_insert {names : NameSet} {name other : Text} :
    other ∈ names.insert name ↔ other = name ∨ other ∈ names :=
  mem_place

@[simp] theorem mem_erase {names : NameSet} {name other : Text} :
    other ∈ names.erase name ↔ other ∈ names ∧ other ≠ name := by
  show other ∈ names.toList.filter (· ≠ name) ↔ _
  simp only [List.mem_filter, decide_eq_true_eq]
  rfl

@[simp] theorem mem_ofList {names : List Text} {name : Text} : name ∈ ofList names ↔ name ∈ names := by
  induction names with
  | nil => exact ⟨fun h => absurd h (not_mem_empty name), fun h => absurd h List.not_mem_nil⟩
  | cons first rest ih =>
    show name ∈ (ofList rest).insert first ↔ _
    rw [mem_insert, ih, List.mem_cons]

theorem eq_of_mem_iff_of_pairwise {a b : List Text} (ha : a.Pairwise (Text.before · ·))
    (hb : b.Pairwise (Text.before · ·)) (h : ∀ name, name ∈ a ↔ name ∈ b) : a = b := by
  induction a generalizing b with
  | nil =>
    cases b with
    | nil => rfl
    | cons y ys => exact absurd ((h y).mpr List.mem_cons_self) List.not_mem_nil
  | cons x xs ih =>
    cases b with
    | nil => exact absurd ((h x).mp List.mem_cons_self) List.not_mem_nil
    | cons y ys =>
      have hx := (List.pairwise_cons.mp ha).1
      have hy := (List.pairwise_cons.mp hb).1
      have hxy : x = y := by
        rcases List.mem_cons.mp ((h x).mp List.mem_cons_self) with e | hxys
        · exact e
        · rcases List.mem_cons.mp ((h y).mpr List.mem_cons_self) with e | hyxs
          · exact e.symm
          · exact absurd (Text.before_trans (hx y hyxs) (hy x hxys)) (by simp [Text.before_irrefl])
      subst hxy
      rw [ih (List.pairwise_cons.mp ha).2 (List.pairwise_cons.mp hb).2]
      intro name
      constructor
      · intro hn
        rcases List.mem_cons.mp ((h name).mp (List.mem_cons_of_mem _ hn)) with e | hn'
        · exact absurd (e ▸ hx name hn) (by simp [Text.before_irrefl])
        · exact hn'
      · intro hn
        rcases List.mem_cons.mp ((h name).mpr (List.mem_cons_of_mem _ hn)) with e | hn'
        · exact absurd (e ▸ hy name hn) (by simp [Text.before_irrefl])
        · exact hn'

/-- Sets with the same members are equal. -/
theorem ext {a b : NameSet} (h : ∀ name, name ∈ a ↔ name ∈ b) : a = b := by
  obtain ⟨a, ha⟩ := a
  obtain ⟨b, hb⟩ := b
  have : a = b := eq_of_mem_iff_of_pairwise ha hb h
  subst this
  rfl

end NameSet

end Sitewright

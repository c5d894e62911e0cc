import Mathlib.Logic.Relation
import Sitewright.Dependency
import Sitewright.Proofs.Lookup

/-!
The dependents of a component are the templates that reach it along includes. `Edge` is one include that
the index knows of, and its transitive closure is inclusion through other components. An edge always
leads to a component, so pages stand only at the beginning of a chain.

`dependentsOfComponent` widens a set of names in rounds. Each round that adds a name adds one with an
entry, so as many rounds as there are entries reach everything (`reached_closed`).
-/

namespace Sitewright

open Relation (TransGen ReflTransGen)

namespace Index

variable {index : Index}
variable {id : TemplateId} {name : Text} {names : NameSet}

/-- The entry of a template lists the component that another template is. -/
def Edge (index : Index) (id other : TemplateId) : Prop :=
  ∃ entry name, index.entry? id = some entry ∧ name ∈ entry.components ∧ other = .component name

theorem edge_component :
    index.Edge id (.component name) ↔ ∃ entry, index.entry? id = some entry ∧ name ∈ entry.components := by
  constructor
  · rintro ⟨entry, other, hentry, hmem, heq⟩
    cases heq
    exact ⟨entry, hentry, hmem⟩
  · rintro ⟨entry, hentry, hmem⟩
    exact ⟨entry, name, hentry, hmem, rfl⟩

theorem not_edge_page {path : Text} : ¬ index.Edge id (.page path) := by
  rintro ⟨_, _, _, _, heq⟩
  cases heq

theorem mem_included {other : Text} :
    other ∈ index.included name ↔ index.Edge (.component name) (.component other) := by
  rw [edge_component, included]
  cases index.entry? (.component name) with
  | none => simp
  | some entry => simp [NameSet.mem_toList]

/-- Only a component with an entry includes anything. -/
theorem included_eq_nil (h : index.entry? (.component name) = none) : index.included name = [] := by
  rw [included, h]

/-! ## Reading the index -/

theorem mem_withEntry {condition : Entry → Bool} :
    id ∈ index.withEntry condition ↔ ∃ entry, index.entry? id = some entry ∧ condition entry = true := by
  rw [withEntry, TemplateSet.mem_ofList, List.mem_map]
  constructor
  · rintro ⟨⟨key, entry⟩, hmem, rfl⟩
    rw [List.mem_filter] at hmem
    exact ⟨entry, Table.mem_entries.mp hmem.1, hmem.2⟩
  · rintro ⟨entry, hentry, hcondition⟩
    exact ⟨(id, entry), List.mem_filter.mpr ⟨Table.mem_entries.mpr hentry, hcondition⟩, rfl⟩

theorem mem_dependentsOfGlobal :
    id ∈ index.dependentsOfGlobal name ↔
      ∃ entry, index.entry? id = some entry ∧ name ∈ entry.globals := by
  simp only [dependentsOfGlobal, mem_withEntry, NameSet.contains_iff]

theorem mem_dependentsOfAsset {path : Text} :
    id ∈ index.dependentsOfAsset path ↔
      ∃ entry, index.entry? id = some entry ∧ path ∈ entry.assets := by
  simp only [dependentsOfAsset, mem_withEntry, NameSet.contains_iff]

theorem mem_includers : id ∈ index.includers names ↔ ∃ name ∈ names, index.Edge id (.component name) := by
  simp only [includers, mem_withEntry, edge_component, List.any_eq_true, NameSet.contains_iff,
    NameSet.mem_toList]
  constructor
  · rintro ⟨entry, hentry, name, hmem, hname⟩
    exact ⟨name, hname, entry, hentry, hmem⟩
  · rintro ⟨name, hname, entry, hentry, hmem⟩
    exact ⟨entry, hentry, name, hmem, hname⟩

/-! ## Rounds -/

theorem mem_foldl_insert {names : List Text} {set : NameSet} :
    name ∈ names.foldl NameSet.insert set ↔ name ∈ set ∨ name ∈ names := by
  induction names generalizing set with
  | nil => simp
  | cons first rest ih =>
    rw [List.foldl_cons, ih, NameSet.mem_insert, List.mem_cons, or_assoc]
    exact or_left_comm

theorem mem_widen :
    name ∈ index.widen names ↔
      name ∈ names ∨ ∃ other ∈ names, index.Edge (.component name) (.component other) := by
  rw [widen, mem_foldl_insert, NameSet.mem_toList, ← TemplateSet.mem_component, mem_includers]

/-- Everything that is reached leads back to a name the search began with. -/
theorem reached_sound {steps : Nat} (h : name ∈ index.reached names steps) :
    ∃ other ∈ names, ReflTransGen index.Edge (.component name) (.component other) := by
  induction steps generalizing name with
  | zero => exact ⟨name, h, .refl⟩
  | succ steps ih =>
    rcases mem_widen.mp h with h | ⟨next, hnext, hedge⟩
    · exact ih h
    · obtain ⟨other, hother, hpath⟩ := ih hnext
      exact ⟨other, hother, .head hedge hpath⟩

/-- The number of components with an entry that pass a test. -/
def recorded (index : Index) (test : Text → Bool) : Nat :=
  index.entries.keys.countP fun
    | .component name => test name
    | .page _ => false

theorem recorded_le (index : Index) (test : Text → Bool) : index.recorded test ≤ index.entries.size := by
  have h := List.countP_le_length (l := index.entries.keys)
    (p := fun | .component name => test name | .page _ => false)
  simpa [recorded, Table.size, Table.keys] using h

theorem recorded_mono {test test' : Text → Bool} (h : ∀ name, test name = true → test' name = true) :
    index.recorded test ≤ index.recorded test' := by
  apply List.countP_mono_left
  intro id _
  cases id with
  | component name => exact h name
  | page path => exact id

/-- A component with an entry that only the weaker test admits makes a difference. -/
theorem recorded_lt {test test' : Text → Bool} (h : ∀ name, test name = true → test' name = true)
    {entry : Entry} (hentry : index.entry? (.component name) = some entry)
    (hnot : test name = false) (hname : test' name = true) :
    index.recorded test < index.recorded test' := by
  refine countP_lt_countP ?_ (Table.mem_keys.mpr ⟨entry, hentry⟩) hnot hname
  intro id _
  cases id with
  | component name => exact h name
  | page path => exact id

/-- No template outside of a set of names includes one of them. -/
def Closed (index : Index) (names : NameSet) : Prop :=
  ∀ name other, index.Edge (.component name) (.component other) → other ∈ names → name ∈ names

theorem widen_of_closed (h : index.Closed names) : index.widen names = names := by
  apply NameSet.ext
  intro name
  rw [mem_widen]
  constructor
  · rintro (hname | ⟨other, hother, hedge⟩)
    · exact hname
    · exact h name other hedge hother
  · exact .inl

theorem recorded_lt_widen (h : ¬ index.Closed names) :
    index.recorded names.contains < index.recorded (index.widen names).contains := by
  simp only [Closed, Classical.not_forall] at h
  obtain ⟨name, other, hedge, hother, hname⟩ := h
  obtain ⟨entry, hentry, -⟩ := edge_component.mp hedge
  refine recorded_lt ?_ hentry (NameSet.contains_eq_false_iff.mpr hname) ?_
  · intro name hmem
    rw [NameSet.contains_iff] at hmem ⊢
    exact mem_widen.mpr (.inl hmem)
  · exact NameSet.contains_iff.mpr (mem_widen.mpr (.inr ⟨other, hother, hedge⟩))

/-- Every round finds a component with an entry, unless there is nothing left to find. -/
theorem closed_or_le_recorded (index : Index) (names : NameSet) (steps : Nat) :
    index.Closed (index.reached names steps) ∨
      steps ≤ index.recorded (index.reached names steps).contains := by
  induction steps with
  | zero => exact .inr (Nat.zero_le _)
  | succ steps ih =>
    by_cases hclosed : index.Closed (index.reached names steps)
    · left
      rwa [reached, widen_of_closed hclosed]
    · right
      have hle := ih.resolve_left hclosed
      have hlt := recorded_lt_widen hclosed
      rw [reached]
      omega

theorem reached_closed (names : NameSet) : index.Closed (index.reached names index.entries.size) := by
  rcases index.closed_or_le_recorded names index.entries.size with hclosed | hle
  · exact hclosed
  · refine Classical.byContradiction fun hopen => ?_
    have hlt := recorded_lt_widen hopen
    have hsize := index.recorded_le (index.widen (index.reached names index.entries.size)).contains
    omega

theorem subset_reached {steps : Nat} (h : name ∈ names) : name ∈ index.reached names steps := by
  induction steps with
  | zero => exact h
  | succ steps ih => exact mem_widen.mpr (.inl ih)

theorem mem_reached_of_path (h : ReflTransGen index.Edge id (.component name)) :
    ∀ other, id = .component other → other ∈ index.reached (.ofList [name]) index.entries.size := by
  induction h using ReflTransGen.head_induction_on with
  | refl =>
    rintro other heq
    cases heq
    exact subset_reached (NameSet.mem_ofList.mpr List.mem_cons_self)
  | head hedge _ ih =>
    rintro other rfl
    obtain ⟨entry, next, hentry, hnext, rfl⟩ := hedge
    exact reached_closed _ other next (edge_component.mpr ⟨entry, hentry, hnext⟩) (ih next rfl)

/-- The dependents of a component are the templates from which a chain of includes leads to it. -/
theorem mem_dependentsOfComponent :
    id ∈ index.dependentsOfComponent name ↔ TransGen index.Edge id (.component name) := by
  rw [dependentsOfComponent, mem_includers]
  constructor
  · rintro ⟨next, hnext, hedge⟩
    obtain ⟨other, hother, hpath⟩ := reached_sound hnext
    rw [NameSet.mem_ofList, List.mem_singleton] at hother
    subst hother
    exact .head' hedge hpath
  · intro hpath
    obtain ⟨other, hedge, hrest⟩ := TransGen.head'_iff.mp hpath
    obtain ⟨entry, next, hentry, hnext, rfl⟩ := hedge
    exact ⟨next, mem_reached_of_path hrest next rfl, edge_component.mpr ⟨entry, hentry, hnext⟩⟩

end Index

end Sitewright

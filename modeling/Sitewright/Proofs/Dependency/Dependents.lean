import Sitewright.Proofs.Dependency.Circuit

/-!
The dependents of a component, by chains of includes. After as many rounds as there are entries nothing is left to find,
so the bound on rounds has no part in the answer (`reached_of_le`). A chain goes through components alone, so the entry
of a page has a say in nothing but whether the page itself is a dependent.
-/

namespace Sitewright.Index

open Relation (TransGen)

variable {index other : Index} {name : Text} {id : TemplateId}

theorem reached_of_le {names : NameSet} {rounds : Nat} (h : index.entries.size ≤ rounds) :
    index.reached names rounds = index.reached names index.entries.size := by
  induction rounds, h using Nat.le_induction with
  | base => rfl
  | succ rounds _ ih => rw [reached, ih, widen_of_closed (reached_closed names)]

/-! ## Chains -/

/-- A chain of includes: the template lists the first name, each name is a component that lists the next, and the
last name is the component the chain leads to. -/
structure Chain (index : Index) (id : TemplateId) (path : List Text) (name : Text) : Prop where
  ends : path.getLast? = some name
  linked : (id :: path.map .component).IsChain index.Edge

theorem exists_chain (h : TransGen index.Edge id (.component name)) : ∃ path, index.Chain id path name := by
  induction h using TransGen.head_induction_on with
  | single hedge => exact ⟨[name], rfl, .cons_cons hedge (.singleton _)⟩
  | head hedge _ ih =>
    have ⟨_, next, _, _, hnext⟩ := hedge
    subst hnext
    obtain ⟨path, hends, hlinked⟩ := ih
    refine ⟨next :: path, ?_, .cons_cons hedge hlinked⟩
    rw [List.getLast?_cons, hends]
    rfl

theorem Chain.transGen {path : List Text} (h : index.Chain id path name) :
    TransGen index.Edge id (.component name) := by
  obtain ⟨hends, hlinked⟩ := h
  obtain ⟨before, rfl⟩ := List.getLast?_eq_some_iff.mp hends
  rw [List.map_append] at hlinked
  exact transGen_of_isChain hlinked

theorem mem_dependents_iff_chain : id ∈ index.dependentsOfComponent name ↔ ∃ path, index.Chain id path name := by
  rw [mem_dependentsOfComponent]
  refine ⟨exists_chain, ?_⟩
  rintro ⟨_, hchain⟩
  exact hchain.transGen

theorem self_mem_dependents_iff :
    .component name ∈ index.dependentsOfComponent name ↔ ∃ circuit, index.IsCircuit name circuit := by
  rw [mem_dependentsOfComponent]
  constructor
  · intro hcycle
    obtain ⟨circuit, hfound⟩ := exists_findCycle hcycle
    exact ⟨circuit, isCircuit_of_findCycle hfound⟩
  · rintro ⟨circuit, hcircuit⟩
    exact TransGen.lift TemplateId.component (fun _ _ hedge => hedge) _ _ hcircuit.transGen

/-! ## Pages -/

/-- A chain that begins at another template does not come to a page. -/
theorem transGen_of_page {path : Text} {goal : TemplateId}
    (hsame : ∀ id, id ≠ .page path → index.entry? id = other.entry? id) (hid : id ≠ .page path)
    (h : TransGen index.Edge id goal) : TransGen other.Edge id goal := by
  have hedge {id next : TemplateId} (hid : id ≠ .page path) (h : index.Edge id next) : other.Edge id next := by
    obtain ⟨entry, name, hentry, hname, rfl⟩ := h
    exact ⟨entry, name, (hsame id hid).symm.trans hentry, hname, rfl⟩
  induction h using TransGen.head_induction_on with
  | single hlast => exact .single (hedge hid hlast)
  | head hfirst _ ih =>
    refine .head (hedge hid hfirst) (ih ?_)
    rintro rfl
    exact not_edge_page hfirst

theorem mem_dependents_record_page {path : Text} {entry : Entry} (hid : id ≠ .page path) :
    id ∈ (index.record (.page path) entry).dependentsOfComponent name ↔
      id ∈ index.dependentsOfComponent name := by
  have hsame (id : TemplateId) (hid : id ≠ .page path) :
      entry? (index.record (.page path) entry) id = index.entry? id := Table.get?_insert_other _ _ hid
  rw [mem_dependentsOfComponent, mem_dependentsOfComponent]
  exact ⟨transGen_of_page hsame hid, transGen_of_page (fun id hid => (hsame id hid).symm) hid⟩

/-- **The dependents of a component are the templates that a chain of includes leads from to it,** recorded or not. More
rounds would find no more. A component depends on itself exactly if it lies on a circuit, and what pages include makes
no other template a dependent. -/
theorem dependents_exact (index : Index) (name : Text) :
    (∀ rounds, index.entries.size ≤ rounds →
        index.includers (index.reached (.ofList [name]) rounds) = index.dependentsOfComponent name) ∧
      (∀ id, id ∈ index.dependentsOfComponent name ↔ ∃ path, index.Chain id path name) ∧
      (.component name ∈ index.dependentsOfComponent name ↔ ∃ circuit, index.IsCircuit name circuit) ∧
      ∀ path entry id, id ≠ .page path →
        (id ∈ (index.record (.page path) entry).dependentsOfComponent name ↔
          id ∈ index.dependentsOfComponent name) := by
  refine ⟨fun rounds hrounds => ?_, fun id => mem_dependents_iff_chain, self_mem_dependents_iff,
    fun path entry id hid => mem_dependents_record_page hid⟩
  rw [reached_of_le hrounds, dependentsOfComponent]

/-- A name without an entry has dependents too, through a circle of which it is no part. -/
theorem dependents_exact_in_tangle :
    .page "/".toList ∈ tangled.dependentsOfComponent "gone".toList ∧
      tangled.Chain (.page "/".toList) (["hub", "aisle", "gone"].map String.toList) "gone".toList ∧
      (.component "gone".toList ∉ tangled.dependentsOfComponent "gone".toList) ∧
      .component "ward".toList ∈ (tangled.record (.page "/".toList) ⟨∅, ∅, ∅⟩).dependentsOfComponent "gone".toList := by
  obtain ⟨-, hchain, -, hpages⟩ := dependents_exact tangled "gone".toList
  have hward : .component "ward".toList ∈ tangled.dependentsOfComponent "gone".toList := by decide
  have hlinked : tangled.Chain (.page "/".toList) (["hub", "aisle", "gone"].map String.toList) "gone".toList := by
    have hedge {id : TemplateId} {name : Text} (entry : Entry) (h : tangled.entry? id = some entry)
        (hname : name ∈ entry.components) : tangled.Edge id (.component name) := edge_component.mpr ⟨entry, h, hname⟩
    exact ⟨rfl, .cons_cons (hedge _ rfl (by decide)) (.cons_cons (hedge _ rfl (by decide))
      (.cons_cons (hedge _ rfl (by decide)) (.singleton _)))⟩
  exact ⟨(hchain _).mpr ⟨_, hlinked⟩, hlinked, by decide, (hpages _ _ _ (by decide)).mpr hward⟩

end Sitewright.Index

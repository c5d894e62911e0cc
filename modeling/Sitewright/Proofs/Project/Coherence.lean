import Sitewright.Proofs.Dependency.Cycle
import Sitewright.Proofs.Project.Context
import Sitewright.Proofs.Project.History
import Sitewright.Proofs.Project.Registered

/-!
A project is coherent if its index lists what its sources say and its cache holds what would be worked
out anew.

Whether a cached answer stays right is one question for all operations. One that changes a single
template disturbs only that template and those that lead to it along includes, before or after
(`ChangesOnly.sameContext`), so it has to drop these from the cache and no others (`Coherent.change`).
-/

namespace Sitewright

/-- Whether a template may be registered under an id. -/
def TemplateId.Valid : TemplateId → Prop
  | .component name => Naming.isComponentName name = true
  | .page path => Naming.isPagePath path = true

namespace Project

open Relation (TransGen ReflTransGen)

variable {project next : Project}
variable {changed id : TemplateId}

/-- The index lists what the sources say, the cache holds what would be worked out, and everything is
registered under names that are allowed. -/
structure Coherent (project : Project) : Prop where
  globals : ∀ name value, project.globals.get? name = some value → Naming.isGlobalName name = true
  assets : ∀ path ∈ project.assets, Naming.isAssetPath path = true
  templates : ∀ id template, project.template? id = some template → id.Valid
  index : ∀ id, project.index.entry? id = (project.template? id).map Template.entry
  cache : ∀ id records, project.cache.get? id = some records →
    ∃ template, project.template? id = some template ∧ records = project.computeDiagnostics template

namespace Coherent

variable {id : TemplateId} {template : Template}

theorem entry (h : Coherent project) (ht : project.template? id = some template) :
    project.index.entry? id = some template.entry := by
  rw [h.index, ht]
  rfl

theorem of_entry (h : Coherent project) {entry : Entry} (he : project.index.entry? id = some entry) :
    ∃ template, project.template? id = some template ∧ entry = template.entry := by
  rw [h.index, Option.map_eq_some_iff] at he
  obtain ⟨template, ht, rfl⟩ := he
  exact ⟨template, ht, rfl⟩

theorem edge_iff (h : Coherent project) {name : Text} :
    project.index.Edge id (.component name) ↔
      ∃ template, project.template? id = some template ∧ name ∈ template.componentNames := by
  rw [Index.edge_component]
  constructor
  · rintro ⟨entry, hentry, hname⟩
    obtain ⟨template, ht, rfl⟩ := h.of_entry hentry
    exact ⟨template, ht, Template.mem_entry_components.mp hname⟩
  · rintro ⟨template, ht, hname⟩
    exact ⟨template.entry, h.entry ht, Template.mem_entry_components.mpr hname⟩

theorem valid_component (h : Coherent project) {name source : Text}
    (hget : project.components.get? name = some source) : Naming.isComponentName name = true :=
  h.templates (.component name) ⟨.component name, source⟩ (by rw [template?, component?, hget]; rfl)

theorem valid_page (h : Coherent project) {path source : Text}
    (hget : project.pages.get? path = some source) : Naming.isPagePath path = true :=
  h.templates (.page path) ⟨.page path, source⟩ (by rw [template?, page?, hget]; rfl)

/-- Asking for the problems of a template gives what would be worked out. -/
theorem templateDiagnostics_eq (h : Coherent project) (ht : project.template? id = some template) :
    (project.templateDiagnostics id).1 = project.computeDiagnostics template := by
  rw [templateDiagnostics]
  cases hcache : project.cache.get? id with
  | some records =>
    obtain ⟨other, hother, hrecords⟩ := h.cache id records hcache
    rw [ht, Option.some.injEq] at hother
    rw [hother]
    exact hrecords
  | none => simp only [ht]

theorem templateDiagnostics_unknown (h : Coherent project) (ht : project.template? id = none) :
    (project.templateDiagnostics id).1 = [] := by
  rw [templateDiagnostics]
  cases hcache : project.cache.get? id with
  | some records =>
    obtain ⟨other, hother, -⟩ := h.cache id records hcache
    rw [ht] at hother
    cases hother
  | none => simp only [ht]

/-- What has to be shown of an operation that keeps the index: a cached answer that it leaves was
there before, and its template has the same problems as before. -/
theorem keep (h : Coherent project)
    (hglobals : ∀ name value, next.globals.get? name = some value → Naming.isGlobalName name = true)
    (hassets : ∀ path ∈ next.assets, Naming.isAssetPath path = true)
    (htemplates : ∀ id, next.template? id = project.template? id)
    (hindex : next.index = project.index)
    (hcache : ∀ id records, next.cache.get? id = some records →
      project.cache.get? id = some records ∧
        ∀ template, project.template? id = some template → SameContext project next template) :
    Coherent next where
  globals := hglobals
  assets := hassets
  templates id template ht := h.templates id template (htemplates id ▸ ht)
  index id := by rw [hindex, h.index, htemplates]
  cache id records hrecords := by
    obtain ⟨hold, hsame⟩ := hcache id records hrecords
    obtain ⟨template, ht, hworked⟩ := h.cache id records hold
    exact ⟨template, (htemplates id).trans ht,
      hworked.trans (computeDiagnostics_congr (hsame template ht))⟩

end Coherent

/-! ## Changes of one template -/

/-- Nothing but the template under one id is registered, replaced or removed, and the index follows. -/
structure ChangesOnly (project next : Project) (changed : TemplateId) : Prop where
  templates : ∀ id, id ≠ changed → next.template? id = project.template? id
  entries : ∀ id, id ≠ changed → next.index.entry? id = project.index.entry? id
  entry : next.index.entry? changed = (next.template? changed).map Template.entry
  valid : ∀ template, next.template? changed = some template → changed.Valid
  globals : next.globals = project.globals
  assets : next.assets = project.assets

/-- A template that does not lead to the changed one has the same problems as before. -/
theorem ChangesOnly.sameContext {template : Template} (hc : ChangesOnly project next changed) (h : Coherent project)
    (ht : project.template? id = some template) (hid : id ≠ changed)
    (hpath : ¬ TransGen next.index.Edge id changed) : SameContext project next template := by
  have hentry : next.index.entry? id = some template.entry := (hc.entries id hid).trans (h.entry ht)
  refine ⟨fun name hname => ?_, fun _ _ => by rw [hc.assets], fun _ _ => by rw [hc.globals], ?_⟩
  · have hedge : next.index.Edge id (.component name) :=
      Index.edge_component.mpr ⟨template.entry, hentry, Template.mem_entry_components.mpr hname⟩
    have hne : TemplateId.component name ≠ changed := fun heq => hpath (heq ▸ .single hedge)
    rw [contains_component, contains_component, hc.templates _ hne]
  · intro name hname
    have hid' : id = .component name := (id_of_template? ht).symm.trans hname
    refine (Index.findCycle_congr fun other hother => ?_).symm
    have hne : TemplateId.component other ≠ changed := by
      intro heq
      rw [← hid', heq, Relation.reflTransGen_iff_eq_or_transGen] at hother
      rcases hother with hother | hother
      · exact hid hother.symm
      · exact hpath hother
    rw [Index.included, Index.included, hc.entries _ hne]

/-- A change of one template is safe if the cache drops that template and those that lead to it. -/
theorem Coherent.change (h : Coherent project) (hc : ChangesOnly project next changed)
    (hcache : ∀ id records, next.cache.get? id = some records → project.cache.get? id = some records ∧
      id ≠ changed ∧ ¬ TransGen next.index.Edge id changed) : Coherent next where
  globals := by rw [hc.globals]; exact h.globals
  assets := by rw [hc.assets]; exact h.assets
  templates id template ht := by
    by_cases hid : id = changed
    · subst hid
      exact hc.valid template ht
    · exact h.templates id template (hc.templates id hid ▸ ht)
  index id := by
    by_cases hid : id = changed
    · subst hid
      exact hc.entry
    · rw [hc.entries id hid, hc.templates id hid, h.index]
  cache id records hrecords := by
    obtain ⟨hold, hid, hpath⟩ := hcache id records hrecords
    obtain ⟨template, ht, hworked⟩ := h.cache id records hold
    exact ⟨template, (hc.templates id hid).trans ht,
      hworked.trans (computeDiagnostics_congr (hc.sameContext h ht hid hpath))⟩

/-- The project with a source under an id. -/
def withSource (project : Project) (id : TemplateId) (source : Text) : Project :=
  match id with
  | .component name => { project with components := project.components.insert name source }
  | .page path => { project with pages := project.pages.insert path source }

/-- The project without the source under an id. -/
def withoutSource (project : Project) (id : TemplateId) : Project :=
  match id with
  | .component name => { project with components := project.components.erase name }
  | .page path => { project with pages := project.pages.erase path }

/-- The project with a template in its tables and its index. -/
def withTemplate (project : Project) (id : TemplateId) (source : Text) : Project :=
  (project.withSource id source).indexed ⟨id, source⟩

/-- The project without a template in its tables, its index and its cache. -/
def withoutTemplate (project : Project) (id : TemplateId) : Project :=
  (project.withoutSource id).forgotten id

theorem cache_withTemplate (id : TemplateId) (source : Text) :
    (project.withTemplate id source).cache = project.cache := by
  cases id <;> rfl

theorem cache_withoutTemplate (id : TemplateId) : (project.withoutTemplate id).cache = project.cache.erase id := by
  cases id <;> rfl

theorem template?_withSource (project : Project) (id other : TemplateId) (source : Text) :
    (project.withSource id source).template? other =
      if other = id then some ⟨id, source⟩ else project.template? other := by
  cases id with
  | component name =>
    cases other with
    | component name' =>
      simp only [withSource, template?, component?, Table.get?_insert, TemplateId.component.injEq]
      split
      next heq => rw [heq]; rfl
      next => rfl
    | page path' => rfl
  | page path =>
    cases other with
    | component name' => rfl
    | page path' =>
      simp only [withSource, template?, page?, Table.get?_insert, TemplateId.page.injEq]
      split
      next heq => rw [heq]; rfl
      next => rfl

theorem template?_withoutSource (project : Project) (id other : TemplateId) :
    (project.withoutSource id).template? other =
      if other = id then none else project.template? other := by
  cases id with
  | component name =>
    cases other with
    | component name' =>
      simp only [withoutSource, template?, component?, Table.get?_erase, TemplateId.component.injEq]
      split <;> rfl
    | page path' => rfl
  | page path =>
    cases other with
    | component name' => rfl
    | page path' =>
      simp only [withoutSource, template?, page?, Table.get?_erase, TemplateId.page.injEq]
      split <;> rfl

theorem changesOnly_withTemplate (source : Text) (hid : id.Valid) :
    ChangesOnly project (project.withTemplate id source) id := by
  have htemplate : ∀ other, (project.withTemplate id source).template? other =
      if other = id then some ⟨id, source⟩ else project.template? other := fun other => by
    rw [← template?_withSource]
    cases other <;> rfl
  have hentry : ∀ other, Index.entry? (project.withTemplate id source).index other =
      if other = id then some (Template.entry ⟨id, source⟩) else project.index.entry? other := by
    intro other
    cases id <;> exact Table.get?_insert ..
  refine ⟨fun other hne => ?_, fun other hne => ?_, ?_, fun _ _ => hid, ?_, ?_⟩
  · rw [htemplate, if_neg hne]
  · rw [hentry, if_neg hne]
  · rw [hentry, htemplate, if_pos rfl, if_pos rfl]
    rfl
  · cases id <;> rfl
  · cases id <;> rfl

theorem changesOnly_withoutTemplate (id : TemplateId) :
    ChangesOnly project (project.withoutTemplate id) id := by
  have htemplate : ∀ other, (project.withoutTemplate id).template? other =
      if other = id then none else project.template? other := fun other => by
    rw [← template?_withoutSource]
    cases other <;> rfl
  have hentry : ∀ other, Index.entry? (project.withoutTemplate id).index other =
      if other = id then none else project.index.entry? other := fun other => by
    cases id <;> exact Table.get?_erase ..
  refine ⟨fun other hne => ?_, fun other hne => ?_, ?_, fun template ht => ?_, ?_, ?_⟩
  · rw [htemplate, if_neg hne]
  · rw [hentry, if_neg hne]
  · rw [hentry, htemplate, if_pos rfl, if_pos rfl]
    rfl
  · rw [htemplate, if_pos rfl] at ht
    cases ht
  · cases id <;> rfl
  · cases id <;> rfl

/-- Dropping more of the cache changes no template. -/
theorem ChangesOnly.invalidate (hc : ChangesOnly project next changed)
    (ids : TemplateSet) : ChangesOnly project (next.invalidate ids) changed :=
  ⟨fun id => by cases id <;> exact hc.templates _, hc.entries, by cases changed <;> exact hc.entry,
    by cases changed <;> exact hc.valid, hc.globals, hc.assets⟩

theorem not_mem_of_invalidate {ids : TemplateSet} {records : List Record}
    (h : (project.invalidate ids).cache.get? id = some records) :
    id ∉ ids ∧ project.cache.get? id = some records := by
  obtain ⟨hid, hold⟩ := Table.of_get?_eraseAll h
  exact ⟨fun hmem => hid (TemplateSet.mem_toList.mpr hmem), hold⟩

theorem not_transGen_page {index : Index} {path : Text} : ¬ TransGen index.Edge id (.page path) := by
  intro hpath
  obtain ⟨_, -, hedge⟩ := TransGen.tail'_iff.mp hpath
  exact Index.not_edge_page hedge

/-! ## Operations on one template -/

/-- The templates that see from outside what becomes of a template. -/
def observers (project : Project) : TemplateId → TemplateSet
  | .component name => project.dependentsOfComponent name
  | .page _ => .empty

theorem mem_observers {id other : TemplateId} :
    other ∈ project.observers id ↔ TransGen project.index.Edge other id := by
  cases id with
  | component name => exact Index.mem_dependentsOfComponent
  | page path => exact iff_of_false (by cases other <;> exact NameSet.not_mem_empty _) not_transGen_page

/-- Registers a template. -/
def add (project : Project) (id : TemplateId) (source : Text) : Except Error Project :=
  match id with
  | .component name => project.addComponent name source
  | .page path => project.addPage path source

/-- Replaces the source of a template. -/
def update (project : Project) (id : TemplateId) (source : Text) : Except Error Project :=
  match id with
  | .component name => project.updateComponent name source
  | .page path => project.updatePage path source

/-- Removes a template. -/
def remove (project : Project) : TemplateId → Except Error Project
  | .component name => project.removeComponent name
  | .page path => project.removePage path

section

variable {ε α : Type} {valid taken : Bool} {first second error : ε} {a b : α}

/-! Registering checks the name, and then whether it is taken. -/

theorem guarded_eq_ok :
    (if !valid then .error first else if taken then .error second else .ok a : Except ε α) = .ok b ↔
      valid = true ∧ taken = false ∧ b = a := by
  cases valid <;> cases taken <;> simp [eq_comm]

theorem guarded_eq_error :
    (if !valid then .error first else if taken then .error second else .ok a : Except ε α) = .error error ↔
      valid = false ∧ error = first ∨ valid = true ∧ taken = true ∧ error = second := by
  cases valid <;> cases taken <;> simp [eq_comm]

end

section

variable {id : TemplateId} {source : Text}

theorem add_eq_ok (h : project.add id source = .ok next) : id.Valid ∧ project.template? id = none ∧
    next = (project.withTemplate id source).invalidate ((project.withTemplate id source).observers id) := by
  cases id with
  | component name =>
    obtain ⟨hname, hnew, rfl⟩ := guarded_eq_ok.mp h
    exact ⟨hname, by simpa [contains_component] using hnew, rfl⟩
  | page path =>
    obtain ⟨hpath, hnew, rfl⟩ := guarded_eq_ok.mp h
    exact ⟨hpath, by simpa [contains_page] using hnew, rfl⟩

theorem update_eq_ok (h : project.update id source = .ok next) : (∃ template, project.template? id = some template) ∧
    next = (project.withTemplate id source).invalidate
      (((project.withTemplate id source).observers id).insert id) := by
  cases id with
  | component name =>
    simp only [update, updateComponent] at h
    split at h
    next hold =>
      cases h
      exact ⟨Option.isSome_iff_exists.mp ((contains_component name).symm.trans hold), rfl⟩
    next => cases h
  | page path =>
    simp only [update, updatePage] at h
    split at h
    next hold =>
      cases h
      exact ⟨Option.isSome_iff_exists.mp ((contains_page path).symm.trans hold), rfl⟩
    next => cases h

theorem remove_eq_ok (h : project.remove id = .ok next) :
    next = (project.withoutTemplate id).invalidate ((project.withoutTemplate id).observers id) := by
  cases id with
  | component name =>
    simp only [remove, removeComponent] at h
    split at h <;> cases h
    rfl
  | page path =>
    simp only [remove, removePage] at h
    split at h <;> cases h
    rfl

end

end Project

end Sitewright

import Sitewright.Proofs.Project.Coherence

/-!
Every operation keeps a project coherent, so that every project with a history is coherent
(`Reachable.coherent`).
-/

namespace Sitewright.Project

variable {project next : Project}

namespace Coherent

/-! ## Globals -/

theorem changeGlobal (h : Coherent project) {name : Text} {globals : Table Text Text}
    (hother : ∀ other, other ≠ name → globals.get? other = project.globals.get? other)
    (hvalid : ∀ value, globals.get? name = some value → Naming.isGlobalName name = true) :
    Coherent (invalidate { project with globals } (project.dependentsOfGlobal name)) := by
  refine h.keep (fun other value hget => ?_) h.assets (fun id => by cases id <;> rfl) rfl
    fun id records hrecords => ?_
  · by_cases hname : other = name
    · subst hname
      exact hvalid value hget
    · exact h.globals other value ((hother other hname).symm.trans hget)
  · obtain ⟨hid, hold⟩ := not_mem_of_invalidate hrecords
    refine ⟨hold, fun template ht => ⟨fun _ _ => rfl, fun _ _ => rfl, fun other hmem => ?_, fun _ _ => rfl⟩⟩
    have hne : other ≠ name := by
      rintro rfl
      exact hid (Index.mem_dependentsOfGlobal.mpr
        ⟨template.entry, h.entry ht, Template.mem_entry_globals.mpr hmem⟩)
    show (project.globals.get? other).isSome = (globals.get? other).isSome
    rw [hother other hne]

theorem setGlobal (h : Coherent project) (name value : Text) :
    Coherent (project.setGlobal name value) := by
  rw [Project.setGlobal]
  split
  · exact h
  next hset =>
  refine h.changeGlobal (fun other hne => Table.get?_insert_other _ _ hne) fun _ _ => ?_
  simp only [Bool.or_eq_true, Bool.not_eq_true', not_or, Bool.not_eq_false] at hset
  exact hset.1

/-- The records of refused names are no part of what has to agree. -/
theorem withDropped (h : Coherent project) (records : List Record) :
    Coherent { project with droppedGlobals := records } :=
  ⟨h.1, h.2, h.3, h.4, h.5⟩

theorem setGlobals (h : Coherent project) (globals : List (Text × Text)) :
    Coherent (project.setGlobals globals) := by
  rw [Project.setGlobals]
  refine withDropped (List.foldlRecOn globals _ h ?_) _
  intro before hbefore entry _
  exact hbefore.setGlobal entry.1 entry.2

theorem removeGlobal (h : Coherent project) (name : Text) : Coherent (project.removeGlobal name) := by
  rw [Project.removeGlobal]
  split
  · refine h.changeGlobal (fun other hne => Table.get?_erase_other _ hne) fun value hget => ?_
    rw [Table.get?_erase_self] at hget
    cases hget
  · exact h

/-! ## Assets -/

theorem changeAsset (h : Coherent project) {path : Text} {assets : NameSet}
    (hother : ∀ other, other ≠ path → (other ∈ assets ↔ other ∈ project.assets))
    (hvalid : path ∈ assets → Naming.isAssetPath path = true) :
    Coherent (invalidate { project with assets } (project.dependentsOfAsset path)) := by
  refine h.keep h.globals (fun other hmem => ?_) (fun id => by cases id <;> rfl) rfl
    fun id records hrecords => ?_
  · by_cases hpath : other = path
    · subst hpath
      exact hvalid hmem
    · exact h.assets other ((hother other hpath).mp hmem)
  · obtain ⟨hid, hold⟩ := not_mem_of_invalidate hrecords
    refine ⟨hold, fun template ht => ⟨fun _ _ => rfl, fun other hmem => ?_, fun _ _ => rfl, fun _ _ => rfl⟩⟩
    have hne : other ≠ path := by
      rintro rfl
      exact hid (Index.mem_dependentsOfAsset.mpr
        ⟨template.entry, h.entry ht, Template.mem_entry_assets.mpr hmem⟩)
    exact NameSet.contains_congr (hother other hne).symm

theorem addAsset (h : Coherent project) {path : Text} (hadd : project.addAsset path = .ok next) :
    Coherent next := by
  rw [Project.addAsset] at hadd
  split at hadd
  · cases hadd
  next hpath =>
  split at hadd
  · cases hadd
    exact h
  cases hadd
  refine h.changeAsset (fun other hne => ?_) fun _ => by simpa using hpath
  rw [NameSet.mem_insert, or_iff_right hne]

theorem removeAsset (h : Coherent project) (path : Text) : Coherent (project.removeAsset path) := by
  rw [Project.removeAsset]
  split
  · refine h.changeAsset (fun other hne => ?_) fun hmem => ?_
    · rw [NameSet.mem_erase, and_iff_left hne]
    · exact absurd rfl (NameSet.mem_erase.mp hmem).2
  · exact h

/-! ## Components and pages -/

variable {source : Text}

/-- Nothing is cached for a template that is not registered. -/
theorem not_cached (h : Coherent project) {id other : TemplateId} (hid : project.template? id = none)
    {records : List Record} (hrecords : project.cache.get? other = some records) : other ≠ id := by
  rintro rfl
  obtain ⟨template, ht, -⟩ := h.cache other records hrecords
  rw [hid] at ht
  cases ht

theorem add (h : Coherent project) (id : TemplateId) (hadd : project.add id source = .ok next) :
    Coherent next := by
  obtain ⟨hvalid, hnone, rfl⟩ := add_eq_ok hadd
  refine h.change ((changesOnly_withTemplate source hvalid).invalidate _) fun other records hrecords => ?_
  obtain ⟨hid, hold⟩ := not_mem_of_invalidate hrecords
  rw [cache_withTemplate] at hold
  exact ⟨hold, h.not_cached hnone hold, fun hpath => hid (mem_observers.mpr hpath)⟩

theorem update (h : Coherent project) (id : TemplateId) (hupdate : project.update id source = .ok next) :
    Coherent next := by
  obtain ⟨⟨template, ht⟩, rfl⟩ := update_eq_ok hupdate
  refine h.change ((changesOnly_withTemplate source (h.templates _ template ht)).invalidate _)
    fun other records hrecords => ?_
  obtain ⟨hid, hold⟩ := not_mem_of_invalidate hrecords
  rw [cache_withTemplate] at hold
  rw [TemplateSet.mem_insert, not_or] at hid
  exact ⟨hold, hid.1, fun hpath => hid.2 (mem_observers.mpr hpath)⟩

theorem remove (h : Coherent project) (id : TemplateId) (hremove : project.remove id = .ok next) :
    Coherent next := by
  rw [remove_eq_ok hremove]
  refine h.change ((changesOnly_withoutTemplate id).invalidate _) fun other records hrecords => ?_
  obtain ⟨hid, herased⟩ := not_mem_of_invalidate hrecords
  rw [cache_withoutTemplate] at herased
  obtain ⟨hne, hold⟩ := Table.of_get?_erase herased
  exact ⟨hold, hne, fun hpath => hid (mem_observers.mpr hpath)⟩

/-! ## Questions -/

theorem templateDiagnostics (h : Coherent project) (id : TemplateId) :
    Coherent (project.templateDiagnostics id).2 := by
  rw [Project.templateDiagnostics]
  split
  · exact ⟨h.1, h.2, h.3, h.4, h.5⟩
  split
  · exact h
  next template ht =>
  refine ⟨h.globals, h.assets, h.templates, h.index, fun other records hrecords => ?_⟩
  by_cases hother : other = id
  · subst hother
    rw [Table.get?_insert_self, Option.some.injEq] at hrecords
    exact ⟨template, ht, hrecords.symm⟩
  · rw [Table.get?_insert_other _ _ hother] at hrecords
    exact h.cache other records hrecords

theorem diagnosticsOf (h : Coherent project) (ids : List TemplateId) :
    Coherent (project.diagnosticsOf ids).2 := by
  induction ids generalizing project with
  | nil => exact h
  | cons id rest ih => exact ih (h.templateDiagnostics id)

/-! ## Histories -/

theorem empty (environment : Environment) (css js : Text) :
    Coherent { Project.empty with environment, css, js } := by
  refine ⟨fun name value hget => ?_, fun path hmem => ?_, fun id template ht => ?_, fun id => ?_,
    fun id records hrecords => ?_⟩
  · cases hget
  · exact absurd hmem (NameSet.not_mem_empty path)
  · cases id <;> cases ht
  · cases id <;> rfl
  · cases hrecords

theorem ofOptions {options : Options} (hmade : Project.ofOptions options = .ok project) :
    Coherent project :=
  ofOptions_keeps ((Coherent.empty _ _ _).setGlobals _)
    (fun _ _ _ h => h.addAsset) (fun _ name _ _ h => h.add (.component name)) (fun _ path _ _ h => h.add (.page path))
    hmade

/-- Every operation keeps a project coherent. -/
theorem attempt (h : Coherent project) {operation : Operation}
    (hattempt : project.attempt operation = .ok next) : Coherent next := by
  cases operation with
  | setEnvironment environment => cases hattempt; exact ⟨h.1, h.2, h.3, h.4, h.5⟩
  | setGlobals globals => cases hattempt; exact h.setGlobals globals
  | removeGlobal name => cases hattempt; exact h.removeGlobal name
  | addComponent name source => exact h.add (.component name) hattempt
  | updateComponent name source => exact h.update (.component name) hattempt
  | removeComponent name => exact h.remove (.component name) hattempt
  | addPage path source => exact h.add (.page path) hattempt
  | updatePage path source => exact h.update (.page path) hattempt
  | removePage path => exact h.remove (.page path) hattempt
  | addAsset path => exact h.addAsset hattempt
  | removeAsset path => cases hattempt; exact h.removeAsset path
  | setCss css => cases hattempt; exact ⟨h.1, h.2, h.3, h.4, h.5⟩
  | setJs js => cases hattempt; exact ⟨h.1, h.2, h.3, h.4, h.5⟩
  | reset options => exact Coherent.ofOptions hattempt
  | inspectTemplate id => cases hattempt; exact h.templateDiagnostics id
  | inspect => cases hattempt; exact h.diagnosticsOf _

theorem perform (h : Coherent project) (operation : Operation) :
    Coherent (project.perform operation) := by
  rw [Project.perform]
  split
  next next hattempt => exact h.attempt hattempt
  next => exact h

end Coherent

/-- **The cache is never stale.** Every project with a history has the index that its sources call for
and a cache of answers that would be worked out again. -/
theorem Reachable.coherent (h : Reachable project) : Coherent project := by
  induction h with
  | made hmade => exact Coherent.ofOptions hmade
  | next _ operation ih => exact ih.perform operation

end Sitewright.Project

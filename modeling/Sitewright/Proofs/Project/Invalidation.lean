import Sitewright.Proofs.Project.Preservation

/-!
The cache loses no more than it has to. An operation disturbs a template if the template refers to a
global or an asset that the operation changes, leads to the component that it changes, or is changed
itself. Each operation but `reset` takes the disturbed templates out of the cache and leaves the others
in it (`Coherent.attempt_drops`).

Includes are followed in the index after the change, but what disturbs is said about the index before.
The two differ in the changed template alone, and a chain that ends there can be cut where it first gets
there (`Index.transGen_of_entries`).
-/

namespace Sitewright

open Relation (TransGen)

namespace Index

theorem transGen_of_entries {index other : Index} {goal id : TemplateId}
    (hsame : ∀ id, id ≠ goal → index.entry? id = other.entry? id) (hid : id ≠ goal)
    (h : TransGen index.Edge id goal) : TransGen other.Edge id goal := by
  have hedge : ∀ id next, id ≠ goal → index.Edge id next → other.Edge id next := by
    rintro id next hne ⟨entry, name, hentry, hname, rfl⟩
    exact ⟨entry, name, (hsame id hne).symm.trans hentry, hname, rfl⟩
  induction h using TransGen.head_induction_on with
  | single hlast => exact .single (hedge _ _ hid hlast)
  | @head id next hfirst _ ih =>
    by_cases hnext : next = goal
    · exact .single (hnext ▸ hedge _ _ hid hfirst)
    · exact .head (hedge _ _ hid hfirst) (ih hnext)

end Index

namespace Project

variable {project next : Project} {name path source : Text}
variable {id : TemplateId} {ids : TemplateSet} {records : List Record}

/-! ## What an operation disturbs -/

/-- The index lists a global for a template. -/
def RefersToGlobal (project : Project) (id : TemplateId) (name : Text) : Prop :=
  ∃ entry, project.dependencies id = some entry ∧ name ∈ entry.globals

/-- The index lists an asset for a template. -/
def RefersToAsset (project : Project) (id : TemplateId) (path : Text) : Prop :=
  ∃ entry, project.dependencies id = some entry ∧ path ∈ entry.assets

/-- At some step of setting globals one after another, the stored value of a global becomes another. -/
def ChangesStored (project : Project) (globals : List (Text × Text)) (name : Text) : Prop :=
  ∃ before entry after, globals = before ++ entry :: after ∧
    (project.setGlobals before).globals.get? name ≠
      (project.setGlobals (before ++ [entry])).globals.get? name

/-- A template is a component or leads to it along includes. -/
def LeadsTo (project : Project) (id : TemplateId) (name : Text) : Prop :=
  id = .component name ∨ TransGen project.index.Edge id (.component name)

/-- The templates that can tell a project from what an operation makes of it. -/
def Disturbs (project : Project) : Operation → TemplateId → Prop
  | .setGlobals globals, id => ∃ name, project.ChangesStored globals name ∧ project.RefersToGlobal id name
  | .removeGlobal name, id => project.globals.contains name = true ∧ project.RefersToGlobal id name
  | .addComponent name _, id => project.LeadsTo id name
  | .updateComponent name _, id => project.LeadsTo id name
  | .removeComponent name, id => project.LeadsTo id name
  | .updatePage path _, id => id = .page path
  | .removePage path, id => id = .page path
  | .addAsset path, id => path ∉ project.assets ∧ project.RefersToAsset id path
  | .removeAsset path, id => path ∈ project.assets ∧ project.RefersToAsset id path
  | _, _ => False

/-- Settings, a new page, and globals that are set to the values they have. -/
def Quiet (project : Project) : Operation → Prop
  | .setEnvironment _ | .setCss _ | .setJs _ | .addPage _ _ => True
  | .setGlobals globals => ∀ entry ∈ globals, project.globals.get? entry.1 = some entry.2
  | _ => False

/-! ## What leaves the cache -/

theorem cache_invalidate_of_mem (h : id ∈ ids) : (project.invalidate ids).cache.get? id = none :=
  (Table.get?_eraseAll _ _ _).trans (if_pos (TemplateSet.mem_toList.mpr h))

theorem cache_invalidate_of_not_mem (h : id ∉ ids) :
    (project.invalidate ids).cache.get? id = project.cache.get? id :=
  (Table.get?_eraseAll _ _ _).trans (if_neg (mt TemplateSet.mem_toList.mp h))

/-- Exactly the templates with a property lose what is cached for them. -/
structure Drops (project next : Project) (Gone : TemplateId → Prop) : Prop where
  gone : ∀ id, Gone id → next.cache.get? id = none
  kept : ∀ id, ¬ Gone id → next.cache.get? id = project.cache.get? id

namespace Drops

variable {Gone Gone' : TemplateId → Prop}

theorem of_cache_eq (h : next.cache = project.cache) (hnone : ∀ id, ¬ Gone id) : Drops project next Gone :=
  ⟨fun id hid => absurd hid (hnone id), fun _ _ => by rw [h]⟩

theorem invalidate (h : next.cache = project.cache) {ids : TemplateSet} (hids : ∀ id, id ∈ ids ↔ Gone id) :
    Drops project (next.invalidate ids) Gone := by
  constructor
  · intro id hid
    exact cache_invalidate_of_mem ((hids id).mpr hid)
  · intro id hid
    rw [cache_invalidate_of_not_mem (mt (hids id).mp hid), h]

theorem trans {last : Project} (h : Drops project next Gone) (h' : Drops next last Gone') :
    Drops project last fun id => Gone id ∨ Gone' id := by
  constructor
  · intro id hid
    by_cases hlater : Gone' id
    · exact h'.gone id hlater
    · rw [h'.kept id hlater, h.gone id (hid.resolve_right hlater)]
  · intro id hid
    rw [not_or] at hid
    rw [h'.kept id hid.2, h.kept id hid.1]

theorem congr (h : Drops project next Gone) (hiff : ∀ id, Gone id ↔ Gone' id) : Drops project next Gone' :=
  ⟨fun id hid => h.gone id ((hiff id).mpr hid), fun id hid => h.kept id (mt (hiff id).mp hid)⟩

end Drops

/-! ## Globals -/

theorem index_setGlobal (value : Text) : (project.setGlobal name value).index = project.index := by
  rw [setGlobal]
  split <;> rfl

theorem refersToGlobal_setGlobal {other value : Text} :
    (project.setGlobal name value).RefersToGlobal id other ↔ project.RefersToGlobal id other := by
  simp only [RefersToGlobal, dependencies, index_setGlobal]

/-- One step drops the templates that refer to a global whose stored value it changes. -/
theorem drops_setGlobal (name value : Text) :
    Drops project (project.setGlobal name value) fun id => ∃ other,
      project.globals.get? other ≠ (project.setGlobal name value).globals.get? other ∧
        project.RefersToGlobal id other := by
  rw [setGlobal]
  split
  next =>
    refine .of_cache_eq rfl ?_
    rintro id ⟨other, hchanged, -⟩
    exact hchanged rfl
  next hset =>
    simp only [Bool.or_eq_true, not_or, decide_eq_true_eq] at hset
    refine .invalidate (by rfl) fun id => ?_
    show id ∈ project.index.dependentsOfGlobal name ↔ ∃ other,
      project.globals.get? other ≠ (project.globals.insert name value).get? other ∧
        project.RefersToGlobal id other
    rw [Index.mem_dependentsOfGlobal]
    constructor
    · intro hrefers
      exact ⟨name, by rw [Table.get?_insert_self]; exact hset.2, hrefers⟩
    · rintro ⟨other, hchanged, hrefers⟩
      rw [Table.get?_insert] at hchanged
      split at hchanged
      next heq => exact heq ▸ hrefers
      next => exact absurd rfl hchanged

theorem changesStored_cons {value other : Text} {rest : List (Text × Text)} :
    project.ChangesStored ((name, value) :: rest) other ↔
      project.globals.get? other ≠ (project.setGlobal name value).globals.get? other ∨
        (project.setGlobal name value).ChangesStored rest other := by
  constructor
  · rintro ⟨_ | ⟨first, before⟩, entry, after, heq, hchanged⟩
    · cases heq
      exact .inl hchanged
    · cases heq
      exact .inr ⟨before, entry, after, rfl, hchanged⟩
  · rintro (hchanged | ⟨before, entry, after, rfl, hchanged⟩)
    · exact ⟨[], (name, value), rest, rfl, hchanged⟩
    · exact ⟨(name, value) :: before, entry, after, rfl, hchanged⟩

theorem drops_foldl_setGlobal (globals : List (Text × Text)) :
    Drops project (globals.foldl (fun project (name, value) => project.setGlobal name value) project)
      fun id => ∃ name, project.ChangesStored globals name ∧ project.RefersToGlobal id name := by
  induction globals generalizing project with
  | nil => exact .of_cache_eq rfl fun id ⟨_, ⟨before, _, _, hnil, _⟩, _⟩ => by simp at hnil
  | cons entry rest ih =>
    obtain ⟨name, value⟩ := entry
    refine ((drops_setGlobal name value).trans ih).congr fun id => ?_
    simp only [changesStored_cons, refersToGlobal_setGlobal, or_and_right, exists_or]

theorem drops_setGlobals (globals : List (Text × Text)) :
    Drops project (project.setGlobals globals) (project.Disturbs (.setGlobals globals)) :=
  ⟨(drops_foldl_setGlobal globals).gone, (drops_foldl_setGlobal globals).kept⟩

theorem drops_removeGlobal (name : Text) :
    Drops project (project.removeGlobal name) (project.Disturbs (.removeGlobal name)) := by
  rw [removeGlobal]
  split
  next hcontains =>
    refine .invalidate (by rfl) fun id => ?_
    exact Index.mem_dependentsOfGlobal.trans (and_iff_right hcontains).symm
  next hcontains => exact .of_cache_eq rfl fun id hid => hcontains hid.1

/-- Values that are stored already change nothing. -/
theorem foldl_setGlobal_of_stored {globals : List (Text × Text)}
    (h : ∀ entry ∈ globals, project.globals.get? entry.1 = some entry.2) :
    globals.foldl (fun project (name, value) => project.setGlobal name value) project = project := by
  induction globals with
  | nil => rfl
  | cons entry rest ih =>
    obtain ⟨name, value⟩ := entry
    have hstored : project.globals.get? name = some value := h (name, value) List.mem_cons_self
    have hfirst : project.setGlobal name value = project := by simp [setGlobal, hstored]
    rw [List.foldl_cons]
    simp only [hfirst]
    exact ih fun other hother => h other (List.mem_cons_of_mem _ hother)

/-! ## Assets -/

theorem drops_addAsset (h : project.addAsset path = .ok next) :
    Drops project next (project.Disturbs (.addAsset path)) := by
  rw [addAsset] at h
  split at h
  · cases h
  split at h
  next hknown =>
    cases h
    exact .of_cache_eq rfl fun id hid => hid.1 (NameSet.contains_iff.mp hknown)
  next hnew =>
    cases h
    rw [NameSet.contains_iff] at hnew
    refine .invalidate (by rfl) fun id => ?_
    exact Index.mem_dependentsOfAsset.trans (and_iff_right hnew).symm

theorem drops_removeAsset (path : Text) :
    Drops project (project.removeAsset path) (project.Disturbs (.removeAsset path)) := by
  rw [removeAsset]
  split
  next hknown =>
    rw [NameSet.contains_iff] at hknown
    refine .invalidate (by rfl) fun id => ?_
    exact Index.mem_dependentsOfAsset.trans (and_iff_right hknown).symm
  next hunknown => exact .of_cache_eq rfl fun id hid => hunknown (NameSet.contains_iff.mpr hid.1)

/-! ## Components and pages -/

/-- Other templates lead to a changed one by the same includes, before the change and after. -/
theorem ChangesOnly.mem_observers {changed id : TemplateId} (hc : ChangesOnly project next changed)
    (hid : id ≠ changed) : id ∈ next.observers changed ↔ TransGen project.index.Edge id changed :=
  Project.mem_observers.trans ⟨Index.transGen_of_entries hc.entries hid,
    Index.transGen_of_entries (fun other hne => (hc.entries other hne).symm) hid⟩

/-- A changed template drops itself, unless nothing was cached for it, and what leads to it. -/
theorem ChangesOnly.drops {changed : TemplateId} {ids : TemplateSet} (hc : ChangesOnly project next changed)
    (hcache : ∀ id, id ≠ changed → next.cache.get? id = project.cache.get? id)
    (hids : ∀ id, id ≠ changed → (id ∈ ids ↔ id ∈ next.observers changed))
    (hself : changed ∈ ids ∨ next.cache.get? changed = none) :
    Drops project (next.invalidate ids) fun id => id = changed ∨ TransGen project.index.Edge id changed := by
  constructor
  · intro id hid
    by_cases hmem : id ∈ ids
    · exact cache_invalidate_of_mem hmem
    · rw [cache_invalidate_of_not_mem hmem]
      by_cases heq : id = changed
      · subst heq
        exact hself.resolve_left hmem
      · exact absurd ((hids id heq).mpr ((hc.mem_observers heq).mpr (hid.resolve_left heq))) hmem
  · intro id hid
    have hne : id ≠ changed := fun heq => hid (.inl heq)
    have hnot : id ∉ ids := fun hmem => hid (.inr ((hc.mem_observers hne).mp ((hids id hne).mp hmem)))
    rw [cache_invalidate_of_not_mem hnot, hcache id hne]

section

variable (changed : TemplateId)

theorem Coherent.drops_add (hcoherent : Coherent project) (h : project.add changed source = .ok next) :
    Drops project next fun id => id = changed ∨ TransGen project.index.Edge id changed := by
  obtain ⟨hvalid, hnone, rfl⟩ := add_eq_ok h
  refine (changesOnly_withTemplate source hvalid).drops (fun _ _ => by rw [cache_withTemplate]) (fun _ _ => Iff.rfl)
    (.inr ?_)
  -- nothing was cached for a template that was not there
  rw [cache_withTemplate]
  exact Option.eq_none_iff_forall_ne_some.mpr fun records hrecords => hcoherent.not_cached hnone hrecords rfl

theorem Coherent.drops_update (hcoherent : Coherent project) (h : project.update changed source = .ok next) :
    Drops project next fun id => id = changed ∨ TransGen project.index.Edge id changed := by
  obtain ⟨⟨template, ht⟩, rfl⟩ := update_eq_ok h
  refine (changesOnly_withTemplate source (hcoherent.templates _ template ht)).drops
    (fun _ _ => by rw [cache_withTemplate]) (fun id hid => ?_) (.inl (TemplateSet.mem_insert.mpr (.inl rfl)))
  rw [TemplateSet.mem_insert, or_iff_right hid]

theorem drops_remove (h : project.remove changed = .ok next) :
    Drops project next fun id => id = changed ∨ TransGen project.index.Edge id changed := by
  rw [remove_eq_ok h]
  refine (changesOnly_withoutTemplate changed).drops (fun id hid => ?_) (fun _ _ => Iff.rfl) (.inr ?_)
  · rw [cache_withoutTemplate, Table.get?_erase_other _ hid]
  · rw [cache_withoutTemplate, Table.get?_erase_self]

end

theorem cache_addPage (h : project.addPage path source = .ok next) : next.cache = project.cache := by
  obtain ⟨-, -, rfl⟩ := add_eq_ok (show project.add (.page path) source = .ok next from h)
  rfl

/-! ## Questions -/

theorem cached_templateDiagnostics {other : TemplateId} (h : project.cache.get? id = some records) :
    (project.templateDiagnostics other).2.cache.get? id = some records := by
  rw [templateDiagnostics]
  split
  next => exact h
  next hnone =>
    split
    next => exact h
    next =>
      have hne : id ≠ other := by
        rintro rfl
        rw [h] at hnone
        cases hnone
      exact (Table.get?_insert_other _ _ hne).trans h

theorem cached_diagnosticsOf (ids : List TemplateId) (h : project.cache.get? id = some records) :
    (project.diagnosticsOf ids).2.cache.get? id = some records := by
  induction ids generalizing project with
  | nil => exact h
  | cons first rest ih => exact ih (cached_templateDiagnostics h)

/-! ## All operations -/

/-- What is cached for a template goes if an operation disturbs it, and stays otherwise. -/
theorem Coherent.attempt_drops (hcoherent : Coherent project) {operation : Operation}
    (h : project.attempt operation = .ok next) (hreset : ∀ options, operation ≠ .reset options)
    (hcached : project.cache.get? id = some records) : (project.Disturbs operation id → next.cache.get? id = none) ∧
      (¬ project.Disturbs operation id → next.cache.get? id = some records) := by
  have hdrops (hall : Drops project next (project.Disturbs operation)) :
      (project.Disturbs operation id → next.cache.get? id = none) ∧
        (¬ project.Disturbs operation id → next.cache.get? id = some records) :=
    ⟨hall.gone id, fun hid => (hall.kept id hid).trans hcached⟩
  have hpage {path : Text} (id : TemplateId) : id = .page path ∨ TransGen project.index.Edge id (.page path) ↔
      id = .page path := or_iff_left not_transGen_page
  cases operation with
  | setEnvironment environment => cases h; exact ⟨False.elim, fun _ => hcached⟩
  | setGlobals globals => cases h; exact hdrops (drops_setGlobals globals)
  | removeGlobal name => cases h; exact hdrops (drops_removeGlobal name)
  | addComponent name source => exact hdrops (hcoherent.drops_add (.component name) h)
  | updateComponent name source => exact hdrops (hcoherent.drops_update (.component name) h)
  | removeComponent name => exact hdrops (drops_remove (.component name) h)
  | addPage path source => exact ⟨False.elim, fun _ => cache_addPage h ▸ hcached⟩
  | updatePage path source => exact hdrops ((hcoherent.drops_update (.page path) h).congr hpage)
  | removePage path => exact hdrops ((drops_remove (.page path) h).congr hpage)
  | addAsset path => exact hdrops (drops_addAsset h)
  | removeAsset path => cases h; exact hdrops (drops_removeAsset path)
  | setCss css => cases h; exact ⟨False.elim, fun _ => hcached⟩
  | setJs js => cases h; exact ⟨False.elim, fun _ => hcached⟩
  | reset options => exact absurd rfl (hreset options)
  | inspectTemplate other => cases h; exact ⟨False.elim, fun _ => cached_templateDiagnostics hcached⟩
  | inspect => cases h; exact ⟨False.elim, fun _ => cached_diagnosticsOf _ hcached⟩

theorem cache_of_quiet {operation : Operation} (h : project.attempt operation = .ok next)
    (hquiet : project.Quiet operation) : next.cache = project.cache := by
  cases operation with
  | setEnvironment | setCss | setJs => cases h; rfl
  | addPage path source => exact cache_addPage h
  | setGlobals globals =>
    cases h
    show (globals.foldl _ project).cache = project.cache
    rw [foldl_setGlobal_of_stored hquiet]
  | _ => exact hquiet.elim

/-- **Nothing is dropped without need.** An operation that succeeds and is no reset drops what is cached for
a template exactly if it disturbs that template: by changing the stored value of a global that the template
refers to, by changing a component that the template is or leads to along includes, by changing the page
that it is, or by changing whether an asset that it refers to is there. Settings, new pages, and globals set
to the values they have, leave the cache as it is. -/
theorem invalidation_tight (h : project.Reachable) {operation : Operation}
    (hattempt : project.attempt operation = .ok next) (hreset : ∀ options, operation ≠ .reset options) :
    (∀ id records, project.cache.get? id = some records →
      (¬ project.Disturbs operation id → next.cache.get? id = some records) ∧
      (project.Disturbs operation id → next.cache.get? id = none)) ∧
    (project.Quiet operation → next.cache = project.cache) := by
  refine ⟨fun id records hcached => ?_, cache_of_quiet hattempt⟩
  obtain ⟨hgone, hkept⟩ := h.coherent.attempt_drops hattempt hreset hcached
  exact ⟨hkept, hgone⟩

/-- Three components, each including the one before, a page for the second and a page for none of them, all
with their problems in the cache. -/
def ladder : Project :=
  Project.empty.run
    [.addComponent "a".toList "x".toList,
      .addComponent "b".toList "<include component=\"a\"/>".toList,
      .addComponent "c".toList "<include component=\"b\"/>".toList,
      .addPage "/b".toList "<include component=\"b\"/>".toList,
      .addPage "/".toList "<p>x</p>".toList, .inspect]

/-- A new source for the second component drops it, the third and the first page, and keeps the first
component and the other page. -/
theorem invalidation_tight_of_ladder :
    ladder.Reachable ∧
      ∃ next, ladder.attempt (.updateComponent "b".toList "y".toList) = .ok next ∧
        (∀ id ∈ [TemplateId.component "b".toList, .component "c".toList, .page "/b".toList],
          ladder.Disturbs (.updateComponent "b".toList "y".toList) id ∧
            (ladder.cache.get? id).isSome = true ∧ next.cache.get? id = none) ∧
        ∀ id ∈ [TemplateId.component "a".toList, .page "/".toList],
          ¬ ladder.Disturbs (.updateComponent "b".toList "y".toList) id ∧
            (next.cache.get? id).isSome = true := by
  have hreachable : ladder.Reachable := reachable_run_empty _
  have hfacts : (ladder.attempt (.updateComponent "b".toList "y".toList)).isOk = true ∧
      (∀ id ∈ [TemplateId.component "b".toList, .component "c".toList, .page "/b".toList],
        (id = .component "b".toList ∨ id ∈ ladder.dependentsOfComponent "b".toList) ∧
          (ladder.cache.get? id).isSome = true) ∧
      ∀ id ∈ [TemplateId.component "a".toList, .page "/".toList],
        ¬ (id = .component "b".toList ∨ id ∈ ladder.dependentsOfComponent "b".toList) ∧
          (ladder.cache.get? id).isSome = true := by
    decide +kernel
  obtain ⟨hok, hgone, hkept⟩ := hfacts
  have hdisturbs (id : TemplateId) : ladder.Disturbs (.updateComponent "b".toList "y".toList) id ↔
      id = .component "b".toList ∨ id ∈ ladder.dependentsOfComponent "b".toList :=
    or_congr_right Index.mem_dependentsOfComponent.symm
  cases hattempt : ladder.attempt (.updateComponent "b".toList "y".toList) with
  | error error => rw [hattempt] at hok; cases hok
  | ok next =>
    obtain ⟨htight, -⟩ := invalidation_tight hreachable hattempt fun _ heq => by cases heq
    refine ⟨hreachable, next, rfl, fun id hid => ?_, fun id hid => ?_⟩
    · obtain ⟨hleads, hcached⟩ := hgone id hid
      obtain ⟨records, hrecords⟩ := Option.isSome_iff_exists.mp hcached
      have hid := (hdisturbs id).mpr hleads
      exact ⟨hid, hcached, (htight id records hrecords).2 hid⟩
    · obtain ⟨hleads, hcached⟩ := hkept id hid
      obtain ⟨records, hrecords⟩ := Option.isSome_iff_exists.mp hcached
      have hid := mt (hdisturbs id).mp hleads
      exact ⟨hid, by rw [(htight id records hrecords).1 hid]; rfl⟩

end Project

end Sitewright

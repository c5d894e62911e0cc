import Sitewright.Proofs.Project.Refusal
import Sitewright.Project.Script

/-!
A project answers like one that is made anew from what it holds. Its snapshot is what can be read off
it: settings, globals, sources and assets, in their order. Making a project from the snapshot of a
coherent one succeeds and gives the same snapshot (`Coherent.rebuild`), and two coherent projects with
the same snapshot agree on every question (`Coherent.sameAnswers`): the order in which the index was
filled and what the cache happens to hold cannot be seen.
-/

namespace Sitewright.Project

open Relation (TransGen ReflTransGen)

variable {project other : Project}

/-- What a project would be made from. -/
def snapshot (project : Project) : Options :=
  ⟨project.environment, project.globals, project.components.entries, project.pages.entries,
    project.assets.toList, project.css, project.js⟩

/-! ## Making a project from its snapshot -/

theorem not_mem_before {all before after : List (Text × Text)} {entry : Text × Text}
    (hnodup : (all.map Prod.fst).Nodup) (hall : all = before ++ entry :: after) :
    entry.1 ∉ before.map Prod.fst := by
  rw [hall, List.map_append, List.map_cons, List.nodup_append] at hnodup
  exact fun hmem => hnodup.2.2 _ hmem _ List.mem_cons_self rfl

section Rebuild

variable {environment : Environment} {globals : Table Text Text} {components pages : List (Text × Text)}
variable {assets : List Text} {css js : Text}

theorem snapshot_setGlobal {name : Text} (value : Text) (hvalid : Naming.isGlobalName name = true)
    (hnew : globals.get? name = none)
    (h : project.snapshot = ⟨environment, globals, components, pages, assets, css, js⟩) :
    (project.setGlobal name value).snapshot =
      ⟨environment, globals.insert name value, components, pages, assets, css, js⟩ := by
  have hglobals : project.globals = globals := congrArg Options.globals h
  have hset : project.setGlobal name value =
      invalidate { project with globals := globals.insert name value }
        (project.dependentsOfGlobal name) := by
    simp [setGlobal, hvalid, hglobals, hnew]
  rw [hset]
  cases h
  rfl

theorem snapshot_foldl_setGlobal {entries : List (Text × Text)}
    (hvalid : ∀ entry ∈ entries, Naming.isGlobalName entry.1 = true)
    (hnodup : ((globals.entries ++ entries).map Prod.fst).Nodup)
    (h : project.snapshot = ⟨environment, globals, components, pages, assets, css, js⟩) :
    ∃ table : Table Text Text, table.entries = globals.entries ++ entries ∧
      (entries.foldl (fun project (name, value) => project.setGlobal name value) project).snapshot =
        ⟨environment, table, components, pages, assets, css, js⟩ := by
  induction entries generalizing project globals with
  | nil => exact ⟨globals, by simp, h⟩
  | cons entry rest ih =>
    obtain ⟨name, value⟩ := entry
    have hnew : globals.get? name = none := Table.not_mem_keys.mp (not_mem_before hnodup rfl)
    have hentries := Table.entries_insert_new value hnew
    obtain ⟨table, htable, hsnapshot⟩ := ih
      (fun entry hmem => hvalid entry (List.mem_cons_of_mem _ hmem)) (by rw [hentries]; simpa using hnodup)
      (snapshot_setGlobal value (hvalid _ List.mem_cons_self) hnew h)
    exact ⟨table, by rw [htable, hentries, List.append_assoc, List.singleton_append], hsnapshot⟩

end Rebuild

/-- The name and the source of a component. -/
def componentEntry? : Registration → Option (Text × Text)
  | .component name source => some (name, source)
  | _ => none

/-- The path and the source of a page. -/
def pageEntry? : Registration → Option (Text × Text)
  | .page path source => some (path, source)
  | _ => none

/-- A project holds what another one does, and some entries besides. -/
structure Registers (project : Project) (entries : List Registration) (next : Project) : Prop where
  settings : (next.environment, next.globals, next.css, next.js) =
    (project.environment, project.globals, project.css, project.js)
  components : next.components.entries = project.components.entries ++ entries.filterMap componentEntry?
  pages : next.pages.entries = project.pages.entries ++ entries.filterMap pageEntry?
  assets : ∀ path, path ∈ next.assets ↔ path ∈ project.assets ∨ .asset path ∈ entries

theorem registers_of_register {entry : Registration} (h : project.register entry = .ok other) :
    project.Registers [entry] other := by
  cases entry with
  | asset path =>
    rw [register, addAsset] at h
    split at h
    · cases h
    split at h
    next hmem =>
      cases h
      refine ⟨rfl, (List.append_nil _).symm, (List.append_nil _).symm, fun asset => ?_⟩
      rw [List.mem_singleton, Registration.asset.injEq]
      exact (or_iff_left_of_imp fun heq => heq ▸ NameSet.contains_iff.mp hmem).symm
    next =>
      cases h
      refine ⟨rfl, (List.append_nil _).symm, (List.append_nil _).symm, fun asset => ?_⟩
      rw [List.mem_singleton, Registration.asset.injEq, or_comm]
      exact NameSet.mem_insert
  | component name source =>
    obtain ⟨-, hnew, rfl⟩ := add_eq_ok (show project.add (.component name) source = .ok other from h)
    exact ⟨rfl, Table.entries_insert_new source (Option.map_eq_none_iff.mp hnew), (List.append_nil _).symm,
      fun asset => (or_iff_left (by simp)).symm⟩
  | page path source =>
    obtain ⟨-, hnew, rfl⟩ := add_eq_ok (show project.add (.page path) source = .ok other from h)
    exact ⟨rfl, (List.append_nil _).symm, Table.entries_insert_new source (Option.map_eq_none_iff.mp hnew),
      fun asset => (or_iff_left (by simp)).symm⟩

theorem registers_of_foldlM {entries : List Registration} (h : entries.foldlM register project = .ok other) :
    project.Registers entries other := by
  induction entries generalizing project with
  | nil =>
    cases h
    exact ⟨rfl, (List.append_nil _).symm, (List.append_nil _).symm, fun asset => by simp⟩
  | cons entry rest ih =>
    rw [List.foldlM_cons, bind_eq_ok] at h
    obtain ⟨mid, hentry, hrest⟩ := h
    have hfirst := registers_of_register hentry
    have hthen := ih hrest
    refine ⟨hthen.settings.trans hfirst.settings, ?_, ?_, fun asset => ?_⟩
    · rw [hthen.components, hfirst.components, List.append_assoc, ← List.filterMap_append, List.singleton_append]
    · rw [hthen.pages, hfirst.pages, List.append_assoc, ← List.filterMap_append, List.singleton_append]
    · rw [hthen.assets, hfirst.assets, or_assoc, List.mem_singleton, List.mem_cons]

/-- Everything in a coherent project can be registered again, in the same order. -/
theorem Coherent.rebuild (h : Coherent project) :
    ∃ rebuilt, Project.ofOptions project.snapshot = .ok rebuilt ∧
      rebuilt.snapshot = project.snapshot := by
  have hacceptable : project.snapshot.Acceptable :=
    ⟨fun path hpath => h.assets path (NameSet.mem_toList.mp hpath),
      fun entry hmem => h.valid_component (Table.mem_entries.mp hmem),
      fun entry hmem => h.valid_page (Table.mem_entries.mp hmem), project.components.nodup, project.pages.nodup⟩
  obtain ⟨rebuilt, hrebuilt⟩ := ofOptions_ok_iff.mpr hacceptable
  refine ⟨rebuilt, hrebuilt, ?_⟩
  rw [ofOptions_eq_foldlM] at hrebuilt
  obtain ⟨hsettings, hcomponents, hpages, hassets⟩ := registers_of_foldlM hrebuilt
  -- before the first entry there are the settings and globals
  let start : Project :=
    { Project.empty with environment := project.environment, css := project.css, js := project.js }
  have hstart : start.snapshot = ⟨project.environment, ∅, [], [], [], project.css, project.js⟩ := rfl
  obtain ⟨globals, hentries, hbare⟩ := @snapshot_foldl_setGlobal start _ ∅ _ _ _ _ _ project.globals.entries
    (fun entry hmem => h.globals entry.1 entry.2 (Table.mem_entries.mp hmem)) project.globals.nodup hstart
  have hsame : globals = project.globals := Table.ext_entries hentries
  subst hsame
  have hbare : (bare project.snapshot).snapshot =
      ⟨project.environment, project.globals, [], [], [], project.css, project.js⟩ := hbare
  simp only [snapshot, Options.mk.injEq] at hbare
  simp only [Prod.mk.injEq] at hsettings
  have hsame : rebuilt.assets = project.assets := NameSet.ext fun path => by
    rw [hassets]
    simp [← NameSet.mem_toList, hbare, Options.registrations, snapshot]
  rw [snapshot, hsettings.1]
  simp [hsettings, hbare, hcomponents, hpages, hsame, snapshot, Options.registrations, List.filterMap_map,
    Function.comp_def, componentEntry?, pageEntry?]

/-! ## What can be asked -/

/-- Two projects that give the same answers. -/
structure SameAnswers (project other : Project) : Prop where
  diagnostics : ∀ id, (project.templateDiagnostics id).1 = (other.templateDiagnostics id).1
  dependencies : ∀ id, project.dependencies id = other.dependencies id
  dependentsOfGlobal : ∀ name, project.dependentsOfGlobal name = other.dependentsOfGlobal name
  dependentsOfComponent : ∀ name, project.dependentsOfComponent name = other.dependentsOfComponent name
  dependentsOfAsset : ∀ path, project.dependentsOfAsset path = other.dependentsOfAsset path
  key : ∀ id, project.key? id = other.key? id
  render : ∀ path, project.render path = other.render path
  stylesheet : project.stylesheet = other.stylesheet
  script : project.script = other.script

/-- An index is asked for entries alone, in no order. -/
theorem edge_congr {index index' : Index} (h : ∀ id, index.entry? id = index'.entry? id) :
    index.Edge = index'.Edge := by
  funext id other
  simp only [Index.Edge, h]

/-- Everything but the index, the cache and what is kept for reports can be read off the snapshot. -/
theorem eq_of_snapshot (h : project.snapshot = other.snapshot) :
    other = { project with
      droppedGlobals := other.droppedGlobals, index := other.index, cache := other.cache
      stats := other.stats } := by
  simp only [snapshot, Options.mk.injEq] at h
  obtain ⟨henvironment, hglobals, hcomponents, hpages, hassets, hcss, hjs⟩ := h
  have hassets : project.assets = other.assets := NameSet.ext fun path => by
    rw [← NameSet.mem_toList, hassets, NameSet.mem_toList]
  rw [henvironment, hglobals, Table.ext_entries hcomponents, Table.ext_entries hpages, hassets, hcss, hjs]

/-- What a coherent project answers is settled by its snapshot. -/
theorem Coherent.sameAnswers (h : Coherent project) (h' : Coherent other)
    (hsnapshot : project.snapshot = other.snapshot) : SameAnswers project other := by
  have hother := eq_of_snapshot hsnapshot
  have htemplate : ∀ id, project.template? id = other.template? id := fun id => by
    rw [hother]
    cases id <;> rfl
  have hindex : ∀ id, project.index.entry? id = other.index.entry? id := fun id => by
    rw [h.index, h'.index, htemplate]
  have hedge := edge_congr hindex
  have hcompute : ∀ template, project.computeDiagnostics template = other.computeDiagnostics template :=
    fun template => computeDiagnostics_congr
      ⟨fun _ _ => by rw [hother], fun _ _ => by rw [hother], fun _ _ => by rw [hother], fun _ _ =>
        Index.findCycle_congr fun _ _ => by rw [Index.included, Index.included, hindex]⟩
  refine ⟨fun id => ?_, hindex, fun name => ?_, fun name => ?_, fun path => ?_, fun id => ?_,
    fun path => ?_, ?_, ?_⟩
  · cases ht : project.template? id with
    | none =>
      rw [h.templateDiagnostics_unknown ht, h'.templateDiagnostics_unknown ((htemplate id).symm.trans ht)]
    | some template =>
      rw [h.templateDiagnostics_eq ht, h'.templateDiagnostics_eq ((htemplate id).symm.trans ht), hcompute]
  · refine TemplateSet.ext fun id => ?_
    simp only [dependentsOfGlobal, Index.mem_dependentsOfGlobal, hindex]
  · refine TemplateSet.ext fun id => ?_
    simp only [dependentsOfComponent, Index.mem_dependentsOfComponent, hedge]
  · refine TemplateSet.ext fun id => ?_
    simp only [dependentsOfAsset, Index.mem_dependentsOfAsset, hindex]
  · rw [hother]
    cases id <;> rfl
  · rw [hother]
    rfl
  · rw [hother]
    rfl
  · rw [hother]
    rfl

/-! ## History -/

/-- **History does not matter.** After any operations on a project made from options, refused ones and
questions among them, the snapshot of the project can be made into a project again, and that project
gives the same answers. -/
theorem history_independent {options : Options} {start : Project} (h : ofOptions options = .ok start)
    (operations : List Operation) :
    ∃ rebuilt, ofOptions (start.run operations).snapshot = .ok rebuilt ∧
      SameAnswers (start.run operations) rebuilt := by
  have hcoherent := ((Reachable.made h).run operations).coherent
  obtain ⟨rebuilt, hrebuilt, hsnapshot⟩ := hcoherent.rebuild
  exact ⟨rebuilt, hrebuilt, hcoherent.sameAnswers (Coherent.ofOptions hrebuilt) hsnapshot.symm⟩

/-- A component that loses the other half of its cycle after its problems were asked for. -/
theorem history_independent_of_broken_cycle :
    ofOptions Options.empty = .ok Project.empty ∧
      ∃ rebuilt, ofOptions (Project.empty.run
          [.addComponent "a".toList "<include component=\"b\"/>".toList,
            .addComponent "b".toList "<include component=\"a\"/>".toList,
            .inspectTemplate (.component "a".toList), .addComponent "b".toList [],
            .removeComponent "b".toList]).snapshot = .ok rebuilt ∧
        SameAnswers (Project.empty.run
          [.addComponent "a".toList "<include component=\"b\"/>".toList,
            .addComponent "b".toList "<include component=\"a\"/>".toList,
            .inspectTemplate (.component "a".toList), .addComponent "b".toList [],
            .removeComponent "b".toList]) rebuilt := by
  have hmade : ofOptions Options.empty = .ok Project.empty := rfl
  exact ⟨hmade, history_independent hmade _⟩

end Sitewright.Project

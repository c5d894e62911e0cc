import Sitewright.Proofs.Project.Preservation
import Sitewright.Proofs.Render.Comparison
import Sitewright.Proofs.Render.Placement

/-!
The index knows all that can change how a page looks. A rendering of a page asks only for components
that a frame of it names, and these the page leads to in the graph of includes; likewise for assets. So
two projects that differ only in what the page does not lead to are sites that agree on every frame of it
(`render_eq_of_agrees`).
-/

namespace Sitewright.Project

open Relation (TransGen ReflTransGen)

variable {project next : Project} {path name source : Text} {id : TemplateId} {template : Template}
variable {asset : Text}

/-- A page looks the same in a project that agrees on every frame of it. -/
theorem render_eq_of_agrees (hpages : next.pages = project.pages)
    (hagrees : ∀ frame, project.Placed (.page path) frame →
      project.site.Agrees next.site frame.compiled.template) :
    next.render path = project.render path := by
  have hpage : next.page? path = project.page? path := by rw [page?, page?, hpages]
  rw [render, render, hpage]
  cases htemplate : project.page? path with
  | none => rfl
  | some page =>
    have hplaced : project.Placed (.page path) (Frame.outermost page) := placed_outermost htemplate
    have hframe := Site.renderFrame_congr ⟨hagrees, fun _ _ hframe => hframe.opens⟩ hplaced
    simp only [Site.render, hframe]

/-- The page and the components that the index has it depend on. -/
def Region (project : Project) (path : Text) (id : TemplateId) : Prop :=
  id = .page path ∨ ∃ name, id = .component name ∧ .page path ∈ project.dependentsOfComponent name

theorem Placed.region (h : Coherent project) {frame : Frame} (hframe : project.Placed (.page path) frame) :
    project.Region path frame.compiled.template.id := by
  rcases Relation.reflTransGen_iff_eq_or_transGen.mp hframe.reached with heq | hpath
  · exact .inl heq
  · obtain ⟨_, -, _, name, -, -, hid⟩ := TransGen.tail'_iff.mp hpath
    refine .inr ⟨name, hid, Index.mem_dependentsOfComponent.mpr ?_⟩
    rw [h.edge_eq_includes, ← hid]
    exact hpath

/-! ## Keys -/

theorem key_eq_of_position (henvironment : next.environment = project.environment)
    (hposition : next.position? id = project.position? id) : next.key id = project.key id := by
  rw [key, key, key?, key?, hposition, henvironment]

theorem position?_insert_component (hpages : next.pages = project.pages)
    (hcomponents : next.components = project.components.insert name source)
    (htemplate : project.template? id = some template) : next.position? id = project.position? id := by
  cases id with
  | page path => rw [position?, position?, hpages]
  | component other =>
    obtain ⟨_, hget, -⟩ := Option.map_eq_some_iff.mp htemplate
    rw [position?, position?, hcomponents]
    exact Table.position?_insert_of_mem source (Table.mem_keys.mpr ⟨_, hget⟩)

theorem key_of_development (h : project.environment = .development) (id : TemplateId) :
    project.key id = id.developmentKey := by
  rw [key, key?, h]
  cases project.position? id <;> rfl

/-! ## Components -/

/-- Two projects that have everything but their components in common. -/
structure SameBeside (project next : Project) : Prop where
  environment : next.environment = project.environment
  globals : next.globals = project.globals
  assets : next.assets = project.assets
  pages : next.pages = project.pages

theorem render_eq_of_component (h : Coherent project) (hsame : SameBeside project next)
    (hcomponents : ∀ other, other ≠ name → next.components.get? other = project.components.get? other)
    (hkeys : ∀ id template, project.template? id = some template → next.key id = project.key id)
    (hnot : .page path ∉ project.dependentsOfComponent name) :
    next.render path = project.render path := by
  refine render_eq_of_agrees hsame.pages fun frame hframe => ?_
  refine ⟨fun _ _ other _ => congrArg (Table.get? · other) hsame.globals.symm, hsame.environment.symm,
    (hkeys _ _ hframe.registered).symm, ?_, fun _ _ => ?_⟩
  · intro other hother
    have hedge : project.Includes frame.compiled.template.id (.component other) :=
      ⟨_, _, hframe.registered, hother, rfl⟩
    have hne : other ≠ name := by
      rintro rfl
      refine hnot (Index.mem_dependentsOfComponent.mpr ?_)
      rw [h.edge_eq_includes]
      exact .tail' hframe.reached hedge
    simp only [get?_site_components, template?, component?, hcomponents other hne]
  · exact congrArg (NameSet.contains · _) hsame.assets.symm

theorem render_eq_of_insert (h : Coherent project) (hsame : SameBeside project next)
    (hcomponents : next.components = project.components.insert name source)
    (hnot : .page path ∉ project.dependentsOfComponent name) :
    next.render path = project.render path := by
  refine render_eq_of_component h hsame ?_ ?_ hnot
  · intro other hne
    rw [hcomponents, Table.get?_insert_other _ _ hne]
  · intro id template htemplate
    exact key_eq_of_position hsame.environment
      (position?_insert_component hsame.pages hcomponents htemplate)

theorem render_perform_addComponent (h : Coherent project)
    (hnot : .page path ∉ project.dependentsOfComponent name) (source : Text) :
    (project.perform (.addComponent name source)).render path = project.render path := by
  rw [perform]
  split
  next next hadd =>
    simp only [attempt, addComponent] at hadd
    split at hadd
    · cases hadd
    split at hadd
    · cases hadd
    cases hadd
    exact render_eq_of_insert h ⟨rfl, rfl, rfl, rfl⟩ rfl hnot
  next => rfl

theorem render_perform_updateComponent (h : Coherent project)
    (hnot : .page path ∉ project.dependentsOfComponent name) (source : Text) :
    (project.perform (.updateComponent name source)).render path = project.render path := by
  rw [perform]
  split
  next next hupdate =>
    simp only [attempt, updateComponent] at hupdate
    split at hupdate
    · cases hupdate
      exact render_eq_of_insert h ⟨rfl, rfl, rfl, rfl⟩ rfl hnot
    · cases hupdate
  next => rfl

theorem render_perform_removeComponent (h : Coherent project)
    (hnot : .page path ∉ project.dependentsOfComponent name)
    (hdevelopment : project.environment = .development) :
    (project.perform (.removeComponent name)).render path = project.render path := by
  rw [perform]
  split
  next next hremove =>
    simp only [attempt, removeComponent] at hremove
    split at hremove
    · cases hremove
      refine render_eq_of_component h ⟨rfl, rfl, rfl, rfl⟩
        (fun other hne => Table.get?_erase_other _ hne) ?_ hnot
      intro id template _
      rw [key_of_development hdevelopment, key_of_development]
      exact hdevelopment
    · cases hremove
  next => rfl

/-! ## Assets -/

theorem render_eq_of_asset (h : Coherent project) {assets : NameSet} {cache : Table TemplateId (List Record)}
    (hassets : ∀ other, other ≠ asset → (other ∈ assets ↔ other ∈ project.assets))
    (hnot : ∀ id, project.Region path id → id ∉ project.dependentsOfAsset asset) :
    Project.render { project with assets, cache } path = project.render path := by
  refine render_eq_of_agrees rfl fun frame hframe => ?_
  refine ⟨fun _ _ _ _ => rfl, rfl, ?_, fun _ _ => rfl, ?_⟩
  · exact (key_eq_of_position rfl (by cases frame.compiled.template.id <;> rfl)).symm
  · intro other hother
    have hne : other ≠ asset := by
      rintro rfl
      refine hnot _ (hframe.region h) (Index.mem_dependentsOfAsset.mpr ?_)
      exact ⟨_, h.entry hframe.registered, Template.mem_entry_assets.mpr hother⟩
    exact NameSet.contains_congr (hassets other hne).symm

theorem render_perform_addAsset (h : Coherent project)
    (hnot : ∀ id, project.Region path id → id ∉ project.dependentsOfAsset asset) :
    (project.perform (.addAsset asset)).render path = project.render path := by
  rw [perform]
  split
  next next hadd =>
    simp only [attempt, addAsset] at hadd
    split at hadd
    · cases hadd
    split at hadd
    · cases hadd
      rfl
    cases hadd
    refine render_eq_of_asset h (fun other hne => ?_) hnot
    rw [NameSet.mem_insert, or_iff_right hne]
  next => rfl

theorem render_perform_removeAsset (h : Coherent project)
    (hnot : ∀ id, project.Region path id → id ∉ project.dependentsOfAsset asset) :
    (project.perform (.removeAsset asset)).render path = project.render path := by
  show (project.removeAsset asset).render path = project.render path
  rw [removeAsset]
  split
  · refine render_eq_of_asset h (fun other hne => ?_) hnot
    rw [NameSet.mem_erase, and_iff_left hne]
  · rfl

/-- **What the index does not have a page depend on cannot change how the page looks.** A component that
the page is no dependent of can be registered and replaced, and in development also removed; an asset that
neither the page nor a component it depends on refers to can be registered and removed. The rendering
stays the same, markup and problems. -/
theorem render_unaffected (h : project.Reachable) (path : Text) :
    (∀ name, .page path ∉ project.dependentsOfComponent name →
      (∀ source,
        (project.perform (.addComponent name source)).render path = project.render path ∧
        (project.perform (.updateComponent name source)).render path = project.render path) ∧
      (project.environment = .development →
        (project.perform (.removeComponent name)).render path = project.render path)) ∧
    ∀ asset, (∀ id, project.Region path id → id ∉ project.dependentsOfAsset asset) →
      (project.perform (.addAsset asset)).render path = project.render path ∧
      (project.perform (.removeAsset asset)).render path = project.render path := by
  have hcoherent := h.coherent
  refine ⟨fun name hnot => ⟨fun source => ⟨?_, ?_⟩, ?_⟩, fun asset hnot => ⟨?_, ?_⟩⟩
  · exact render_perform_addComponent hcoherent hnot source
  · exact render_perform_updateComponent hcoherent hnot source
  · exact render_perform_removeComponent hcoherent hnot
  · exact render_perform_addAsset hcoherent hnot
  · exact render_perform_removeAsset hcoherent hnot

/-- A project with a page that leads to one component, and a second component that leads to the first. -/
def neighbours : Project :=
  Project.empty.run
    [.addComponent "a".toList "<p>{{ x }}</p>".toList,
      .addComponent "b".toList "<include component=\"a\"/><include asset=\"/assets/x\"/>".toList,
      .addPage "/".toList "<include component=\"a\"/><include component=\"c\"/>".toList]

/-- The second component and the asset that it refers to do not concern the page. -/
theorem render_unaffected_by_neighbours :
    neighbours.Reachable ∧ .page "/".toList ∉ neighbours.dependentsOfComponent "b".toList ∧
      (∀ source, (neighbours.perform (.updateComponent "b".toList source)).render "/".toList =
        neighbours.render "/".toList) ∧
      (neighbours.perform (.removeComponent "b".toList)).render "/".toList =
        neighbours.render "/".toList ∧
      (neighbours.perform (.addAsset "/assets/x".toList)).render "/".toList =
        neighbours.render "/".toList := by
  have hreachable : neighbours.Reachable := reachable_run_empty _
  have hcomponent : TemplateId.page "/".toList ∉ neighbours.dependentsOfComponent "b".toList := by
    decide +kernel
  have hasset : ∀ id, neighbours.Region "/".toList id →
      id ∉ neighbours.dependentsOfAsset "/assets/x".toList := by
    have honly : neighbours.dependentsOfAsset "/assets/x".toList = .ofList [.component "b".toList] := by
      decide +kernel
    rw [honly]
    intro id hregion hid
    rw [TemplateSet.mem_ofList, List.mem_singleton] at hid
    subst hid
    rcases hregion with hpage | ⟨name, hname, hdependent⟩
    · cases hpage
    · cases hname
      exact hcomponent hdependent
  obtain ⟨hcomponents, hassets⟩ := render_unaffected hreachable "/".toList
  have hunaffected := hcomponents "b".toList hcomponent
  exact ⟨hreachable, hcomponent, fun source => (hunaffected.1 source).2, hunaffected.2 rfl,
    (hassets _ hasset).1⟩

end Sitewright.Project

import Sitewright.Proofs.Dependency.Circuit
import Sitewright.Proofs.Project.Preservation
import Sitewright.Proofs.Render.Comparison
import Sitewright.Proofs.Render.Placement

/-!
Problems with dependencies are known before rendering. Rendering decides on an include by the chain of
its frame, asking for the problems of a template by its list of includes and a search in the index. Both
find the same unknown components and assets, at the same place and in the same words; and a circle in the
chain of a frame is one on which the search finds a cycle.
-/

namespace Sitewright.Project

open Relation (TransGen ReflTransGen)
open Template (Include Problem)

variable {project : Project} {template : Template}

/-! ## Problems of includes -/

theorem mem_computeDiagnostics {problem : Diagnostic TemplateCategory}
    (h : problem ∈ project.contextProblems template) :
    problem.toRecord (some template.id.name) ∈ project.computeDiagnostics template :=
  List.mem_append_right _ (List.mem_map_of_mem h)

theorem mem_of_includeProblem? {included : Include} {problem : Diagnostic TemplateCategory}
    (hmem : included ∈ template.includes) (h : project.includeProblem? included = some problem) :
    problem.toRecord (some template.id.name) ∈ project.computeDiagnostics template := by
  have hproblem := List.mem_filterMap.mpr ⟨included, hmem, h⟩
  exact mem_computeDiagnostics
    (List.mem_append_left _ (List.mem_append_left _ (List.mem_append_left _ hproblem)))

/-- A component on a cycle of includes has a record of a cycle. -/
theorem Coherent.exists_cycle_record (h : Coherent project) {name : Text}
    (htemplate : project.template? (.component name) = some template)
    (hcycle : TransGen project.Includes (.component name) (.component name)) :
    ∃ cycle range, ((Problem.circularInclude cycle).located range).toRecord (some template.id.name) ∈
      project.computeDiagnostics template := by
  rw [← h.edge_eq_includes] at hcycle
  obtain ⟨cycle, hfind⟩ := Index.exists_findCycle hcycle
  obtain ⟨first, hfirst, hsecond⟩ := Index.findCycle_second hfind
  -- the first step of the cycle is an include of the template, and the record stands there
  obtain ⟨other, hother, hname⟩ := h.edge_iff.mp (Index.mem_included.mp hfirst)
  rw [htemplate] at hother
  cases hother
  obtain ⟨included, hincluded, hcomponent⟩ := Template.mem_componentNames.mp hname
  have hpart : ((template.includes.filterMap Include.component).find? fun part =>
      part.text = first).isSome = true := by
    rw [List.find?_isSome]
    rw [Include.componentName?, Option.bind_eq_some_iff] at hcomponent
    obtain ⟨part, hpart, htext⟩ := hcomponent
    refine ⟨part, List.mem_filterMap.mpr ⟨included, hincluded, hpart⟩, ?_⟩
    split at htext
    · cases htext
      simp
    · cases htext
  obtain ⟨part, hpart⟩ := Option.isSome_iff_exists.mp hpart
  have hproblem : project.cycleProblem? template.id template.includes =
      some ((Problem.circularInclude cycle).located part.range) := by
    rw [id_of_template? htemplate]
    simp only [cycleProblem?, hfind, hsecond, hpart, Option.bind_eq_bind, Option.bind_some,
      Option.pure_def]
  refine ⟨cycle, part.range, mem_computeDiagnostics (List.mem_append_right _ ?_)⟩
  rw [hproblem]
  exact List.mem_singleton.mpr rfl

/-! ## Predictions -/

/-- The problems of a template announce a record of a rendering: the same record, or for a circle in a
chain the record of a cycle that the template lies on. -/
inductive Predicts (project : Project) (template : Template) (record : Record) : Prop
  | unknownComponent (name : Text)
    (hmessage : record.message = (Problem.unknownComponent name).message)
    (h : record ∈ (project.templateDiagnostics template.id).1)
  | unknownAsset (path : Text) (hmessage : record.message = (Problem.unknownAsset path).message)
    (h : record ∈ (project.templateDiagnostics template.id).1)
  | circularInclude (chain : List Text) (name : Text) (cycle : List Text) (other : Record)
    (hmessage : record.message = (Problem.circularInclude chain).message)
    (hcomponent : template.id = .component name)
    (hcycle : TransGen project.Includes template.id template.id)
    (h : other ∈ (project.templateDiagnostics template.id).1)
    (hother : other.message = (Problem.circularInclude cycle).message)
    (hseverity : other.severity = .error)
    (htemplate : other.template = some template.id.name)

section

variable {origin : TemplateId} {frame : Frame} {record : Record}

/-- Of the problems that a frame meets, those of dependencies are the refused includes. -/
theorem refuses_of_category (h : frame.Meets project.site record)
    (hcategory : record.category = Category.name TemplateCategory.dependencies) :
    frame.Refuses project.site record := by
  cases h with
  | refused h => exact h
  | tag node span name h =>
    have heq : "mustacheValues" = "dependencies" := hcategory
    simp at heq
  | condition node span name h =>
    have heq : "ifAttributes" = "dependencies" := hcategory
    simp at heq
  | outlet node element name target =>
    have heq : "injectElements" = "dependencies" := hcategory
    simp at heq
  | mainOutlet node element name =>
    have heq : "injectElements" = "dependencies" := hcategory
    simp at heq

theorem predicts_of_refuses (h : Coherent project) (hframe : project.Placed origin frame)
    (hrefuses : frame.Refuses project.site record) :
    project.Predicts frame.compiled.template record := by
  have hdiagnostics := h.templateDiagnostics_eq hframe.registered
  cases hrefuses with
  | @circular node element attr hincludes hattr hvalid hchain =>
    have hedge : project.Includes frame.compiled.template.id (.component attr.valueOrEmpty) :=
      ⟨_, _, hframe.registered, hincludes.mem_componentNames hattr hvalid, rfl⟩
    have hcycle := TransGen.head' hedge (hframe.chain _ hchain)
    -- includes lead to components only, so the template is one
    obtain ⟨_, -, _, name, -, -, hid⟩ := TransGen.tail'_iff.mp hcycle
    obtain ⟨cycle, range, hmem⟩ :=
      h.exists_cycle_record (hid ▸ hframe.registered) (hid ▸ hcycle)
    exact .circularInclude _ name cycle _ rfl hid hcycle (hdiagnostics ▸ hmem) rfl rfl rfl
  | @unknownComponent node element attr hincludes hattr hvalid hget =>
    obtain ⟨id, hmem⟩ := hincludes.mem_includes
    refine .unknownComponent attr.valueOrEmpty rfl (hdiagnostics ▸ mem_of_includeProblem? hmem ?_)
    have hcontains : project.components.contains attr.valueOrEmpty = false := by
      rw [← contains_site_components, Table.contains_eq_false_iff]
      exact hget
    simp only [includeProblem?, Template.includePart, hattr, Option.map_some, hvalid, hcontains,
      Bool.not_false, Bool.and_self, if_true]
  | @unknownAsset node element attr hincludes hcomponent hattr hvalid hasset =>
    obtain ⟨id, hmem⟩ := hincludes.mem_includes
    refine .unknownAsset attr.valueOrEmpty rfl (hdiagnostics ▸ mem_of_includeProblem? hmem ?_)
    have hcontains : project.assets.contains attr.valueOrEmpty = false := hasset
    simp only [includeProblem?, Template.includePart, hcomponent, hattr, Option.map_some,
      Option.map_none, Option.bind_some, hvalid, hcontains, Bool.not_false, Bool.and_self, if_true]

end

/-- **Rendering finds no dependency problem that was not announced.** Every record of the category that
the rendering of a page has belongs to the page or to a component that the page includes, directly or
through others, and the problems of that template announce it. -/
theorem dependency_records_predicted (h : project.Reachable) {path : Text} {rendering : Rendering}
    (hrender : project.render path = .ok rendering) :
    ∀ record ∈ rendering.diagnostics, record.category = Category.name TemplateCategory.dependencies →
      ∃ template, project.template? template.id = some template ∧
        ReflTransGen project.Includes (.page path) template.id ∧
        record.template = some template.id.name ∧ project.Predicts template record := by
  rw [render] at hrender
  split at hrender
  next page hpage =>
    cases hrender
    have hplaced : project.Placed (.page path) (Frame.outermost page) := placed_outermost hpage
    refine Site.all_diagnostics (fun _ _ hframe => hframe.opens) ?_ hplaced
    intro frame record hframe hmeets hcategory
    have hrefuses := refuses_of_category hmeets hcategory
    have htemplate : record.template = some frame.compiled.template.id.name := by
      cases hrefuses <;> rfl
    exact ⟨frame.compiled.template, hframe.registered, hframe.reached, htemplate,
      predicts_of_refuses h.coherent hframe hrefuses⟩
  next => cases hrender

/-- A project with a page that leads to two components which include each other, and through them to an
asset that nobody registered. -/
def circle : Project :=
  Project.empty.run
    [.addComponent "a".toList "<include component=\"b\"/>".toList,
      .addComponent "b".toList "<include asset=\"/assets/x\"/><include component=\"a\"/>".toList,
      .addPage "/".toList "<include component=\"a\"/>".toList]

/-- Both records of the page, the asset and the circle, are announced by the second component. -/
theorem dependency_records_predicted_of_circle :
    circle.Reachable ∧ ∃ rendering, circle.render "/".toList = .ok rendering ∧
      rendering.diagnostics.length = 2 ∧
      ∀ record ∈ rendering.diagnostics,
        record.category = Category.name TemplateCategory.dependencies ∧
        ∃ template, circle.template? template.id = some template ∧
          ReflTransGen circle.Includes (.page "/".toList) template.id ∧
          record.template = some template.id.name ∧ circle.Predicts template record := by
  have hreachable : circle.Reachable := reachable_run_empty _
  have hvalue : (circle.render "/".toList).toOption.any fun rendering =>
      rendering.diagnostics.length == 2 && rendering.diagnostics.all fun record =>
        record.category == Category.name TemplateCategory.dependencies := by
    decide +kernel
  cases hrender : circle.render "/".toList with
  | error error =>
    rw [hrender] at hvalue
    cases hvalue
  | ok rendering =>
    simp only [hrender, Except.toOption, Option.any_some, Bool.and_eq_true, beq_iff_eq,
      List.all_eq_true] at hvalue
    refine ⟨hreachable, rendering, rfl, hvalue.1, fun record hrecord => ?_⟩
    have hcategory := hvalue.2 record hrecord
    exact ⟨hcategory, dependency_records_predicted hreachable hrender record hrecord hcategory⟩

end Sitewright.Project

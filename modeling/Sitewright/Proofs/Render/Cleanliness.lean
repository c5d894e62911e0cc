import Sitewright.Proofs.Render.Prediction

/-!
Templates without problems. Where a template has no problem, the analysis has looked into every expression
that rendering evaluates, so every global in it is listed, and the project has it. What a page can still
lack when it is rendered is known to no template alone: the outlets of the components that it includes, and
the properties that an include passes on.
-/

namespace Sitewright

theorem Diagnostics.toRecords_eq_nil {diagnostics : Diagnostics TemplateCategory} {template : Option Text}
    (h : diagnostics.toRecords template = []) : diagnostics.reported = [] := by
  rw [toRecords, List.map_eq_nil_iff, toList, List.flatMap_eq_nil_iff] at h
  rw [List.eq_nil_iff_forall_not_mem]
  intro diagnostic hmem
  have hcategory : diagnostic.category ∈ (Category.all : List TemplateCategory) := by
    cases diagnostic.category <;> decide
  have honly : diagnostic ∈ diagnostics.only (some diagnostic.category) :=
    List.mem_filter.mpr ⟨hmem, decide_eq_true rfl⟩
  rw [h _ hcategory] at honly
  cases honly

theorem Naming.head?_of_isPropertyName {name : Text} (h : isPropertyName name = true) :
    name.head? ≠ some '$' := by
  obtain ⟨first, rest, rfl, hfirst, -⟩ := exists_of_isPropertyName h
  intro hhead
  cases hhead
  exact absurd hfirst (by decide)

namespace Project

open Relation (ReflTransGen)
open Template (Problem)

variable {project : Project} {template : Template}

/-- A project has every global that rendering evaluates in a template without problems. -/
theorem global_ne_none (h : project.computeDiagnostics template = []) {expression : Expression}
    (hmem : expression ∈ template.expressions) {name : Text} (hname : name ∈ expression.globals) :
    project.globals.get? name ≠ none := by
  obtain ⟨hown, hcontext⟩ := List.append_eq_nil_iff.mp h
  have hoverlooked := Template.overlooked_eq_nil (Diagnostics.toRecords_eq_nil hown)
  rcases Template.lists_or_overlooked hmem with hmem | hlists
  · rw [hoverlooked] at hmem
    cases hmem
  · obtain ⟨reference, hreference, rfl⟩ := hlists name hname
    intro hnone
    have hproblem : (Problem.unknownGlobal reference.global).located reference.part.range ∈
        project.globalProblems .unknownGlobal template.analysis.globals := by
      refine List.mem_map.mpr ⟨reference, List.mem_filter.mpr ⟨hreference, ?_⟩, rfl⟩
      rw [Table.contains_eq_false_iff.mpr hnone]
      rfl
    have hrecord := mem_computeDiagnostics
      (List.mem_append_left _ (List.mem_append_left _ (List.mem_append_right _ hproblem)))
    rw [h] at hrecord
    cases hrecord

/-- So what an expression of it lacks is a property. -/
theorem property_of_lacks {frame : Frame} (h : project.computeDiagnostics frame.compiled.template = [])
    {name : Text} (hlacks : frame.Lacks project.site name) :
    Naming.isPropertyName name = true ∧
      ∃ expression ∈ frame.compiled.template.expressions, name ∈ expression.properties := by
  obtain ⟨expression, hmem, hunresolved⟩ := hlacks
  rcases Expression.of_mem_unresolved hunresolved with ⟨hglobal, hnone⟩ | ⟨hproperty, -⟩
  · exact absurd hnone (global_ne_none h hmem hglobal)
  · obtain ⟨parent, id, node, -, hnode⟩ := Template.mem_expressions.mp hmem
    exact ⟨(Template.wellNamed_of_mem_nodeExpressions hnode).properties name hproperty,
      expression, hmem, hproperty⟩

/-- What rendering may still find in a template that has no problem: content for an outlet that the
included component does not have, or a property without a value. -/
inductive Remains (template : Template) (record : Record) : Prop
  | outlet (hcategory : record.category = Category.name TemplateCategory.injectElements)
    (hmessage : (∃ component target, record.message = (Problem.missingOutlet component target).message) ∨
      ∃ component, record.message = (Problem.missingMainOutlet component).message)
  | property (name : Text) (hname : Naming.isPropertyName name = true) (hsign : name.head? ≠ some '$')
    (hread : ∃ expression ∈ template.expressions, name ∈ expression.properties)
    (hrecord : record.category = Category.name TemplateCategory.mustacheValues ∧
        record.message = (Problem.unresolvedTag name).message ∨
      record.category = Category.name TemplateCategory.ifAttributes ∧
        record.message = (Problem.unresolvedCondition name).message)

section

variable {origin : TemplateId} {frame : Frame} {record : Record}

theorem remains_of_meets (h : Coherent project) (hframe : project.Placed origin frame)
    (hclean : (project.templateDiagnostics frame.compiled.template.id).1 = [])
    (hmeets : frame.Meets project.site record) :
    record.severity = .warning ∧ record.template = some frame.compiled.template.id.name ∧
      Remains frame.compiled.template record := by
  have hdiagnostics := h.templateDiagnostics_eq hframe.registered
  rw [hclean] at hdiagnostics
  cases hmeets with
  | tag node span name hlacks =>
    obtain ⟨hname, hread⟩ := property_of_lacks hdiagnostics.symm hlacks
    exact ⟨rfl, rfl, .property name hname (Naming.head?_of_isPropertyName hname) hread (.inl ⟨rfl, rfl⟩)⟩
  | condition node span name hlacks =>
    obtain ⟨hname, hread⟩ := property_of_lacks hdiagnostics.symm hlacks
    exact ⟨rfl, rfl, .property name hname (Naming.head?_of_isPropertyName hname) hread (.inr ⟨rfl, rfl⟩)⟩
  | outlet node element name target => exact ⟨rfl, rfl, .outlet rfl (.inl ⟨name, target, rfl⟩)⟩
  | mainOutlet node element name => exact ⟨rfl, rfl, .outlet rfl (.inr ⟨name, rfl⟩)⟩
  | refused hrefuses =>
    -- a refused include is announced among the problems of the template, and it has none
    cases predicts_of_refuses h hframe hrefuses with
    | unknownComponent _ _ hmem | unknownAsset _ _ hmem =>
      rw [hclean] at hmem
      cases hmem
    | circularInclude _ _ _ _ _ _ _ hmem =>
      rw [hclean] at hmem
      cases hmem

end

/-- **Templates without problems render without unknown globals.** If neither a page nor a component that
it includes, directly or through others, has a problem, then the page renders, and each record is a warning
of such a template about a missing outlet or about a property that got no value. -/
theorem clean_rendering (h : project.Reachable) {path : Text} {page : Template}
    (hpage : project.page? path = some page)
    (hclean : ∀ id, ReflTransGen project.Includes (.page path) id →
      (project.templateDiagnostics id).1 = []) :
    ∃ rendering, project.render path = .ok rendering ∧
      ∀ record ∈ rendering.diagnostics, record.severity = .warning ∧
        ∃ template, project.template? template.id = some template ∧
          ReflTransGen project.Includes (.page path) template.id ∧
          record.template = some template.id.name ∧ Remains template record := by
  refine ⟨project.site.render page, by rw [render, hpage], ?_⟩
  have hplaced : project.Placed (.page path) (Frame.outermost page) := placed_outermost hpage
  refine Site.all_diagnostics (fun _ _ hframe => hframe.opens) ?_ hplaced
  intro frame record hframe hmeets
  obtain ⟨hseverity, htemplate, hremains⟩ :=
    remains_of_meets h.coherent hframe (hclean _ hframe.reached) hmeets
  exact ⟨hseverity, frame.compiled.template, hframe.registered, hframe.reached, htemplate, hremains⟩

/-- A page that passes no title to a component which shows one in a tag and a condition, and has content for
an outlet that the component lacks. -/
def untitled : Project :=
  Project.empty.run
    [.setGlobals [("$brand".toList, "Acme".toList)],
      .addComponent "card".toList
        "<h2 if=\"title\">x</h2><p>\x7b\x7b title \x7d\x7d \x7b\x7b $brand \x7d\x7d</p>".toList,
      .addPage "/".toList
        "<include component=\"card\"><inject into=\"foot\">x</inject></include>".toList]

/-- No template of it has a problem, and the page renders with one warning of each kind. -/
theorem clean_rendering_of_untitled :
    untitled.Reachable ∧
      (∀ id, ReflTransGen untitled.Includes (.page "/".toList) id →
        (untitled.templateDiagnostics id).1 = []) ∧
      ∃ rendering, untitled.render "/".toList = .ok rendering ∧ rendering.diagnostics.length = 3 ∧
        ∀ record ∈ rendering.diagnostics, record.severity = .warning ∧
          ∃ template, untitled.template? template.id = some template ∧
            ReflTransGen untitled.Includes (.page "/".toList) template.id ∧
            record.template = some template.id.name ∧ Remains template record := by
  have hreachable : untitled.Reachable := reachable_run_empty _
  have hfacts : (∀ id ∈ [TemplateId.page "/".toList, .component "card".toList],
        (untitled.templateDiagnostics id).1 = []) ∧
      (∀ template ∈ untitled.templates, ∀ name ∈ template.componentNames, name = "card".toList) ∧
      (untitled.page? "/".toList).isSome = true ∧
      (untitled.render "/".toList).toOption.any (fun rendering => rendering.diagnostics.length = 3) := by
    decide +kernel
  obtain ⟨hdiagnostics, hincludes, hpage, hlength⟩ := hfacts
  have hclean : ∀ id, ReflTransGen untitled.Includes (.page "/".toList) id →
      (untitled.templateDiagnostics id).1 = [] := by
    intro id hid
    refine hdiagnostics id ?_
    cases hid with
    | refl => exact List.mem_cons_self
    | tail _ hstep =>
      obtain ⟨template, name, htemplate, hname, rfl⟩ := hstep
      rw [hincludes template (mem_templates htemplate) name hname]
      exact List.mem_cons_of_mem _ List.mem_cons_self
  obtain ⟨page, hpage⟩ := Option.isSome_iff_exists.mp hpage
  obtain ⟨rendering, hrender, hrecords⟩ := clean_rendering hreachable hpage hclean
  rw [hrender] at hlength
  exact ⟨hreachable, hclean, rendering, hrender, of_decide_eq_true hlength, hrecords⟩

end Project

end Sitewright

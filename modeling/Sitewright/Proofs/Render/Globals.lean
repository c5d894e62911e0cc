import Sitewright.Proofs.Render.Noninterference

/-!
The globals that a page shows. A rendering of a page evaluates the expressions of the templates that the
page leads to, so a global that stands in none of them can take any value. The index lists the globals of a
template as its analysis does; what rendering evaluates and the analysis passes over, the index does not
know of (`render_changes_unlisted`).
-/

namespace Sitewright.Project

open Relation (TransGen ReflTransGen)

variable {project : Project} {path name : Text}

/-- What a template evaluates is listed among its globals, unless the analysis passes over it. -/
theorem mem_referencedGlobals_or_overlooked {template : Template} {expression : Expression}
    (h : expression ∈ template.expressions) (hname : name ∈ expression.globals) :
    name ∈ template.referencedGlobals ∨ name ∈ template.overlookedGlobals := by
  rcases Template.lists_or_overlooked h with hoverlooked | hlists
  · exact .inr (List.mem_flatMap.mpr ⟨expression, hoverlooked, hname⟩)
  · obtain ⟨reference, hmem, rfl⟩ := hlists name hname
    exact .inl (Template.mem_referencedGlobals (.inl hmem))

theorem render_eq_of_global (h : Coherent project) {globals : Table Text Text} {dropped : List Record}
    {cache : Table TemplateId (List Record)}
    (hglobals : ∀ other, other ≠ name → globals.get? other = project.globals.get? other)
    (hnot : ∀ id, ReflTransGen project.Includes (.page path) id → id ∉ project.dependentsOfGlobal name)
    (hseen : ∀ id template, ReflTransGen project.Includes (.page path) id →
      project.template? id = some template → name ∉ template.overlookedGlobals) :
    Project.render { project with globals, cache, droppedGlobals := dropped } path =
      project.render path := by
  refine render_eq_of_agrees rfl fun frame hframe => ?_
  refine ⟨?_, rfl, ?_, fun _ _ => rfl, fun _ _ => rfl⟩
  · intro expression hexpression other hother
    have hne : other ≠ name := by
      rintro rfl
      rcases mem_referencedGlobals_or_overlooked hexpression hother with hlisted | hoverlooked
      · refine hnot _ hframe.reached (Index.mem_dependentsOfGlobal.mpr ?_)
        exact ⟨_, h.entry hframe.registered, Template.mem_entry_globals.mpr hlisted⟩
      · exact hseen _ _ hframe.reached hframe.registered hoverlooked
    exact (hglobals other hne).symm
  · exact (key_eq_of_position rfl (by cases frame.compiled.template.id <;> rfl)).symm

/-- **A page does not depend on a global that no template it leads to reads.** Every global that rendering
evaluates in a template is listed by its analysis, or stands where the analysis does not look. So if the
index has neither the page nor a component that it leads to depend on a global, and none of them has the
global where the analysis does not look, then setting and removing the global leaves the rendering as it
is, markup and problems. -/
theorem render_unaffected_by_global (h : project.Reachable) (path name : Text) :
    (∀ template : Template, ∀ expression ∈ template.expressions, name ∈ expression.globals →
      name ∈ template.referencedGlobals ∨ name ∈ template.overlookedGlobals) ∧
    ((∀ id, ReflTransGen project.Includes (.page path) id →
        id ∉ project.dependentsOfGlobal name ∧
        ∀ template, project.template? id = some template → name ∉ template.overlookedGlobals) →
      (∀ value, (project.perform (.setGlobals [(name, value)])).render path = project.render path) ∧
      (project.perform (.removeGlobal name)).render path = project.render path) := by
  refine ⟨fun _ _ => mem_referencedGlobals_or_overlooked, fun hregion => ⟨fun value => ?_, ?_⟩⟩
  · show (project.setGlobals [(name, value)]).render path = project.render path
    simp only [setGlobals, List.foldl_cons, List.foldl_nil, setGlobal]
    split
    · exact render_eq_of_global h.coherent (fun _ _ => rfl) (fun id hid => (hregion id hid).1)
        fun id template hid => (hregion id hid).2 template
    · exact render_eq_of_global h.coherent (fun _ hne => Table.get?_insert_other _ _ hne)
        (fun id hid => (hregion id hid).1) fun id template hid => (hregion id hid).2 template
  · show (project.removeGlobal name).render path = project.render path
    rw [removeGlobal]
    split
    · exact render_eq_of_global h.coherent (fun _ hne => Table.get?_erase_other _ hne)
        (fun id hid => (hregion id hid).1) fun id template hid => (hregion id hid).2 template
    · rfl

/-- A page with a component, another component with a global of its own, and a condition with `{{`. -/
def accented : Project :=
  Project.empty.run
    [.setGlobals [("$title".toList, "Home".toList)],
      .addComponent "head".toList "<h1 title=\"\x7b\x7b $title \x7d\x7d\"><outlet></outlet></h1>".toList,
      .addComponent "foot".toList "<p if=\"$accent\">\x7b\x7b $accent \x7d\x7d</p>".toList,
      .addPage "/".toList
        "<include component=\"head\"><b if=\"$title != '\x7b\x7b'\">x</b></include>".toList]

/-- The page does not show the global of the other component. -/
theorem render_unaffected_by_global_of_accented :
    accented.Reachable ∧ (∃ id, id ∈ accented.dependentsOfGlobal "$accent".toList) ∧
      (∀ value, (accented.perform (.setGlobals [("$accent".toList, value)])).render "/".toList =
        accented.render "/".toList) ∧
      (accented.perform (.removeGlobal "$accent".toList)).render "/".toList =
        accented.render "/".toList := by
  have hreachable : accented.Reachable := reachable_run_empty _
  have hfacts : accented.dependentsOfGlobal "$accent".toList = .ofList [.component "foot".toList] ∧
      TemplateId.page "/".toList ∉ accented.dependentsOfComponent "foot".toList ∧
      ∀ template ∈ accented.templates, "$accent".toList ∉ template.overlookedGlobals := by
    decide +kernel
  obtain ⟨honly, hfoot, hseen⟩ := hfacts
  refine ⟨hreachable, ⟨.component "foot".toList, ?_⟩, ?_⟩
  · rw [honly, TemplateSet.mem_ofList, List.mem_singleton]
  refine (render_unaffected_by_global hreachable "/".toList "$accent".toList).2 fun id hid => ⟨?_, ?_⟩
  · rw [honly, TemplateSet.mem_ofList, List.mem_singleton]
    rintro rfl
    rcases Relation.reflTransGen_iff_eq_or_transGen.mp hid with heq | hpath
    · cases heq
    · rw [← hreachable.coherent.edge_eq_includes] at hpath
      exact hfoot (Index.mem_dependentsOfComponent.mpr hpath)
  · exact fun template htemplate => hseen template (mem_templates htemplate)

/-- A project with a global that no template is listed to depend on. Its pages show it in a condition with
`{{`, in an attribute with a tag in its name, and through a property named `markdown`. -/
def unlisted : Project :=
  Project.empty.run
    [.setGlobals [("$g".toList, "1".toList)],
      .addComponent "c".toList "[\x7b\x7b markdown \x7d\x7d]".toList,
      .addPage "/".toList "<p if=\"$g == '\x7b\x7b'\">x</p>".toList,
      .addPage "/a".toList "<p a\x7b\x7bb\x7d\x7d=\"\x7b\x7b $g \x7d\x7d\">x</p>".toList,
      .addPage "/b".toList "<include component=\"c\" markdown=\"\x7b\x7b $g \x7d\x7d\"></include>".toList]

/-- The index has nothing depend on the global, and setting it changes all three pages. -/
theorem render_changes_unlisted :
    unlisted.Reachable ∧ Naming.isGlobalName "$g".toList = true ∧
      (∀ id, id ∉ unlisted.dependentsOfGlobal "$g".toList) ∧
      ∀ path ∈ ["/", "/a", "/b"].map String.toList,
        (unlisted.perform (.setGlobals [("$g".toList, "\x7b\x7b".toList)])).render path ≠
          unlisted.render path := by
  have hfacts : unlisted.dependentsOfGlobal "$g".toList = .ofList [] ∧
      ∀ path ∈ ["/", "/a", "/b"].map String.toList,
        (unlisted.perform (.setGlobals [("$g".toList, "\x7b\x7b".toList)])).render path ≠
          unlisted.render path := by
    decide +kernel
  refine ⟨reachable_run_empty _, by decide, fun id hid => ?_, hfacts.2⟩
  rw [hfacts.1, TemplateSet.mem_ofList] at hid
  cases hid

end Sitewright.Project

import Sitewright.Proofs.Render.Comparison
import Sitewright.Proofs.Render.Placement

/-!
Development and production. The two differ in the markup of comments and of elements with directives,
and a component may get such markup as content for its outlets; nothing that rendering decides on is
among it. So the two renderings of a page have the same problems always, and the same markup where no
template has a comment or a directive (`Site.alike_renderFrame`).
-/

namespace Sitewright

open Markup

theorem Output.Alike.finish {Same : Prop} {a b : Output} (h : a.Alike Same b) :
    a.finish.diagnostics = b.finish.diagnostics ∧ (Same → a.finish.html = b.finish.html) :=
  ⟨congrArg List.eraseDups h.reports, h.html⟩

namespace Site

variable {Same : Prop} {site : Site} {key : TemplateId → Text} {Within : Frame → Prop}

/-- The site in production, with other names for the registrations. -/
def inProduction (site : Site) (key : TemplateId → Text) : Site :=
  { site with key, environment := .production }

/-- A frame is rendered alike in both environments, where a property of frames passes to those they
open. -/
theorem alike_renderFrame
    (huniform : ∀ frame, Within frame → Same → frame.compiled.template.isUniform = true)
    (hopens : ∀ frame next, Within frame → frame.Opens site next → Within next) {frame : Frame}
    (hframe : Within frame) (hslots : frame.slots = ∅) :
    (site.renderFrame frame).Alike Same ((site.inProduction key).renderFrame frame) := by
  have hcompares (frame : Frame) (hframe : Within frame) :
      frame.Compares (fun _ => True) Same site (site.inProduction key) :=
    ⟨fun _ _ _ _ => rfl, fun _ _ => rfl, fun _ _ => rfl, fun _ _ => trivial,
      fun hsame => .inr (huniform frame hframe hsame)⟩
  refine (matches_renderFrame hcompares hopens hframe fun name => ?_).toAlike
  rw [hslots]
  exact .none

end Site

namespace Project

open Relation (ReflTransGen)

variable {project : Project} {path : Text} {page : Template}

/-- **The environment shapes markup only.** A registered page renders in both environments, with the same
problems in the same order. Where neither the page nor a component that it includes, directly or through
others, has a comment or a directive, the markup is the same too. -/
theorem environment_shapes_markup (hpage : project.page? path = some page) :
    ∃ development production,
      (project.setEnvironment .development).render path = .ok development ∧
      (project.setEnvironment .production).render path = .ok production ∧
      development.diagnostics = production.diagnostics ∧
      ((∀ id template, ReflTransGen project.Includes (.page path) id →
        project.template? id = some template → template.isUniform = true) →
          development.html = production.html) := by
  have hdevelopment : (project.setEnvironment .development).page? path = some page := hpage
  have hproduction : (project.setEnvironment .production).page? path = some page := hpage
  have hplaced : project.Placed (.page path) (Frame.outermost page) := placed_outermost hpage
  have hopens : ∀ frame next, project.Placed (.page path) frame →
      frame.Opens (project.setEnvironment .development).site next → project.Placed (.page path) next :=
    fun _ _ hframe hnext => hframe.opens hnext
  have halike : ((project.setEnvironment .development).site.renderFrame (Frame.outermost page)).Alike
      (∀ id template, ReflTransGen project.Includes (.page path) id →
        project.template? id = some template → template.isUniform = true)
      ((project.setEnvironment .production).site.renderFrame (Frame.outermost page)) :=
    Site.alike_renderFrame (fun _ hframe hsame => hsame _ _ hframe.reached hframe.registered)
      hopens hplaced rfl
  obtain ⟨hdiagnostics, hhtml⟩ := halike.finish
  refine ⟨_, _, ?_, ?_, hdiagnostics, hhtml⟩
  · rw [render, hdevelopment]
    rfl
  · rw [render, hproduction]
    rfl

/-- A page that gives content to a component, and one with a comment and a directive next to a tag without
a value. -/
def furnished : Project :=
  Project.empty.run
    [.addComponent "card".toList "<p>\x7b\x7b title \x7d\x7d</p><outlet/>".toList,
      .addPage "/".toList "<include component=\"card\"><b>x</b></include>".toList,
      .addPage "/about".toList "<!--x--><p @click=\"\x7b\x7b a \x7d\x7d\">\x7b\x7b a \x7d\x7d</p>".toList]

/-- The first page is the same in both environments, the second only has the same problems. -/
theorem environment_shapes_markup_of_furnished :
    furnished.Reachable ∧
      (∃ development production,
        (furnished.setEnvironment .development).render "/".toList = .ok development ∧
        (furnished.setEnvironment .production).render "/".toList = .ok production ∧
        development.diagnostics = production.diagnostics ∧ development.html = production.html) ∧
      ∃ development production,
        (furnished.setEnvironment .development).render "/about".toList = .ok development ∧
        (furnished.setEnvironment .production).render "/about".toList = .ok production ∧
        development.diagnostics = production.diagnostics ∧ development.diagnostics ≠ [] ∧
        development.html ≠ production.html := by
  have hreachable : furnished.Reachable := reachable_run_empty _
  have hfacts : (∀ template ∈ furnished.templates, template.id ≠ .page "/about".toList →
        template.isUniform = true) ∧
      (furnished.page? "/".toList).isSome = true ∧ (furnished.page? "/about".toList).isSome = true ∧
      ((furnished.setEnvironment .development).render "/about".toList).toOption.map Rendering.html ≠
        ((furnished.setEnvironment .production).render "/about".toList).toOption.map Rendering.html ∧
      ((furnished.setEnvironment .development).render "/about".toList).toOption.map
        Rendering.diagnostics ≠ some [] := by
    decide +kernel
  obtain ⟨huniform, hpage, habout, hhtml, hdiagnostics⟩ := hfacts
  obtain ⟨page, hpage⟩ := Option.isSome_iff_exists.mp hpage
  obtain ⟨about, habout⟩ := Option.isSome_iff_exists.mp habout
  have hall : ∀ id template, ReflTransGen furnished.Includes (.page "/".toList) id →
      furnished.template? id = some template → template.isUniform = true := by
    intro id template hid htemplate
    refine huniform template (mem_templates htemplate) ?_
    rw [id_of_template? htemplate]
    cases hid with
    | refl => decide
    | tail _ hstep =>
      obtain ⟨_, name, -, -, rfl⟩ := hstep
      exact TemplateId.noConfusion
  obtain ⟨development, production, hdevelopment, hproduction, hsame, hmarkup⟩ :=
    environment_shapes_markup hpage
  obtain ⟨development', production', hdevelopment', hproduction', hsame', -⟩ :=
    environment_shapes_markup habout
  rw [hdevelopment', hproduction'] at hhtml
  rw [hdevelopment'] at hdiagnostics
  refine ⟨hreachable, ⟨development, production, hdevelopment, hproduction, hsame, hmarkup hall⟩,
    development', production', hdevelopment', hproduction', hsame', ?_, ?_⟩
  · exact fun hnone => hdiagnostics (congrArg some hnone)
  · exact fun heq => hhtml (congrArg some heq)

end Project

end Sitewright

import Sitewright.Proofs.Project.Coherence
import Sitewright.Proofs.Render.Expansion

/-!
Where the frames of a rendering stand in the graph of includes. The template of every frame is
registered and reached from the template that is rendered, and every component in its chain leads to it
(`Placed`). So an include that closes a circle in the chain of a frame closes one in the sources.
-/

namespace Sitewright.Project

open Relation (TransGen ReflTransGen)

variable {project : Project} {origin id : TemplateId} {frame next : Frame} {template : Template}

/-- The source of a registered template includes a component. -/
def Includes (project : Project) (id other : TemplateId) : Prop :=
  ∃ template name, project.template? id = some template ∧ name ∈ template.componentNames ∧
    other = .component name

theorem Coherent.edge_eq_includes (h : Coherent project) : project.index.Edge = project.Includes := by
  funext id other
  cases other with
  | component name =>
    rw [h.edge_iff, Includes]
    simp
  | page path =>
    simp [Includes, Index.not_edge_page]

/-- The frame stands in a rendering of `origin`. -/
structure Placed (project : Project) (origin : TemplateId) (frame : Frame) : Prop where
  registered : project.template? frame.compiled.template.id = some frame.compiled.template
  reached : ReflTransGen project.Includes origin frame.compiled.template.id
  chain : ∀ name ∈ frame.chain,
    ReflTransGen project.Includes (.component name) frame.compiled.template.id

theorem placed_outermost (h : project.template? id = some template) :
    project.Placed id (Frame.outermost template) := by
  have hid := id_of_template? h
  subst hid
  refine ⟨h, .refl, ?_⟩
  intro name hname
  cases hid : template.id with
  | component other =>
    simp only [Frame.outermost, hid, List.mem_singleton] at hname
    have hframe : (Frame.outermost template).compiled.template.id = .component name := hname ▸ hid
    rw [hframe]
  | page path =>
    simp only [Frame.outermost, hid] at hname
    cases hname

theorem Placed.opens (h : project.Placed origin frame) (hnext : frame.Opens project.site next) :
    project.Placed origin next := by
  obtain ⟨name, hname, -, hget, hchain⟩ := hnext
  rw [get?_site_components, Option.map_eq_some_iff] at hget
  obtain ⟨template, htemplate, hcompiled⟩ := hget
  have hid := id_of_template? htemplate
  have hedge : project.Includes frame.compiled.template.id (.component name) :=
    ⟨frame.compiled.template, name, h.registered, hname, rfl⟩
  have htemplate' : next.compiled.template = template := by rw [← hcompiled]; rfl
  refine ⟨?_, ?_, ?_⟩
  · rw [htemplate', hid]
    exact htemplate
  · rw [htemplate', hid]
    exact h.reached.tail hedge
  · rw [htemplate', hid, hchain]
    intro other hother
    rcases List.mem_append.mp hother with hother | hother
    · exact (h.chain other hother).tail hedge
    · rw [List.mem_singleton.mp hother]

end Sitewright.Project

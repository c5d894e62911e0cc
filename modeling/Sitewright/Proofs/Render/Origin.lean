import Sitewright.Proofs.Project.Registered
import Sitewright.Proofs.Render.Machine

/-!
Where the visits of a rendering come from. Every visited place is a place of the template of its layer,
and that template is registered, also where an outlet goes back to what an includer wrote for it.
-/

namespace Sitewright

open Markup

namespace Project

variable {project : Project}

/-- The layer is of a registered template. -/
def Draws (project : Project) (layer : Layer) : Prop :=
  ∃ template ∈ project.templates, layer.compiled = template.compile

/-- Layers of registered templates, each with slots that list places of the template of its includer. -/
inductive Layered (project : Project) : Layer → List Layer → Prop
  | outermost {layer : Layer} (h : project.Draws layer) : Layered project layer []
  | entered {layer includer : Layer} {rest : List Layer} (h : Layered project includer rest)
    (hlayer : project.Draws layer)
    (hslots : ∀ name items, layer.slots.get? name = some items →
      ∀ place ∈ items, place.Within includer.compiled.forest) :
    Layered project layer (includer :: rest)

theorem Layered.draws {layer : Layer} {outer : List Layer} (h : project.Layered layer outer) :
    project.Draws layer := by
  cases h with
  | outermost h => exact h
  | entered _ h _ => exact h

/-- A visit of a place of a registered template. -/
structure Originates (project : Project) (call : Call) : Prop where
  layered : project.Layered call.layer call.outer
  within : call.place.Within call.layer.compiled.forest

theorem draws_of_get? {name : Text} {component : Compiled} {layer : Layer}
    (h : project.site.components.get? name = some component) (hlayer : layer.compiled = component) :
    project.Draws layer := by
  rw [get?_site_components, Option.map_eq_some_iff] at h
  obtain ⟨template, htemplate, rfl⟩ := h
  exact ⟨template, mem_templates htemplate, hlayer⟩

theorem Originates.leads {call inner : Call} (h : project.Originates call)
    (hleads : call.Leads project.site inner) : project.Originates inner := by
  cases hleads with
  | down hplace => exact ⟨h.layered, h.within.below (within_of_mem_topPlaces hplace)⟩
  | back houter hslot hplace =>
    have hlayered := houter ▸ h.layered
    cases hlayered with
    | entered hincluder _ hslots => exact ⟨hincluder, hslots _ _ hslot _ hplace⟩
  | enter hopened hplace =>
    obtain ⟨_, _, rfl, _, _, hget⟩ := Frame.opened?_eq_some.mp hopened
    refine ⟨.entered h.layered (draws_of_get? hget rfl) ?_, within_of_mem_topPlaces hplace⟩
    -- the slots list places below the include
    intro name items hslot other hother
    exact Frame.collect_slots_forall (P := fun place => place.Within call.layer.compiled.forest)
      (fun label hlabel => h.within.below (within_of_mem_places hlabel)) hslot other hother

theorem originates_of_runs {template : Template} {machine : Machine} {call : Call}
    (htemplate : template ∈ project.templates) (hruns : Machine.Runs project.site (.start template) machine)
    (hcall : .visit call ∈ machine.tasks) : project.Originates call := by
  refine hruns.forall_visits (P := project.Originates) (fun _ _ h hleads => h.leads hleads) ?_ call hcall
  intro call hcall
  obtain ⟨place, hplace, rfl⟩ := Call.mem_visits.mp hcall
  exact ⟨.outermost ⟨template, htemplate, rfl⟩, within_of_mem_topPlaces hplace⟩

end Project

end Sitewright

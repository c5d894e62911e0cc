import Sitewright.Project.Basic
import Sitewright.Proofs.Lookup

/-!
What is registered in a project, and the site that rendering sees of it.
-/

namespace Sitewright.Project

variable {project : Project}

theorem id_of_template? {id : TemplateId} {template : Template} (h : project.template? id = some template) :
    template.id = id := by
  cases id with
  | component name =>
    obtain ⟨source, -, rfl⟩ := Option.map_eq_some_iff.mp h
    rfl
  | page path =>
    obtain ⟨source, -, rfl⟩ := Option.map_eq_some_iff.mp h
    rfl

theorem mem_templates {id : TemplateId} {template : Template} (h : project.template? id = some template) :
    template ∈ project.templates := by
  cases id with
  | component name =>
    obtain ⟨source, hget, rfl⟩ := Option.map_eq_some_iff.mp h
    exact List.mem_append_left _ (List.mem_map.mpr ⟨(name, source), Table.mem_entries.mpr hget, rfl⟩)
  | page path =>
    obtain ⟨source, hget, rfl⟩ := Option.map_eq_some_iff.mp h
    exact List.mem_append_right _ (List.mem_map.mpr ⟨(path, source), Table.mem_entries.mpr hget, rfl⟩)

theorem contains_component (name : Text) :
    project.components.contains name = (project.template? (.component name)).isSome := by
  rw [template?, component?, Option.isSome_map]
  rfl

theorem contains_page (path : Text) :
    project.pages.contains path = (project.template? (.page path)).isSome := by
  rw [template?, page?, Option.isSome_map]
  rfl

theorem get?_site_components (name : Text) :
    project.site.components.get? name =
      (project.template? (.component name)).map Template.compile := by
  simp only [site, compiledComponents, Table.get?_map, template?, component?, Option.map_map]
  rfl

theorem contains_site_components (name : Text) :
    project.site.components.contains name = project.components.contains name :=
  Table.contains_map _ _ _

theorem size_site_components : project.site.components.size = project.components.size :=
  Table.size_map _ _

end Sitewright.Project

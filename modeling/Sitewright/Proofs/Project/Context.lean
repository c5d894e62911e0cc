import Mathlib.Data.List.Basic
import Sitewright.Project.Diagnostics
import Sitewright.Proofs.Lookup
import Sitewright.Proofs.Template.Includes

/-!
What the problems of a template depend on: which of the components, assets and globals that it names are
there, and the cycle that it lies on. In projects that agree on these it has the same problems
(`computeDiagnostics_congr`).
-/

namespace Sitewright

namespace Template

variable {template : Template}

theorem mem_entry_components {name : Text} : name ∈ template.entry.components ↔ name ∈ template.componentNames := by
  rw [entry, NameSet.mem_ofList]

theorem mem_entry_assets {path : Text} : path ∈ template.entry.assets ↔ path ∈ template.assetPaths := by
  rw [entry, NameSet.mem_ofList]

theorem mem_entry_globals {name : Text} :
    name ∈ template.entry.globals ↔ name ∈ template.referencedGlobals := Iff.rfl

theorem mem_referencedGlobals {reference : GlobalReference}
    (h : reference ∈ template.analysis.globals ∨ reference ∈ template.analysis.styleGlobals) :
    reference.global ∈ template.referencedGlobals := by
  rw [referencedGlobals, NameSet.mem_ofList]
  exact List.mem_map_of_mem (List.mem_append.mpr h)

end Template

namespace Project

open Template (Include)

variable {project next : Project}
variable {template : Template}

/-- Two projects in which a template has the same problems. -/
structure SameContext (project next : Project) (template : Template) : Prop where
  components : ∀ name ∈ template.componentNames,
    project.components.contains name = next.components.contains name
  assets : ∀ path ∈ template.assetPaths, project.assets.contains path = next.assets.contains path
  globals : ∀ name ∈ template.referencedGlobals,
    project.globals.contains name = next.globals.contains name
  cycle : ∀ name, template.id = .component name →
    project.index.findCycle name = next.index.findCycle name

theorem includeProblem?_congr (h : SameContext project next template)
    {included : Include} (hmem : included ∈ template.includes) :
    project.includeProblem? included = next.includeProblem? included := by
  rw [includeProblem?, includeProblem?]
  cases hcomponent : included.component with
  | some part =>
    by_cases hname : Naming.isComponentName part.text = true
    · have hpart : included.componentName? = some part.text := by
        simp [Include.componentName?, hcomponent, hname]
      simp only [h.components _ (Template.mem_componentNames.mpr ⟨included, hmem, hpart⟩)]
    · simp only [hname, Bool.false_and, Bool.false_eq_true, if_false]
  | none =>
    cases hasset : included.asset with
    | none => rfl
    | some part =>
      by_cases hpath : Naming.isAssetPath part.text = true
      · have hpart : included.assetPath? = some part.text := by
          simp [Include.assetPath?, hcomponent, hasset, hpath]
        simp only [Option.bind_some, h.assets _ (Template.mem_assetPaths.mpr ⟨included, hmem, hpart⟩)]
      · simp only [Option.bind_some, hpath, Bool.false_and, Bool.false_eq_true, if_false]

theorem globalProblems_congr (h : SameContext project next template)
    (problem : Text → Template.Problem) {references : List GlobalReference}
    (hmem : ∀ reference ∈ references, reference.global ∈ template.referencedGlobals) :
    project.globalProblems problem references = next.globalProblems problem references := by
  rw [globalProblems, globalProblems]
  congr 1
  apply List.filter_congr
  intro reference hreference
  rw [h.globals _ (hmem reference hreference)]

theorem cycleProblem?_congr (h : SameContext project next template) (includes : List Include) :
    project.cycleProblem? template.id includes = next.cycleProblem? template.id includes := by
  cases hid : template.id with
  | page path => rfl
  | component name => rw [cycleProblem?, cycleProblem?, h.cycle name hid]

theorem computeDiagnostics_congr (h : SameContext project next template) :
    project.computeDiagnostics template = next.computeDiagnostics template := by
  have hincludes : template.includes.filterMap project.includeProblem? =
      template.includes.filterMap next.includeProblem? :=
    List.filterMap_congr fun included hmem => includeProblem?_congr h hmem
  have hglobals := globalProblems_congr h .unknownGlobal fun reference hmem =>
    Template.mem_referencedGlobals (.inl hmem)
  have hstyles := globalProblems_congr h .unknownStyleGlobal fun reference hmem =>
    Template.mem_referencedGlobals (.inr hmem)
  simp only [computeDiagnostics, contextProblems, hincludes, hglobals, hstyles,
    cycleProblem?_congr h]

end Project

end Sitewright

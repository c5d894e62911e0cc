import Sitewright.Project.Stylesheet

/-!
The problems of a project. Those of a template are its own and those it has in this project: components
and assets that are not registered, globals without a value, and includes that lead back to it. They are
worked out when asked for and kept in the cache, so asking gives a new project too.
-/

namespace Sitewright.Project

open Template (Include Problem)

def includeProblem? (project : Project) (included : Include) : Option (Diagnostic TemplateCategory) :=
  match included.component with
  | some part =>
    if Naming.isComponentName part.text && !project.components.contains part.text then
      some ((Problem.unknownComponent part.text).located part.range)
    else none
  | none =>
    included.asset.bind fun part =>
      if Naming.isAssetPath part.text && !project.assets.contains part.text then
        some ((Problem.unknownAsset part.text).located part.range)
      else none

def globalProblems (project : Project) (problem : Text → Problem) (references : List GlobalReference) :
    List (Diagnostic TemplateCategory) :=
  (references.filter fun reference => !project.globals.contains reference.global).map fun reference =>
    (problem reference.global).located reference.part.range

/-- The problem of a component that includes itself, at the first include on the way. -/
def cycleProblem? (project : Project) (id : TemplateId) (includes : List Include) :
    Option (Diagnostic TemplateCategory) :=
  match id with
  | .page _ => none
  | .component name => do
    let cycle ← project.index.findCycle name
    let first ← cycle[1]?
    let part ← (includes.filterMap Include.component).find? fun part => part.text = first
    return (Problem.circularInclude cycle).located part.range

/-- The problems of a template in this project, after its own. -/
def contextProblems (project : Project) (template : Template) : List (Diagnostic TemplateCategory) :=
  let includes := template.includes
  let analysis := template.analysis
  includes.filterMap project.includeProblem?
    ++ project.globalProblems .unknownGlobal analysis.globals
    ++ project.globalProblems .unknownStyleGlobal analysis.styleGlobals
    ++ (project.cycleProblem? template.id includes).toList

def computeDiagnostics (project : Project) (template : Template) : List Record :=
  let name := some template.id.name
  template.diagnostics.toRecords name
    ++ (project.contextProblems template).map fun problem => problem.toRecord name

/-- All problems of a template; none for one that is not registered. -/
def templateDiagnostics (project : Project) (id : TemplateId) : List Record × Project :=
  match project.cache.get? id with
  | some records =>
    (records, { project with stats := { project.stats with reused := project.stats.reused + 1 } })
  | none =>
    match project.template? id with
    | none => ([], project)
    | some template =>
      let records := project.computeDiagnostics template
      (records, { project with
        cache := project.cache.insert id records
        stats := { project.stats with computed := project.stats.computed + 1 } })

def diagnosticsOf (project : Project) : List TemplateId → List Record × Project
  | [] => ([], project)
  | id :: rest =>
    let (records, project) := project.templateDiagnostics id
    let (others, project) := diagnosticsOf project rest
    (records ++ others, project)

/-- All problems of a project: refused globals, the style sheet, then components and pages. -/
def diagnostics (project : Project) : List Record × Project :=
  let (records, asked) := project.diagnosticsOf (project.templates.map Template.id)
  (project.droppedGlobals ++ project.stylesheet.diagnostics ++ records, asked)

end Sitewright.Project

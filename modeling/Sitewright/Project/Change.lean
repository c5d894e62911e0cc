import Sitewright.Project.Basic
import Sitewright.Project.Options

/-!
Changes to a project. Each change keeps the index up to date and drops from the cache the problems of
those templates that can observe it. A change that is refused gives an error and no project.
-/

namespace Sitewright.Project

/-- Drops the problems of some templates from the cache. -/
def invalidate (project : Project) (ids : TemplateSet) : Project :=
  { project with cache := project.cache.eraseAll ids.toList }

def indexed (project : Project) (template : Template) : Project :=
  { project with index := project.index.record template.id template.entry }

/-- Takes a template out of the index and the cache. -/
def forgotten (project : Project) (id : TemplateId) : Project :=
  { project with index := project.index.remove id, cache := project.cache.erase id }

/-! ## Settings -/

def setEnvironment (project : Project) (environment : Environment) : Project :=
  { project with environment }

def setCss (project : Project) (css : Text) : Project :=
  { project with css }

def setJs (project : Project) (js : Text) : Project :=
  { project with js }

/-! ## Globals -/

def refusedGlobal (name : Text) : Record :=
  let message :=
    if Naming.isReservedGlobal name then s!"`{String.ofList name}` is a reserved global name"
    else s!"invalid global name `{String.ofList name}`, expected `$` followed by a lowerCamelCase identifier"
  ⟨message, .error, ⟨0, 0⟩, "globals", none⟩

/-- Sets one global. A name that is refused, or a value that it already has, changes nothing. -/
def setGlobal (project : Project) (name value : Text) : Project :=
  if !Naming.isGlobalName name || project.globals.get? name = some value then project
  else
    invalidate { project with globals := project.globals.insert name value }
      (project.dependentsOfGlobal name)

def refusedGlobals (globals : List (Text × Text)) : List Record :=
  (globals.filter fun (name, _) => !Naming.isGlobalName name).map fun (name, _) => refusedGlobal name

/-- Sets globals one after another. The records of refused names stay with the project until the next
time. -/
def setGlobals (project : Project) (globals : List (Text × Text)) : Project :=
  let changed := globals.foldl (fun project (name, value) => project.setGlobal name value) project
  { changed with droppedGlobals := refusedGlobals globals }

def removeGlobal (project : Project) (name : Text) : Project :=
  if project.globals.contains name then
    invalidate { project with globals := project.globals.erase name } (project.dependentsOfGlobal name)
  else project

/-! ## Components -/

def addComponent (project : Project) (name source : Text) : Except Error Project :=
  if !Naming.isComponentName name then .error (.invalidComponentName name)
  else if project.components.contains name then .error (.duplicateComponent name)
  else
    let changed := indexed { project with components := project.components.insert name source }
      ⟨.component name, source⟩
    .ok (changed.invalidate (changed.dependentsOfComponent name))

def updateComponent (project : Project) (name source : Text) : Except Error Project :=
  if project.components.contains name then
    let changed := indexed { project with components := project.components.insert name source }
      ⟨.component name, source⟩
    .ok (changed.invalidate ((changed.dependentsOfComponent name).insert (.component name)))
  else .error (.unknownComponent name)

def removeComponent (project : Project) (name : Text) : Except Error Project :=
  if project.components.contains name then
    let changed := forgotten { project with components := project.components.erase name }
      (.component name)
    .ok (changed.invalidate (changed.dependentsOfComponent name))
  else .error (.unknownComponent name)

/-! ## Pages -/

def addPage (project : Project) (path source : Text) : Except Error Project :=
  if !Naming.isPagePath path then .error (.invalidPagePath path)
  else if project.pages.contains path then .error (.duplicatePage path)
  else
    .ok (indexed { project with pages := project.pages.insert path source } ⟨.page path, source⟩)

def updatePage (project : Project) (path source : Text) : Except Error Project :=
  if project.pages.contains path then
    let changed := indexed { project with pages := project.pages.insert path source }
      ⟨.page path, source⟩
    .ok (changed.invalidate (.ofList [.page path]))
  else .error (.unknownPage path)

def removePage (project : Project) (path : Text) : Except Error Project :=
  if project.pages.contains path then
    .ok (forgotten { project with pages := project.pages.erase path } (.page path))
  else .error (.unknownPage path)

/-! ## Assets -/

/-- Registers an asset. One that is known changes nothing. -/
def addAsset (project : Project) (path : Text) : Except Error Project :=
  if !Naming.isAssetPath path then .error (.invalidAssetPath path)
  else if project.assets.contains path then .ok project
  else
    .ok (invalidate { project with assets := project.assets.insert path }
      (project.dependentsOfAsset path))

/-- Removes an asset. One that is not known changes nothing. -/
def removeAsset (project : Project) (path : Text) : Project :=
  if project.assets.contains path then
    invalidate { project with assets := project.assets.erase path } (project.dependentsOfAsset path)
  else project

/-! ## From options -/

/-- Makes a project: settings and globals first, then assets, components and pages, each in order. -/
def ofOptions (options : Options) : Except Error Project := do
  let start := setGlobals
    { empty with environment := options.environment, css := options.css, js := options.js }
    options.globals.entries
  let assets ← options.assets.foldlM addAsset start
  let components ← options.components.foldlM
    (fun project (name, source) => project.addComponent name source) assets
  options.pages.foldlM (fun project (path, source) => project.addPage path source) components

end Sitewright.Project

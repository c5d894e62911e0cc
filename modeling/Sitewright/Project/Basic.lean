import Sitewright.Dependency
import Sitewright.Error
import Sitewright.Template.Render

/-!
Projects: components, pages, assets and globals that are rendered together. Templates are kept as their
sources, in the order in which they were registered. The index holds what each of them refers to, and
the cache holds the problems of templates that were asked for since the last change they can observe.
-/

namespace Sitewright

/-- How often the problems of a template were worked out and how often they were read from the cache. -/
structure CacheStats where
  computed : Nat
  reused : Nat
  deriving DecidableEq, Repr

structure Project where
  environment : Environment
  globals : Table Text Text
  /-- The problems of the last change of globals. -/
  droppedGlobals : List Record
  /-- Sources by name. -/
  components : Table Text Text
  /-- Sources by path. -/
  pages : Table Text Text
  assets : NameSet
  css : Text
  js : Text
  index : Index
  cache : Table TemplateId (List Record)
  stats : CacheStats
  deriving DecidableEq

namespace Project

def empty : Project := ⟨.development, ∅, [], ∅, ∅, ∅, [], [], .empty, ∅, ⟨0, 0⟩⟩

instance : Inhabited Project := ⟨empty⟩

def component? (project : Project) (name : Text) : Option Template :=
  (project.components.get? name).map fun source => ⟨.component name, source⟩

def page? (project : Project) (path : Text) : Option Template :=
  (project.pages.get? path).map fun source => ⟨.page path, source⟩

def template? (project : Project) : TemplateId → Option Template
  | .component name => project.component? name
  | .page path => project.page? path

/-- The components and then the pages, as registered. -/
def templates (project : Project) : List Template :=
  (project.components.entries.map fun (name, source) => ⟨.component name, source⟩)
    ++ project.pages.entries.map fun (path, source) => ⟨.page path, source⟩

/-! ## Dependencies -/

def dependencies (project : Project) (id : TemplateId) : Option Entry :=
  project.index.entry? id

def dependentsOfGlobal (project : Project) (name : Text) : TemplateSet :=
  project.index.dependentsOfGlobal name

def dependentsOfComponent (project : Project) (name : Text) : TemplateSet :=
  project.index.dependentsOfComponent name

def dependentsOfAsset (project : Project) (path : Text) : TemplateSet :=
  project.index.dependentsOfAsset path

/-! ## Rendering -/

def position? (project : Project) : TemplateId → Option Nat
  | .component name => project.components.position? name
  | .page path => project.pages.position? path

def productionKey (id : TemplateId) (position : Nat) : Text :=
  match id with
  | .component _ => 'c' :: Text.ofNat position
  | .page _ => 'p' :: Text.ofNat position

/-- The name under which the script registers a template. In production it counts the templates of its
kind, so that removing one renumbers those after it. -/
def key? (project : Project) (id : TemplateId) : Option Text :=
  (project.position? id).map fun position =>
    match project.environment with
    | .development => id.developmentKey
    | .production => productionKey id position

/-- The name under which the script would register a template. -/
def key (project : Project) (id : TemplateId) : Text :=
  (project.key? id).getD id.developmentKey

def compiledComponents (project : Project) : Table Text Compiled :=
  project.components.map fun name source => Template.compile ⟨.component name, source⟩

/-- The project as the surroundings of a rendering. -/
def site (project : Project) : Site :=
  ⟨project.compiledComponents, project.assets, project.globals, project.key, project.environment⟩

def render (project : Project) (path : Text) : Except Error Rendering :=
  match project.page? path with
  | some page => .ok (project.site.render page)
  | none => .error (.unknownPage path)

def renderComponent (project : Project) (name : Text) : Option Rendering :=
  (project.component? name).map project.site.render

def renderAll (project : Project) : List (Text × Rendering) :=
  let site := project.site
  project.pages.entries.map fun (path, source) => (path, site.render ⟨.page path, source⟩)

end Project

end Sitewright

import Sitewright.NameSet

/-!
Templates are components, known by name, and pages, known by path. A set of templates lists its
components before its pages, each in the order of names.
-/

namespace Sitewright

inductive TemplateKind where
  | component
  | page
  deriving DecidableEq, Repr

def TemplateKind.name : TemplateKind → String
  | .component => "component"
  | .page => "page"

/-- A component by its name, or a page by its path. -/
inductive TemplateId where
  | component (name : Text)
  | page (path : Text)
  deriving DecidableEq, Repr

namespace TemplateId

def kind : TemplateId → TemplateKind
  | component _ => .component
  | page _ => .page

def name : TemplateId → Text
  | component name => name
  | page path => path

def ofKind : TemplateKind → Text → TemplateId
  | .component, name => component name
  | .page, path => page path

/-- The readable key of a template: `layout/header` becomes `layout__header`, and the path
`/blog/post` becomes `_blog__post`. -/
def developmentKey : TemplateId → Text
  | component name => Text.replace '/' ['_', '_'] name
  | page ('/' :: rest) => '_' :: Text.replace '/' ['_', '_'] rest
  | page path => '_' :: Text.replace '/' ['_', '_'] path

end TemplateId

/-- A set of templates. -/
structure TemplateSet where
  components : NameSet
  pages : NameSet
  deriving DecidableEq

namespace TemplateSet

def empty : TemplateSet := ⟨∅, ∅⟩

def insert (set : TemplateSet) : TemplateId → TemplateSet
  | .component name => { set with components := set.components.insert name }
  | .page path => { set with pages := set.pages.insert path }

def ofList (ids : List TemplateId) : TemplateSet :=
  ids.foldr (fun id set => set.insert id) empty

/-- The members: components, then pages. -/
def toList (set : TemplateSet) : List TemplateId :=
  set.components.toList.map .component ++ set.pages.toList.map .page

instance : Membership TemplateId TemplateSet where
  mem set
    | .component name => name ∈ set.components
    | .page path => path ∈ set.pages

instance (id : TemplateId) (set : TemplateSet) : Decidable (id ∈ set) :=
  match id with
  | .component name => inferInstanceAs (Decidable (name ∈ set.components))
  | .page path => inferInstanceAs (Decidable (path ∈ set.pages))

@[simp] theorem mem_component {set : TemplateSet} {name : Text} :
    TemplateId.component name ∈ set ↔ name ∈ set.components := Iff.rfl

@[simp] theorem mem_page {set : TemplateSet} {path : Text} :
    TemplateId.page path ∈ set ↔ path ∈ set.pages := Iff.rfl

theorem mem_insert {set : TemplateSet} {id other : TemplateId} :
    other ∈ set.insert id ↔ other = id ∨ other ∈ set := by
  cases id <;> cases other <;> simp [insert]

theorem mem_ofList {ids : List TemplateId} {id : TemplateId} : id ∈ ofList ids ↔ id ∈ ids := by
  induction ids with
  | nil => cases id <;> simp [ofList, empty, EmptyCollection.emptyCollection]
  | cons first rest ih =>
    show id ∈ (ofList rest).insert first ↔ _
    rw [mem_insert, ih, List.mem_cons]

end TemplateSet

end Sitewright

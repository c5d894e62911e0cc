import Sitewright.Table
import Sitewright.Template.Analysis

/-!
Dependencies between templates. The index holds, for every registered template, the globals, components
and assets it refers to. A template depends on a component if it includes it, directly or through other
components; pages are never included, so no chain goes through them.
-/

namespace Sitewright

/-- What one template refers to. -/
structure Entry where
  globals : NameSet
  components : NameSet
  assets : NameSet
  deriving DecidableEq

def Template.entry (template : Template) : Entry :=
  ⟨template.referencedGlobals, .ofList template.componentNames, .ofList template.assetPaths⟩

/-- The entries of the registered templates. -/
structure Index where
  entries : Table TemplateId Entry
  deriving DecidableEq

namespace Index

def empty : Index := ⟨∅⟩

instance : Inhabited Index := ⟨empty⟩

def record (index : Index) (id : TemplateId) (entry : Entry) : Index :=
  ⟨index.entries.insert id entry⟩

def remove (index : Index) (id : TemplateId) : Index :=
  ⟨index.entries.erase id⟩

def entry? (index : Index) (id : TemplateId) : Option Entry :=
  index.entries.get? id

def withEntry (index : Index) (condition : Entry → Bool) : TemplateSet :=
  .ofList ((index.entries.entries.filter fun entry => condition entry.2).map Prod.fst)

def dependentsOfGlobal (index : Index) (name : Text) : TemplateSet :=
  index.withEntry fun entry => entry.globals.contains name

def dependentsOfAsset (index : Index) (path : Text) : TemplateSet :=
  index.withEntry fun entry => entry.assets.contains path

/-! ## Dependents of a component -/

def includers (index : Index) (names : NameSet) : TemplateSet :=
  index.withEntry fun entry => entry.components.toList.any names.contains

/-- Some components and those that include one of them. -/
def widen (index : Index) (names : NameSet) : NameSet :=
  (index.includers names).components.toList.foldl NameSet.insert names

/-- Some components and those that include one of them through at most so many steps. -/
def reached (index : Index) (names : NameSet) : Nat → NameSet
  | 0 => names
  | steps + 1 => index.widen (index.reached names steps)

/-- The templates that include a component, directly or through other components. A chain without
repetition is no longer than there are entries. -/
def dependentsOfComponent (index : Index) (name : Text) : TemplateSet :=
  index.includers (index.reached (.ofList [name]) index.entries.size)

/-! ## Cycles -/

def included (index : Index) (name : Text) : List Text :=
  match index.entry? (.component name) with
  | some entry => entry.components.toList
  | none => []

/-- A search: the names met so far, and the way from the name it began with to `goal`, if found. -/
structure Search where
  visited : List Text
  path : Option (List Text)
  deriving DecidableEq, Repr

/-- Searches below names one after another until one of them leads to `goal`. `below` searches below
one name. -/
def searchList (goal : Text) (below : Text → List Text → Search) : List Text → List Text → Search
  | [], visited => ⟨visited, none⟩
  | next :: rest, visited =>
    if next = goal then ⟨visited, some [next]⟩
    else if visited.contains next then searchList goal below rest visited
    else
      let search := below next (next :: visited)
      match search.path with
      | some path => { search with path := some (next :: path) }
      | none => searchList goal below rest search.visited

/-- Searches for `goal` below a name, at most so many names deep. -/
def searchBelow (index : Index) (goal : Text) : Nat → Text → List Text → Search
  | 0, _, visited => ⟨visited, none⟩
  | depth + 1, name, visited =>
    searchList goal (searchBelow index goal depth) (index.included name) visited

/-- The chain of includes from a component back to itself. A search meets no name twice, so it goes no
deeper than there are entries. -/
def findCycle (index : Index) (start : Text) : Option (List Text) :=
  ((index.searchBelow start (index.entries.size + 1) start []).path).map (start :: ·)

end Index

end Sitewright

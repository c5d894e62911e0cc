import Sitewright.Text.Basic

/-!
Misuse of the library: a name that is not registered, a name of the wrong form, a name used twice, or
options that cannot be read. Problems in sources are diagnostics and never errors.
-/

namespace Sitewright

/-- Why an operation was refused. -/
inductive Error where
  | unknownPage (path : Text)
  | unknownComponent (name : Text)
  | invalidComponentName (name : Text)
  | invalidPagePath (path : Text)
  | invalidAssetPath (path : Text)
  | duplicateComponent (name : Text)
  | duplicatePage (path : Text)
  | notAnElement (node : Nat)
  | unreadableOptions
  deriving DecidableEq, Repr

namespace Error

def message : Error → String
  | .unknownPage path => s!"no page registered at path: `{String.ofList path}`"
  | .unknownComponent name => s!"no component registered with name: `{String.ofList name}`"
  | .invalidComponentName name => s!"invalid component name: `{String.ofList name}`"
  | .invalidPagePath path => s!"invalid page path: `{String.ofList path}`"
  | .invalidAssetPath path => s!"invalid asset path: `{String.ofList path}`"
  | .duplicateComponent name => s!"duplicate component `{String.ofList name}`"
  | .duplicatePage path => s!"duplicate page `{String.ofList path}`"
  | .notAnElement node => s!"node {node} is not an element"
  | .unreadableOptions => "failed to parse project options"

def code : Error → String
  | .unknownPage _ => "unknown_page"
  | .unknownComponent _ => "unknown_component"
  | .invalidComponentName _ => "invalid_component_name"
  | .invalidPagePath _ => "invalid_page_path"
  | .invalidAssetPath _ => "invalid_asset_path"
  | .duplicateComponent _ => "duplicate_component"
  | .duplicatePage _ => "duplicate_page"
  | .notAnElement _ => "not_an_element"
  | .unreadableOptions => "config_parse"

/-- What to do about the error, where there is something to say. -/
def help : Error → Option String
  | .unknownPage _ => some "register the page with `Project::add_page` before rendering it"
  | .unknownComponent _ => none
  | .invalidComponentName _ =>
    some "component names are `/`-separated lowercase slugs, e.g. `layout/header`"
  | .invalidPagePath _ =>
    some "page paths start with `/` followed by lowercase slugs, e.g. `/blog/first-post`"
  | .invalidAssetPath _ => some "asset paths start with `/assets/` and contain no empty segments"
  | .duplicateComponent _ => some "each component name must be unique across the project"
  | .duplicatePage _ => some "each page path must be unique across the project"
  | .notAnElement _ => none
  | .unreadableOptions => some "check that the document matches the `ProjectOptions` shape"

end Error

end Sitewright

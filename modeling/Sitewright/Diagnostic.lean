import Sitewright.Text.Location

/-!
Problems found in a source. A diagnostic has a category of its kind of source, and the diagnostics of
one source are listed by category, in the order of the categories, and as reported within each.
A `Record` is a diagnostic that has left its source and names the template it belongs to.
-/

namespace Sitewright

inductive Severity where
  | warning
  | error
  deriving DecidableEq, Repr

def Severity.name : Severity → String
  | .warning => "warning"
  | .error => "error"

/-- The fixed categories of one kind of source. -/
class Category (κ : Type) where
  /-- Every category, in the order in which problems are listed. -/
  all : List κ
  /-- The name of a category in records. -/
  name : κ → String

inductive StyleCategory where
  /-- Braces, selectors or declarations that cannot be read. -/
  | malformed
  /-- Well formed text used in a way that has no meaning. -/
  | logical
  deriving DecidableEq, Repr

instance : Category StyleCategory where
  all := [.malformed, .logical]
  name
    | .malformed => "syntax"
    | .logical => "logical"

inductive TemplateCategory where
  | alpineDirectives
  | attributeNames
  | ifAttributes
  | includeElements
  | injectElements
  | inlineStyles
  | mustacheLocations
  | mustacheValues
  | outletElements
  | malformed
  | tagAttributes
  | dependencies
  | templateSpecific
  deriving DecidableEq, Repr

instance : Category TemplateCategory where
  all := [.alpineDirectives, .attributeNames, .ifAttributes, .includeElements, .injectElements,
    .inlineStyles, .mustacheLocations, .mustacheValues, .outletElements, .malformed, .tagAttributes,
    .dependencies, .templateSpecific]
  name
    | .alpineDirectives => "alpineDirectives"
    | .attributeNames => "attributeNames"
    | .ifAttributes => "ifAttributes"
    | .includeElements => "includeElements"
    | .injectElements => "injectElements"
    | .inlineStyles => "inlineCSS"
    | .mustacheLocations => "mustacheLocations"
    | .mustacheValues => "mustacheValues"
    | .outletElements => "outletElements"
    | .malformed => "syntax"
    | .tagAttributes => "tagAttributes"
    | .dependencies => "dependencies"
    | .templateSpecific => "templateSpecific"

def Category.ofName? {κ : Type} [Category κ] (name : String) : Option κ :=
  (Category.all : List κ).find? fun category => Category.name category == name

/-- A problem at a range of a source. -/
structure Diagnostic (κ : Type) where
  category : κ
  severity : Severity
  range : CharRange
  message : String
  deriving DecidableEq, Repr

/-- A diagnostic outside of its source. -/
structure Record where
  message : String
  severity : Severity
  range : CharRange
  category : String
  /-- The component name or page path it belongs to. -/
  template : Option Text
  deriving DecidableEq, Repr

namespace Diagnostic

variable {κ : Type}

def error (category : κ) (range : CharRange) (message : String) : Diagnostic κ :=
  ⟨category, .error, range, message⟩

def warning (category : κ) (range : CharRange) (message : String) : Diagnostic κ :=
  ⟨category, .warning, range, message⟩

def isError (diagnostic : Diagnostic κ) : Bool :=
  diagnostic.severity == .error

def shift (diagnostic : Diagnostic κ) (distance : Nat) : Diagnostic κ :=
  { diagnostic with range := diagnostic.range.shift distance }

def toRecord [Category κ] (diagnostic : Diagnostic κ) (template : Option Text) : Record :=
  ⟨diagnostic.message, diagnostic.severity, diagnostic.range, Category.name diagnostic.category,
    template⟩

end Diagnostic

structure Diagnostics (κ : Type) where
  /-- In the order in which they were reported. -/
  reported : List (Diagnostic κ)
  deriving DecidableEq, Repr

namespace Diagnostics

variable {κ : Type}

def empty : Diagnostics κ := ⟨[]⟩

instance : Inhabited (Diagnostics κ) := ⟨empty⟩

def push (diagnostics : Diagnostics κ) (diagnostic : Diagnostic κ) : Diagnostics κ :=
  ⟨diagnostics.reported ++ [diagnostic]⟩

def size (diagnostics : Diagnostics κ) : Nat :=
  diagnostics.reported.length

def isEmpty (diagnostics : Diagnostics κ) : Bool :=
  diagnostics.reported.isEmpty

variable [DecidableEq κ]

/-- The problems of one category, or all of them if none is chosen, as reported. -/
def only (diagnostics : Diagnostics κ) : Option κ → List (Diagnostic κ)
  | none => diagnostics.reported
  | some category => diagnostics.reported.filter fun diagnostic => diagnostic.category = category

def hasProblems (diagnostics : Diagnostics κ) (category : Option κ) : Bool :=
  !(diagnostics.only category).isEmpty

def hasErrors (diagnostics : Diagnostics κ) (category : Option κ) : Bool :=
  (diagnostics.only category).any Diagnostic.isError

variable [Category κ]

/-- All problems, by category. -/
def toList (diagnostics : Diagnostics κ) : List (Diagnostic κ) :=
  (Category.all : List κ).flatMap fun category => diagnostics.only (some category)

def get (diagnostics : Diagnostics κ) (category : Option κ) : List (Diagnostic κ) :=
  match category with
  | none => diagnostics.toList
  | some _ => diagnostics.only category

def toRecords (diagnostics : Diagnostics κ) (template : Option Text) : List Record :=
  diagnostics.toList.map fun diagnostic => diagnostic.toRecord template

end Diagnostics

end Sitewright

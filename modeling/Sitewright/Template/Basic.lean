import Sitewright.Markdown.Html
import Sitewright.Markup.Document
import Sitewright.Naming
import Sitewright.Template.Id
import Sitewright.Template.Problem

/-!
A template is its id and its source. Everything else is read off the source: its document, in which the
content of elements marked `markdown` has been converted, and what it includes.
-/

namespace Sitewright

/-- A component or a page as written. -/
structure Template where
  id : TemplateId
  source : Text
  deriving DecidableEq, Repr

namespace Template

open Markup

/-! ## Markdown content -/

/-- The text after its first bytes, unless a character would be cut. -/
def dropBytes? : Nat → Text → Option Text
  | 0, text => some text
  | _ + 1, [] => none
  | count + 1, c :: rest =>
    if c.utf8Size ≤ count + 1 then dropBytes? (count + 1 - c.utf8Size) rest else none

/-- The text without the bytes of blank that every line with something in it begins with, and without
empty lines at both ends. A line that cannot be cut there loses all its leading blanks. -/
def dedent (text : Text) : Text :=
  let lines := Text.lines text
  let indents := (lines.filter fun line => !Text.allBlank line).map fun line =>
    Text.byteSize (line.takeWhile isBlank)
  let indent := indents.min?.getD 0
  let cut := lines.map fun line => (dropBytes? indent line).getD (Text.trimStart line)
  Text.dropEndWhile (· == '\n') ((Text.join ['\n'] cut).dropWhile (· == '\n'))

/-- A document on the way, with the problems found so far. -/
structure Conversion where
  document : Document
  problems : List (Diagnostic TemplateCategory)
  deriving DecidableEq, Repr

def convertElement (source : Text) (conversion : Conversion) (target : Nat × Element) : Conversion :=
  let content := target.2.content
  let html := Markdown.toHtml (dedent (Text.sliceBytes source content))
  let (nodes, problems) := Markup.parse html
  let range := Text.charRange source content
  ⟨conversion.document.replaceChildren target.1 nodes content,
    conversion.problems ++ problems.map fun problem =>
      (Problem.markdownMarkup problem.fault.message).located range⟩

def markdownTargets (document : Document) : List (Nat × Element) :=
  document.nodes.filterMap fun (id, node) =>
    match node.element? with
    | some element => if element.hasAttribute "markdown".toList then some (id, element) else none
    | none => none

def convert (source : Text) : Conversion :=
  let (document, problems) := Document.parse source
  let problems := problems.map fun problem =>
    (Problem.markup problem.fault.message).located (Text.charRange source problem.span)
  (markdownTargets document).foldl (convertElement source) ⟨document, problems⟩

def document (template : Template) : Document :=
  (convert template.source).document

def markupProblems (template : Template) : List (Diagnostic TemplateCategory) :=
  (convert template.source).problems

/-- The characters of a span in a node. A node made from Markdown stands for all of its content. -/
def range (template : Template) (node : Node) (span : ByteSpan) : CharRange :=
  Text.charRange template.source (if node.synthetic then node.span else span)

def tagRange (template : Template) (node : Node) (element : Element) : CharRange :=
  template.range node ⟨node.span.start, node.span.start + Text.byteSize element.name + 1⟩

/-! ## Includes -/

/-- An `<include>` and what it names. -/
structure Include where
  node : Nat
  component : Option CodePart
  asset : Option CodePart
  deriving DecidableEq, Repr

def includePart (template : Template) (node : Node) (element : Element) (name : Text) :
    Option CodePart :=
  (element.attribute? name).map fun attr =>
    ⟨attr.valueOrEmpty, template.range node attr.valueOrNameSpan⟩

def include? (template : Template) (entry : Nat × Node) : Option Include :=
  match entry.2.element? with
  | none => none
  | some element =>
    if element.name = "include".toList then
      some ⟨entry.1, template.includePart entry.2 element "component".toList,
        template.includePart entry.2 element "asset".toList⟩
    else none

def includes (template : Template) : List Include :=
  template.document.nodes.filterMap template.include?

/-- The component that an include names, if the name can be one. -/
def Include.componentName? (included : Include) : Option Text :=
  included.component.bind fun part => if Naming.isComponentName part.text then some part.text else none

/-- The asset that an include names, if the path can be one. An include that also names a component
stands for the component alone. -/
def Include.assetPath? (included : Include) : Option Text :=
  match included.component with
  | some _ => none
  | none => included.asset.bind fun part => if Naming.isAssetPath part.text then some part.text else none

/-- The components that a template includes, in the order of first appearance. -/
def componentNames (template : Template) : List Text :=
  (template.includes.filterMap Include.componentName?).eraseDups

/-- The assets that a template includes, in the order of first appearance. -/
def assetPaths (template : Template) : List Text :=
  (template.includes.filterMap Include.assetPath?).eraseDups

end Template

end Sitewright

import Sitewright.Environment
import Sitewright.Table
import Sitewright.Template.Analysis
import Sitewright.Template.Binding

/-!
Rendering. The output of a node depends on its frame: the template it stands in and what the includer
gave to it, which is its properties, the content for its outlets and the chain of components that are
being expanded. Content for outlets is rendered in the frame that wrote it, so a slot is an output.

A component is never expanded inside itself, so expansions nest no deeper than there are components;
`Site.expand` takes that number of levels.
-/

namespace Sitewright

open Markup

/-! ## Output -/

/-- Markup, and the problems met on the way to it. -/
structure Output where
  html : Text
  reports : List Record
  deriving DecidableEq, Repr

namespace Output

def empty : Output := ⟨[], []⟩

def ofText (html : Text) : Output := ⟨html, []⟩

def ofRecord (record : Record) : Output := ⟨[], [record]⟩

instance : Inhabited Output := ⟨empty⟩

instance : Append Output where
  append a b := ⟨a.html ++ b.html, a.reports ++ b.reports⟩

def concat (outputs : List Output) : Output :=
  outputs.foldr (· ++ ·) empty

end Output

/-- A finished output; every problem is listed once, where it was first met. -/
structure Rendering where
  html : Text
  diagnostics : List Record
  deriving DecidableEq, Repr

/-- The output when nothing can follow any more. -/
def Output.finish (output : Output) : Rendering :=
  ⟨output.html, output.reports.eraseDups⟩

/-! ## What rendering knows -/

/-- A template with all that rendering reads off its source. -/
structure Compiled where
  template : Template
  forest : Forest (Nat × Node)
  outlets : NameSet
  bindings : List Directive.Binding
  forest_eq : forest = template.document.forest
  outlets_eq : outlets = template.analysis.outlets
  bindings_eq : bindings = Directive.bindings template.document

def Template.compile (template : Template) : Compiled :=
  let document := template.document
  ⟨template, document.forest, template.analysis.outlets, Directive.bindings document, rfl, rfl, rfl⟩

/-- The surroundings of a rendering. -/
structure Site where
  components : Table Text Compiled
  assets : NameSet
  globals : Table Text Text
  /-- The name under which the script registers a template. -/
  key : TemplateId → Text
  environment : Environment

/-- A site without components and assets. -/
def Site.alone (globals : Table Text Text) (environment : Environment) : Site :=
  ⟨∅, ∅, globals, TemplateId.developmentKey, environment⟩

/-- A template in the hands of its includer. -/
structure Frame where
  compiled : Compiled
  properties : Table Text Text
  /-- The content for its outlets. -/
  slots : Table Text Output
  /-- The components being expanded, outermost first. -/
  chain : List Text

/-- The frame of a template that nobody includes. -/
def Frame.outermost (template : Template) : Frame :=
  let chain := match template.id with
    | .component name => [name]
    | .page _ => []
  ⟨template.compile, ∅, ∅, chain⟩

/-! ## Text with tags -/

/-- Where a text with tags goes. -/
inductive Interpolation where
  | content
  | attributeValue
  | property
  deriving DecidableEq, Repr

/-- A text with the characters that markup reserves written as references. -/
def escapeText (text : Text) : Text :=
  text.flatMap fun c =>
    if c = '&' then "&amp;".toList
    else if c = '<' then "&lt;".toList
    else if c = '>' then "&gt;".toList
    else [c]

/-- A text with its quotes written as references. -/
def escapeQuotes (text : Text) : Text :=
  Text.replace '"' "&quot;".toList text

/-- What becomes of the text between tags. -/
def Interpolation.literal : Interpolation → Text → Text
  | .content, text => text
  | .attributeValue, text => escapeQuotes text
  | .property, text => text

/-- What becomes of the value of a tag. -/
def Interpolation.value : Interpolation → Text → Text
  | .content, text => escapeText text
  | .attributeValue, text => escapeQuotes (escapeText text)
  | .property, text => text

section

variable (site : Site) (frame : Frame)

/-- The values that a template sees. -/
def Frame.scope : Scope := ⟨site.globals.get?, frame.properties.get?⟩

def Frame.record (node : Node) (span : ByteSpan) (problem : Template.Problem) : Record :=
  (problem.located (frame.compiled.template.range node span)).toRecord
    (some frame.compiled.template.id.name)

def Frame.tagRecord (node : Node) (element : Element) (problem : Template.Problem) : Record :=
  (problem.located (frame.compiled.template.tagRange node element)).toRecord
    (some frame.compiled.template.id.name)

def Frame.evaluateTag (tag : Tag) : Evaluation :=
  match tag.expression with
  | .ok expression => expression.evaluate (frame.scope site)
  | .error _ => ⟨[], []⟩

def Frame.interpolate (node : Node) (text : Text) (base : Nat) (goal : Interpolation) : Output :=
  let scan := scanTags text
  ⟨scan.substitute goal.literal fun tag => goal.value (frame.evaluateTag site tag).value,
    scan.tags.flatMap fun tag =>
      (frame.evaluateTag site tag).unresolved.map fun name =>
        frame.record node (tag.expressionSpan.shift base) (.unresolvedTag name)⟩

/-! ## Conditions -/

/-- The value of a condition; one that cannot be read is false. -/
def Frame.evaluateCondition (condition : Attribute) : Evaluation :=
  match Expression.parse condition.valueOrEmpty with
  | .ok expression => expression.evaluate (frame.scope site)
  | .error _ => ⟨[], []⟩

def Frame.holds (condition : Attribute) : Bool :=
  (frame.evaluateCondition site condition).isTruthy

def Frame.conditionReports (node : Node) (condition : Attribute) : List Record :=
  (frame.evaluateCondition site condition).unresolved.map fun name =>
    frame.record node condition.valueOrNameSpan (.unresolvedCondition name)

/-- The output of an element after its `if`: a false one drops the markup and keeps the problems. -/
def Frame.guarded (node : Node) (element : Element) (output : Output) : Output :=
  match element.attribute? "if".toList with
  | none => output
  | some condition =>
    ⟨if frame.holds site condition then output.html else [],
      output.reports ++ frame.conditionReports site node condition⟩

/-! ## Plain elements -/

def unwrittenAttributes : List Text :=
  ["if", "markdown"].map String.toList

def Frame.renderValue (node : Node) (attr : Attribute) : Output :=
  match attr.value, attr.valueSpan with
  | some value, some span =>
    let inner :=
      if Naming.looksLikeDirective attr.name then .ofText (escapeQuotes value)
      else frame.interpolate site node value span.start .attributeValue
    ⟨"=\"".toList ++ inner.html ++ ['"'], inner.reports⟩
  | _, _ => .empty

/-- The output of the attribute at an index of an element; those at `removed` are not written. -/
def Frame.renderAttribute (node : Node) (removed : List Nat) (entry : Attribute × Nat) : Output :=
  if unwrittenAttributes.contains entry.1.name || removed.contains entry.2 then .empty
  else .ofText (' ' :: entry.1.name) ++ frame.renderValue site node entry.1

/-- The attributes that name what left the markup of an element. -/
def bindingAttributes (key : Text) (binding : Directive.Binding) : Text :=
  (if binding.states = [] then [] else " x-data=\"".toList ++ key ++ ['"'])
    ++ (if binding.moved = [] then [] else " x-bind=\"".toList ++ key ++ binding.suffix ++ ['"'])

/-- What left the markup of an element. In development nothing does. -/
def Frame.binding? (id : Nat) : Option Directive.Binding :=
  match site.environment with
  | .development => none
  | .production => Directive.find? frame.compiled.bindings id

def Frame.openingTag (id : Nat) (node : Node) (element : Element) : Output :=
  let binding := frame.binding? site id
  let removed := (binding.map Directive.Binding.removed).getD []
  let attributes := element.attributes.zipIdx.map (frame.renderAttribute site node removed)
  let generated := (binding.map (bindingAttributes (site.key frame.compiled.template.id))).getD []
  .ofText ('<' :: element.name) ++ Output.concat attributes ++ .ofText (generated ++ ['>'])

def closingTag (element : Element) : Output :=
  .ofText ("</".toList ++ element.name ++ ['>'])

def Frame.renderPlain (id : Nat) (node : Node) (element : Element) (inner : Output) : Output :=
  if isVoid element.name then frame.openingTag site id node element
  else frame.openingTag site id node element ++ inner ++ closingTag element

/-! ## Includes and outlets -/

def outputBelow (inner : Forest (Node × Output)) : Output :=
  .concat (inner.roots.map Prod.snd)

/-- The content of an include on the way, with an item for each node. -/
structure Content (α : Type) where
  slots : Table Text (List α)
  /-- What stands outside of every `<inject>`. -/
  implicit : List α
  /-- Whether that is more than comments and blanks. -/
  hasImplicit : Bool
  reports : List Record

section

variable {α : Type}

/-- Takes one `<inject>`. Of two for the same outlet only the first counts. -/
def Frame.collectInject (component : Compiled) (name : Text) (content : Content α) (node : Node)
    (element : Element) (inner : List α) : Content α :=
  let target := Template.outletName (element.attribute? "into".toList)
  if !Naming.isSafeSlug target || content.slots.contains target then content
  else
    let condition := element.attribute? "if".toList
    let content := { content with
      reports := content.reports
        ++ (condition.map (frame.conditionReports site node)).getD [] }
    if !(condition.all (frame.holds site)) then content
    else if !component.outlets.contains target then
      { content with
        reports := content.reports ++ [frame.tagRecord node element (.missingOutlet name target)] }
    else { content with slots := content.slots.insert target inner }

def Frame.collectNode (component : Compiled) (name : Text) (content : Content α)
    (tree : (Node × α) × Forest (Node × α)) : Content α :=
  let ((node, item), inner) := tree
  let plain (counts : Bool) : Content α :=
    { content with
      implicit := content.implicit ++ [item], hasImplicit := content.hasImplicit || counts }
  match node.kind with
  | .element element =>
    if element.name = "inject".toList then
      frame.collectInject site component name content node element (inner.roots.map Prod.snd)
    else plain true
  | .comment _ => plain false
  | .text text => plain (!Text.allBlank text)
  | .declaration _ => plain true

/-- The content of an include by outlet. What stands outside of every `<inject>` is for `main`, unless
there is an `<inject>` for `main`. -/
def Frame.collect (component : Compiled) (name : Text) (node : Node) (element : Element)
    (inner : Forest (Node × α)) : Content α :=
  let content := inner.trees.foldl (frame.collectNode site component name) ⟨∅, [], false, []⟩
  let main := "main".toList
  if !content.hasImplicit || content.slots.contains main then content
  else if component.outlets.contains main then
    { content with slots := content.slots.insert main content.implicit }
  else
    { content with
      reports := content.reports ++ [frame.tagRecord node element (.missingMainOutlet name)] }

end

def Frame.collectProperties (node : Node) (element : Element) : Table Text Text × List Record :=
  element.attributes.foldl (fun (properties, reports) attr =>
    if Template.includeAttributes.contains attr.name || !Naming.isPropertyName attr.name then
      (properties, reports)
    else
      let value := match attr.value, attr.valueSpan with
        | some value, some span => frame.interpolate site node value span.start .property
        | _, _ => .ofText "true".toList
      (properties.insert attr.name value.html, reports ++ value.reports)) (∅, [])

variable (expand : Frame → Output)

def Frame.renderComponent (node : Node) (element : Element) (inner : Forest (Node × Output))
    (attr : Attribute) : Output :=
  let name := attr.valueOrEmpty
  let problem (problem : Template.Problem) : Output :=
    .ofRecord (frame.record node attr.valueOrNameSpan problem)
  if !Naming.isComponentName name then .empty
  else if frame.chain.contains name then problem (.circularInclude (frame.chain ++ [name]))
  else
    match site.components.get? name with
    | none => problem (.unknownComponent name)
    | some component =>
      let (properties, propertyReports) := frame.collectProperties site node element
      let content := frame.collect site component name node element inner
      ⟨[], propertyReports ++ content.reports⟩
        ++ expand ⟨component, properties, content.slots.map fun _ => .concat, frame.chain ++ [name]⟩

/-- The output of an include of an asset: nothing but its problem. -/
def Frame.renderAsset (node : Node) (attr : Attribute) : Output :=
  let path := attr.valueOrEmpty
  if Naming.isAssetPath path && !site.assets.contains path then
    .ofRecord (frame.record node attr.valueOrNameSpan (.unknownAsset path))
  else .empty

def Frame.renderInclude (node : Node) (element : Element) (inner : Forest (Node × Output)) : Output :=
  match element.attribute? "component".toList with
  | some attr => frame.renderComponent site expand node element inner attr
  | none =>
    match element.attribute? "asset".toList with
    | some attr => frame.renderAsset site node attr
    | none => .empty

/-- The output of an outlet: the content for it, or else its own. -/
def Frame.renderOutlet (element : Element) (inner : Forest (Node × Output)) : Output :=
  match frame.slots.get? (Template.outletName (element.attribute? "name".toList)) with
  | some content => content
  | none => outputBelow inner

/-! ## Nodes -/

/-- The output of an element before its `if`, given the rendered nodes below it. -/
def Frame.renderUnguarded (id : Nat) (node : Node) (element : Element)
    (inner : Forest (Node × Output)) : Output :=
  if element.name = "include".toList then frame.renderInclude site expand node element inner
  else if element.name = "outlet".toList then frame.renderOutlet element inner
  else if element.name = "inject".toList || element.name = "style".toList then .empty
  else frame.renderPlain site id node element (outputBelow inner)

def Frame.renderElement (id : Nat) (node : Node) (element : Element)
    (inner : Forest (Node × Output)) : Output :=
  frame.guarded site node element (frame.renderUnguarded site expand id node element inner)

/-- The output of a node in an element named `parent`, given the rendered nodes below it. -/
def Frame.renderNode (parent : Option Text) (id : Nat) (node : Node)
    (inner : Forest (Node × Output)) : Output :=
  match node.kind with
  | .text text =>
    if parent = some "script".toList then .ofText text
    else frame.interpolate site node text node.span.start .content
  | .comment text =>
    match site.environment with
    | .development => .ofText ("<!--".toList ++ text ++ "-->".toList)
    | .production => .empty
  | .declaration text => .ofText ("<!".toList ++ text ++ ['>'])
  | .element element => frame.renderElement site expand id node element inner

def Frame.renderForest (parent : Option Text) : Forest (Nat × Node) → Forest (Node × Output)
  | .nil => .nil
  | .cons (id, node) below after =>
    let inner := renderForest node.name? below
    .cons (node, frame.renderNode site expand parent id node inner) inner (renderForest parent after)

def Frame.render : Output :=
  outputBelow (frame.renderForest site expand none frame.compiled.forest)

end

/-- The output of a component in its frame, with so many levels of components in it. -/
def Site.expand (site : Site) : Nat → Frame → Output
  | 0, _ => .empty
  | levels + 1, frame => frame.render site (site.expand levels)

def Site.renderFrame (site : Site) (frame : Frame) : Output :=
  frame.render site (site.expand site.components.size)

def Site.render (site : Site) (template : Template) : Rendering :=
  (site.renderFrame (Frame.outermost template)).finish

end Sitewright

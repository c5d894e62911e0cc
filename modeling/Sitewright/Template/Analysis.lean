import Sitewright.Style.Parser
import Sitewright.Template.Basic
import Sitewright.Template.Tag

/-!
What a template says by itself: its problems, the globals it refers to, the outlets it has and the
styles it brings. Nodes are visited in document order; what stands inside a `<style>` is style text and
not visited.
-/

namespace Sitewright.Template

open Markup

/-- What was learned about a template. -/
structure Analysis where
  diagnostics : Diagnostics TemplateCategory
  /-- Globals in tags and conditions. -/
  globals : List GlobalReference
  /-- Globals in styles. -/
  styleGlobals : List GlobalReference
  outlets : NameSet
  /-- Styles without syntax problems. -/
  styles : List Text
  deriving DecidableEq

namespace Analysis

def start (problems : List (Diagnostic TemplateCategory)) : Analysis := ⟨⟨problems⟩, [], [], ∅, []⟩

def report (analysis : Analysis) (problem : Problem) (range : CharRange) : Analysis :=
  { analysis with diagnostics := analysis.diagnostics.push (problem.located range) }

def reportIf (analysis : Analysis) (condition : Bool) (problem : Problem) (range : CharRange) :
    Analysis :=
  if condition then analysis.report problem range else analysis

end Analysis

/-- Attributes that an include takes for itself and does not pass on. -/
def includeAttributes : List Text :=
  ["component", "asset", "if"].map String.toList

/-- Whether the value of an attribute names something and therefore cannot hold tags. -/
def isStructural (element name : Text) : Bool :=
  (element == "include".toList && (name == "component".toList || name == "asset".toList))
    || (element == "inject".toList && name == "into".toList)
    || (element == "outlet".toList && name == "name".toList)

/-- The outlet that an attribute names; without the attribute it is `main`. -/
def outletName (attr : Option Attribute) : Text :=
  match attr with
  | none => "main".toList
  | some attr => attr.valueOrEmpty

section

variable (template : Template)

/-! ## Tags and conditions -/

def checkTag (node : Node) (base : Nat) (analysis : Analysis) (tag : Tag) : Analysis :=
  match tag.expression with
  | .ok (.global name) =>
    let range := template.range node (tag.expressionSpan.shift base)
    { analysis with globals := analysis.globals ++ [⟨⟨name, range⟩, name⟩] }
  | .ok _ => analysis
  | .error error =>
    analysis.report (.tagFault error.fault.message) (template.range node (error.span.shift base))

def checkTags (node : Node) (text : Text) (base : Nat) (analysis : Analysis) : Analysis :=
  let scan := scanTags text
  let analysis := match scan.unterminated with
    | some offset =>
      analysis.report .unterminatedTag (template.range node ⟨base + offset, base + offset + 2⟩)
    | none => analysis
  scan.tags.foldl (checkTag template node base) analysis

def checkCondition (node : Node) (attr : Attribute) (analysis : Analysis) : Analysis :=
  let value := attr.valueOrEmpty
  let span := attr.valueOrNameSpan
  if Text.allBlank value then analysis.report .missingCondition (template.range node attr.nameSpan)
  else if hasTag value then analysis.report .tagInCondition (template.range node span)
  else
    match Expression.parse value with
    | .ok expression =>
      let range := template.range node span
      { analysis with
        globals := analysis.globals ++ expression.globalSet.toList.map fun name =>
          ⟨⟨name, range⟩, name⟩ }
    | .error error =>
      analysis.report (.conditionFault error.fault.message)
        (template.range node (error.span.shift span.start))

/-! ## Attributes -/

def checkDirective (node : Node) (attr : Attribute) (analysis : Analysis) : Analysis :=
  let value := attr.valueOrEmpty
  let valueRange := template.range node attr.valueOrNameSpan
  let analysis :=
    if !Naming.isDirectiveName attr.name then
      analysis.report (.invalidDirective attr.name) (template.range node attr.nameSpan)
    else
      analysis.reportIf (attr.name == "x-for".toList && !Naming.isLoopExpression value) .invalidLoop
        valueRange
  analysis.reportIf (hasTag value) .tagInDirective valueRange

/-- Visits the value of an attribute that is no directive. -/
def checkValue (node : Node) (element : Element) (attr : Attribute) (analysis : Analysis) : Analysis :=
  if attr.name = "if".toList then checkCondition template node attr analysis
  else if attr.name = "markdown".toList then
    analysis.reportIf attr.value.isSome .markdownValue (template.range node attr.nameSpan)
  else if isStructural element.name attr.name then
    analysis.reportIf (hasTag attr.valueOrEmpty) (.tagInStructure attr.name element.name)
      (template.range node attr.valueOrNameSpan)
  else
    match attr.value, attr.valueSpan with
    | some value, some span => checkTags template node value span.start analysis
    | _, _ => analysis

def checkAttribute (node : Node) (element : Element) (foreign : Bool) (attr : Attribute)
    (analysis : Analysis) : Analysis :=
  let nameRange := template.range node attr.nameSpan
  if hasTag attr.name then analysis.report .tagInAttributeName nameRange
  else if Naming.looksLikeDirective attr.name then checkDirective template node attr analysis
  else
    checkValue template node element attr
      (analysis.reportIf
        (!foreign && element.name != "include".toList && !Naming.isAttributeName attr.name)
        (.invalidAttributeName attr.name) nameRange)

/-- Visits attributes after those with the names `seen`. -/
def checkAttributes (node : Node) (element : Element) (foreign : Bool) :
    List Text → List Attribute → Analysis → Analysis
  | _, [], analysis => analysis
  | seen, attr :: rest, analysis =>
    let analysis := analysis.reportIf (seen.contains attr.name) (.duplicateAttribute attr.name)
      (template.range node attr.nameSpan)
    checkAttributes node element foreign (attr.name :: seen) rest
      (checkAttribute template node element foreign attr analysis)

/-! ## Elements with a meaning of their own -/

/-- Visits the content of an include: whether there is any, and the outlets that were injected. -/
def checkIncludeContent : List Text → Bool → List (Nat × Node) → Analysis → Bool × Analysis
  | _, content, [], analysis => (content, analysis)
  | targets, content, (_, node) :: rest, analysis =>
    match node.kind with
    | .element element =>
      if element.name = "inject".toList then
        let target := outletName (element.attribute? "into".toList)
        checkIncludeContent (target :: targets) true rest
          (analysis.reportIf (targets.contains target) (.repeatedInject target)
            (template.tagRange node element))
      else checkIncludeContent targets true rest analysis
    | .text text => checkIncludeContent targets (content || !Text.allBlank text) rest analysis
    | .comment _ => checkIncludeContent targets content rest analysis
    | .declaration _ => checkIncludeContent targets true rest analysis

def checkProperties (node : Node) (element : Element) (analysis : Analysis) : Analysis :=
  element.attributes.foldl (fun analysis attr =>
    analysis.reportIf
      (!includeAttributes.contains attr.name && !hasTag attr.name && !Naming.isPropertyName attr.name)
      (.invalidPropertyName attr.name) (template.range node attr.nameSpan)) analysis

def checkIncludeTarget (node : Node) (element : Element) (analysis : Analysis) : Analysis :=
  let component := element.attribute? "component".toList
  let asset := element.attribute? "asset".toList
  let analysis := analysis.reportIf (component.isNone && asset.isNone) .missingIncludeTarget
    (template.tagRange node element)
  let analysis := match component with
    | none => analysis
    | some attr =>
      let value := attr.valueOrEmpty
      analysis.reportIf (!hasTag value && !Naming.isComponentName value) (.invalidComponentName value)
        (template.range node attr.valueOrNameSpan)
  match asset with
  | none => analysis
  | some attr =>
    let value := attr.valueOrEmpty
    let range := template.range node attr.valueOrNameSpan
    let analysis := analysis.reportIf (!hasTag value && !Naming.isAssetPath value)
      (.invalidAssetPath value) range
    analysis.reportIf component.isSome .ignoredAsset range

def checkInclude (node : Node) (element : Element) (below : Forest (Nat × Node))
    (analysis : Analysis) : Analysis :=
  let analysis := checkIncludeTarget template node element analysis
  let analysis := checkProperties template node element analysis
  let (content, analysis) := checkIncludeContent template [] false below.roots analysis
  let assetOnly := !element.hasAttribute "component".toList && element.hasAttribute "asset".toList
  analysis.reportIf (assetOnly && content) .ignoredContent (template.tagRange node element)

/-- Visits an inject; `parent` is the name of the element it stands in. -/
def checkInject (node : Node) (element : Element) (parent : Option Text) (analysis : Analysis) :
    Analysis :=
  let analysis := analysis.reportIf (parent != some "include".toList) .strayInject
    (template.tagRange node element)
  element.attributes.foldl (fun analysis attr =>
    if attr.name = "into".toList then
      let value := attr.valueOrEmpty
      analysis.reportIf (!hasTag value && !Naming.isSafeSlug value) (.invalidInjectTarget value)
        (template.range node attr.valueOrNameSpan)
    else
      analysis.reportIf (attr.name != "if".toList) (.injectAttribute attr.name)
        (template.range node attr.nameSpan)) analysis

def checkOutletName (name : Text) (range : CharRange) (analysis : Analysis) : Analysis :=
  if !Naming.isSafeSlug name then analysis.reportIf (!hasTag name) (.invalidOutletName name) range
  else
    { analysis.reportIf (analysis.outlets.contains name) (.duplicateOutlet name) range with
      outlets := analysis.outlets.insert name }

def checkOutlet (node : Node) (element : Element) (analysis : Analysis) : Analysis :=
  let tagRange := template.tagRange node element
  let analysis := analysis.reportIf (template.id.kind == .page) .outletInPage tagRange
  let attr := element.attribute? "name".toList
  let range := match attr with
    | none => tagRange
    | some attr => template.range node attr.valueOrNameSpan
  let analysis := checkOutletName (outletName attr) range analysis
  element.attributes.foldl (fun analysis attr =>
    analysis.reportIf (attr.name != "name".toList && attr.name != "if".toList)
      (.outletAttribute attr.name) (template.range node attr.nameSpan)) analysis

def textBelow (below : Forest (Nat × Node)) : Text :=
  below.roots.flatMap fun (_, node) =>
    match node.kind with
    | .text text => text
    | _ => []

/-- Visits a style sheet in a template. `place` takes ranges of the sheet to ranges of the template. -/
def checkSheet (text : Text) (place : CharRange → CharRange) (analysis : Analysis) : Analysis :=
  let sheet := Style.Sheet.parse text
  let analysis := sheet.diagnostics.toList.foldl (fun analysis problem =>
    analysis.report (.style problem.severity problem.message) (place problem.range)) analysis
  match sheet.placeholder? with
  | some statement => analysis.report .misplacedPlaceholder (place statement.range)
  | none =>
    { analysis with
      styleGlobals := analysis.styleGlobals ++ sheet.references.map fun reference =>
        ⟨⟨reference.part.text, place reference.part.range⟩, reference.global⟩
      styles := if sheet.isMalformed then analysis.styles else analysis.styles ++ [text] }

def checkStyle (node : Node) (element : Element) (below : Forest (Nat × Node))
    (analysis : Analysis) : Analysis :=
  let text := textBelow below
  if Text.allBlank text then analysis
  else
    let content := template.range node element.content
    let place (range : CharRange) : CharRange :=
      if node.synthetic then content else range.shift content.start
    checkSheet text place (analysis.reportIf (hasTag text) .tagInStyle content)

def checkNamed (node : Node) (element : Element) (below : Forest (Nat × Node)) (parent : Option Text)
    (analysis : Analysis) : Analysis :=
  if element.name = "include".toList then checkInclude template node element below analysis
  else if element.name = "inject".toList then checkInject template node element parent analysis
  else if element.name = "outlet".toList then checkOutlet template node element analysis
  else if element.name = "style".toList then checkStyle template node element below analysis
  else
    let pageElement := ["html", "head", "body"].any fun name => element.name == name.toList
    analysis.reportIf (pageElement && template.id.kind == .component)
      (.pageElementInComponent element.name) (template.tagRange node element)

/-! ## Nodes -/

/-- Elements of other vocabularies, in which attributes may have any name. -/
def isForeign (element : Element) : Bool :=
  element.name == "svg".toList || element.name == "math".toList

def checkNode (node : Node) (below : Forest (Nat × Node)) (parent : Option Text) (foreign : Bool)
    (analysis : Analysis) : Analysis :=
  match node.kind with
  | .comment _ => analysis
  | .text text =>
    if parent = some "script".toList then analysis
    else checkTags template node text node.span.start analysis
  | .declaration _ =>
    analysis.reportIf (template.id.kind == .component) .declarationInComponent
      (template.range node node.span)
  | .element element =>
    checkNamed template node element below parent
      (checkAttributes template node element (foreign || isForeign element) [] element.attributes
        analysis)

/-- Whether a node has nodes below it to visit. Text and comments have none that count. -/
def visitsBelow (node : Node) : Bool :=
  match node.kind with
  | .element element => element.name != "style".toList
  | _ => false

/-- Visits the nodes of a forest. `parent` is the name of the element they stand in. -/
def visit (parent : Option Text) (foreign : Bool) : Analysis → Forest (Nat × Node) → Analysis
  | analysis, .nil => analysis
  | analysis, .cons (_, node) below after =>
    let analysis := checkNode template node below parent foreign analysis
    let foreignBelow := foreign || node.element?.any isForeign
    let analysis :=
      if visitsBelow node then visit node.name? foreignBelow analysis below else analysis
    visit parent foreign analysis after

/-- What a template says by itself. -/
def analysis : Analysis :=
  visit template none false (.start template.markupProblems) template.document.forest

def diagnostics : Diagnostics TemplateCategory :=
  template.analysis.diagnostics

/-- Every global that a template reads, in its styles too. -/
def referencedGlobals : NameSet :=
  let analysis := template.analysis
  .ofList ((analysis.globals ++ analysis.styleGlobals).map GlobalReference.global)

end

end Sitewright.Template

import Sitewright.Diagnostic

/-!
What can be wrong with a template, by itself or in its project, with its category, its severity and its
wording.
-/

namespace Sitewright.Template

inductive Problem where
  | invalidDirective (name : Text)
  | invalidLoop
  | invalidAttributeName (name : Text)
  | missingCondition
  | conditionFault (message : String)
  | unresolvedCondition (name : Text)
  | missingIncludeTarget
  | invalidComponentName (value : Text)
  | invalidAssetPath (value : Text)
  | ignoredAsset
  | invalidPropertyName (name : Text)
  | ignoredContent
  | repeatedInject (outlet : Text)
  | strayInject
  | invalidInjectTarget (value : Text)
  | missingOutlet (component outlet : Text)
  | missingMainOutlet (component : Text)
  | style (severity : Severity) (message : String)
  | misplacedPlaceholder
  | unknownStyleGlobal (name : Text)
  | tagInAttributeName
  | tagInStructure (attr element : Text)
  | tagInDirective
  | tagInCondition
  | tagInStyle
  | unterminatedTag
  | tagFault (message : String)
  | unresolvedTag (name : Text)
  | unknownGlobal (name : Text)
  | invalidOutletName (name : Text)
  | duplicateOutlet (name : Text)
  | markup (message : String)
  | markdownMarkup (message : String)
  | duplicateAttribute (name : Text)
  | markdownValue
  | injectAttribute (name : Text)
  | outletAttribute (name : Text)
  | unknownComponent (name : Text)
  | unknownAsset (path : Text)
  | circularInclude (chain : List Text)
  | declarationInComponent
  | pageElementInComponent (name : Text)
  | outletInPage
  deriving DecidableEq, Repr

namespace Problem

def chainText (chain : List Text) : String :=
  " -> ".intercalate (chain.map String.ofList)

def message : Problem → String
  | invalidDirective name => s!"`{String.ofList name}` is not a valid Alpine directive"
  | invalidLoop => "`x-for` expects `item in items` or `(item, index) in items`"
  | invalidAttributeName name => s!"`{String.ofList name}` is not a valid attribute name"
  | missingCondition => "`if` requires an expression"
  | conditionFault message => message
  | unresolvedCondition name => s!"`{String.ofList name}` has no value and is treated as false"
  | missingIncludeTarget => "`<include>` requires a `component` or `asset` attribute"
  | invalidComponentName value => s!"`{String.ofList value}` is not a valid component name"
  | invalidAssetPath value => s!"`{String.ofList value}` is not a valid asset path"
  | ignoredAsset => "`asset` is ignored when `component` is set"
  | invalidPropertyName name => s!"`{String.ofList name}` is not a valid property name"
  | ignoredContent => "asset includes ignore their content"
  | repeatedInject outlet => s!"outlet `{String.ofList outlet}` is injected more than once"
  | strayInject => "`<inject>` must be a direct child of `<include>`"
  | invalidInjectTarget value => s!"`{String.ofList value}` is not a valid outlet name"
  | missingOutlet component outlet =>
    s!"component `{String.ofList component}` has no outlet named `{String.ofList outlet}`"
  | missingMainOutlet component =>
    s!"component `{String.ofList component}` has no `main` outlet for this content"
  | style _ message => message
  | misplacedPlaceholder => "`@inlineCSS` can only be used in the project style sheet"
  | unknownStyleGlobal name => s!"unknown global `{String.ofList name}`"
  | tagInAttributeName => "mustache tags can't be used in attribute names"
  | tagInStructure attr element =>
    s!"mustache tags can't be used in `{String.ofList attr}` on `<{String.ofList element}>`"
  | tagInDirective => "mustache tags can't be used in Alpine directives"
  | tagInCondition => "`if` takes an expression, not a mustache tag"
  | tagInStyle => "mustache tags can't be used in `<style>`"
  | unterminatedTag => "unterminated mustache tag"
  | tagFault message => message
  | unresolvedTag name => s!"`{String.ofList name}` has no value"
  | unknownGlobal name => s!"unknown global `{String.ofList name}`"
  | invalidOutletName name => s!"`{String.ofList name}` is not a valid outlet name"
  | duplicateOutlet name => s!"duplicate outlet `{String.ofList name}`"
  | markup message => message
  | markdownMarkup message => s!"markdown produced invalid html: {message}"
  | duplicateAttribute name => s!"duplicate attribute `{String.ofList name}`"
  | markdownValue => "`markdown` is a boolean attribute and its value is ignored"
  | injectAttribute name => s!"`<inject>` doesn't support the `{String.ofList name}` attribute"
  | outletAttribute name => s!"`<outlet>` doesn't support the `{String.ofList name}` attribute"
  | unknownComponent name => s!"unknown component `{String.ofList name}`"
  | unknownAsset path => s!"unknown asset `{String.ofList path}`"
  | circularInclude chain => s!"circular include: {chainText chain}"
  | declarationInComponent => "components can't contain a doctype"
  | pageElementInComponent name => s!"`<{String.ofList name}>` can't be used in a component"
  | outletInPage => "outlets can only be used in components"

def category : Problem → TemplateCategory
  | invalidDirective _ | invalidLoop => .alpineDirectives
  | invalidAttributeName _ => .attributeNames
  | missingCondition | conditionFault _ | unresolvedCondition _ => .ifAttributes
  | missingIncludeTarget | invalidComponentName _ | invalidAssetPath _ | ignoredAsset
  | invalidPropertyName _ | ignoredContent => .includeElements
  | repeatedInject _ | strayInject | invalidInjectTarget _ | missingOutlet _ _
  | missingMainOutlet _ => .injectElements
  | style _ _ | misplacedPlaceholder | unknownStyleGlobal _ => .inlineStyles
  | tagInAttributeName | tagInStructure _ _ | tagInDirective | tagInCondition
  | tagInStyle => .mustacheLocations
  | unterminatedTag | tagFault _ | unresolvedTag _ | unknownGlobal _ => .mustacheValues
  | invalidOutletName _ | duplicateOutlet _ => .outletElements
  | markup _ | markdownMarkup _ => .malformed
  | duplicateAttribute _ | markdownValue | injectAttribute _ | outletAttribute _ => .tagAttributes
  | unknownComponent _ | unknownAsset _ | circularInclude _ => .dependencies
  | declarationInComponent | pageElementInComponent _ | outletInPage => .templateSpecific

def severity : Problem → Severity
  | style severity _ => severity
  | unresolvedCondition _ | ignoredAsset | ignoredContent | missingOutlet _ _ | missingMainOutlet _
  | unknownStyleGlobal _ | unresolvedTag _ | unknownGlobal _ | duplicateAttribute _ | markdownValue
  | injectAttribute _ | outletAttribute _ | unknownAsset _ => .warning
  | _ => .error

def located (problem : Problem) (range : CharRange) : Diagnostic TemplateCategory :=
  ⟨problem.category, problem.severity, range, problem.message⟩

end Problem

end Sitewright.Template

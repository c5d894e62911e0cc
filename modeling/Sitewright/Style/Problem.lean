import Sitewright.Diagnostic

/-!
What can be wrong with a style sheet, with its category, its severity and its wording.
-/

namespace Sitewright.Style

inductive Problem where
  | unterminatedComment
  | unterminatedString
  | missingSelector
  | emptySelector (head : Text)
  | unexpectedClosing
  | missingBlock (text : Text)
  | missingColon (text : Text)
  | invalidProperty (property : Text)
  | missingValue (property : Text)
  | strayDeclaration (property : Text)
  | unclosedBlock (head : Text)
  | mediaWithoutQuery
  | reservedShorthand (name : Text)
  | invalidShorthand (name : Text)
  | nestedAtRule (name : Text)
  | danglingParent
  | nestedStatement
  | repeatedPlaceholder
  | detachedDeclaration (property : Text)
  | reservedGlobal (name : Text)
  | invalidGlobal (name : Text)
  | unknownGlobal (name : Text)
  deriving DecidableEq, Repr

namespace Problem

def message : Problem → String
  | unterminatedComment => "unterminated comment"
  | unterminatedString => "unterminated string"
  | missingSelector => "expected a selector before `\x7b`"
  | emptySelector head => s!"empty selector in `{String.ofList head}`"
  | unexpectedClosing => "unexpected `\x7d`"
  | missingBlock text => s!"expected `\x7b` after `{String.ofList text}`"
  | missingColon text => s!"expected `:` in declaration `{String.ofList text}`"
  | invalidProperty property => s!"invalid property name `{String.ofList property}`"
  | missingValue property => s!"missing value for `{String.ofList property}`"
  | strayDeclaration property => s!"declaration `{String.ofList property}` is outside of a rule"
  | unclosedBlock head => s!"unclosed block `{String.ofList head}`"
  | mediaWithoutQuery => "`@media` requires a query"
  | reservedShorthand name =>
    s!"`@{String.ofList name}` is a reserved keyword and can't be used as a media shorthand"
  | invalidShorthand name => s!"`@{String.ofList name}` is not a valid media shorthand"
  | nestedAtRule name => s!"`@{String.ofList name}` blocks are only allowed at the top level"
  | danglingParent => "`&` is used without a parent selector"
  | nestedStatement => "at-rule statements are only allowed at the top level"
  | repeatedPlaceholder => "`@inlineCSS` may only appear once"
  | detachedDeclaration property =>
    s!"declaration `{String.ofList property}` needs an enclosing selector"
  | reservedGlobal name =>
    s!"`{String.ofList name}` is a reserved keyword and can't be used as a global"
  | invalidGlobal name => s!"`{String.ofList name}` is not a valid global name"
  | unknownGlobal name => s!"unknown global `{String.ofList name}`"

def category : Problem → StyleCategory
  | unterminatedComment | unterminatedString | missingSelector | emptySelector _ | unexpectedClosing
  | missingBlock _ | missingColon _ | invalidProperty _ | missingValue _ | strayDeclaration _
  | unclosedBlock _ => .malformed
  | mediaWithoutQuery | reservedShorthand _ | invalidShorthand _ | nestedAtRule _ | danglingParent
  | nestedStatement | repeatedPlaceholder | detachedDeclaration _ | reservedGlobal _
  | invalidGlobal _ | unknownGlobal _ => .logical

/-- Only a variable without a global to stand for is a warning. -/
def severity : Problem → Severity
  | reservedGlobal _ | invalidGlobal _ | unknownGlobal _ => .warning
  | _ => .error

def located (problem : Problem) (range : CharRange) : Diagnostic StyleCategory :=
  ⟨problem.category, problem.severity, range, problem.message⟩

end Problem

end Sitewright.Style

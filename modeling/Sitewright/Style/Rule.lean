import Sitewright.Diagnostic
import Sitewright.Forest

/-!
The parts of a style sheet: rules with their declarations, nested as they are written, and statements
at the top level. A rule is a list of selectors, a media query, an at-rule such as `@keyframes spin`,
or a block whose head has no meaning; the content of the last kind is kept but adds no selector.
-/

namespace Sitewright.Style

/-- `property: value`. -/
structure Declaration where
  property : Text
  value : Text
  range : CharRange
  deriving DecidableEq, Repr

/-- What the head of a block says. -/
inductive Head where
  | style (selectors : List Text)
  /-- `@name` with the key `$name`, or `@media query` with the query as its key. -/
  | media (key : Text)
  /-- Another at-rule, which stands only at the top level. -/
  | atRule
  /-- No meaning. -/
  | transparent
  deriving DecidableEq, Repr

/-- A block without the blocks inside it. -/
structure Rule where
  head : Head
  /-- The head as written, with single spaces. -/
  text : Text
  range : CharRange
  declarations : List Declaration
  deriving DecidableEq, Repr

def Rule.selectors (rule : Rule) : List Text :=
  match rule.head with
  | .style selectors => selectors
  | _ => []

def Rule.mediaKey? (rule : Rule) : Option Text :=
  match rule.head with
  | .media key => some key
  | _ => none

/-- `@name …;` at the top level. -/
structure Statement where
  /-- Without the semicolon, with single spaces. -/
  text : Text
  range : CharRange
  /-- With the semicolon, if there is one. -/
  extent : CharRange
  deriving DecidableEq, Repr

/-- Whether the statement marks the place of the styles of templates. -/
def Statement.isPlaceholder (statement : Statement) : Bool :=
  statement.text == "@inlineCSS".toList

structure Sheet where
  source : Text
  /-- The blocks, numbered from one in document order; zero is the sheet itself. -/
  rules : Forest (Nat × Rule)
  statements : List Statement
  /-- The globals used, in reading order. -/
  references : List GlobalReference
  diagnostics : Diagnostics StyleCategory
  deriving DecidableEq, Repr

def Sheet.placeholder? (sheet : Sheet) : Option Statement :=
  sheet.statements.find? Statement.isPlaceholder

def Sheet.placeholders (sheet : Sheet) : List Statement :=
  sheet.statements.filter Statement.isPlaceholder

def Sheet.isMalformed (sheet : Sheet) : Bool :=
  sheet.diagnostics.hasProblems (some .malformed)

end Sitewright.Style

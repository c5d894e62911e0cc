import Sitewright.Project.Basic
import Sitewright.Style.Build

/-!
The style sheet of a project: its own sheet with the styles of all templates at the place marked
`@inlineCSS;`, or after it if no place is marked. Media blocks follow the order of the globals, and the
values of the globals are put in last.
-/

namespace Sitewright

structure Stylesheet where
  css : Text
  diagnostics : List Record
  deriving DecidableEq, Repr

namespace Project

def inlineStyles (project : Project) : Text :=
  Text.join ['\n'] (project.templates.flatMap fun template => template.analysis.styles)

def replaceRange (text : Text) (range : CharRange) (substitute : Text) : Text :=
  text.take range.start ++ substitute ++ text.drop range.stop

/-- The sheet with the styles of templates at its first mark. Other marks are dropped. -/
def fillPlaceholders (css inline : Text) (placeholders : List Style.Statement) : Text :=
  placeholders.zipIdx.foldr (fun (statement, index) merged =>
    replaceRange merged statement.extent (if index = 0 then inline else [])) css

def mergeStyles (css inline : Text) (placeholders : List Style.Statement) : Text :=
  if placeholders ≠ [] then fillPlaceholders css inline placeholders
  else if inline = [] then css
  else if Text.allBlank css then inline
  else css ++ '\n' :: inline

/-- The problems of the sheet of the project by itself. That there is one place for the styles of
templates concerns the whole project, so a second mark is filed under them. -/
def sheetRecords (sheet : Style.Sheet) : List Record :=
  let repeats := (sheet.placeholders.drop 1).map Style.Statement.range
  (sheet.diagnostics.toRecords none).map fun record =>
    if repeats.contains record.range then
      { record with category := Category.name TemplateCategory.inlineStyles }
    else record

def unresolvedRecords (sheet : Style.Sheet) (unresolved : List Text) : List Record :=
  unresolved.flatMap fun name =>
    (sheet.references.filter fun reference => reference.global = name).map fun reference =>
      ((Style.Problem.unknownGlobal name).located reference.part.range).toRecord none

/-- The style sheet of a project before the values of globals are put in. -/
def builtStyles (project : Project) : Text :=
  let sheet := Style.Sheet.parse project.css
  let merged := mergeStyles project.css project.inlineStyles sheet.placeholders
  (Style.Sheet.parse merged).buildOrdered project.globals.keys

def stylesheet (project : Project) : Stylesheet :=
  let sheet := Style.Sheet.parse project.css
  let result := Style.substitute project.globals.get? project.builtStyles
  ⟨result.css, sheetRecords sheet ++ unresolvedRecords sheet result.unresolved⟩

end Project

end Sitewright

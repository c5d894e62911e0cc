import Sitewright.Markdown.Inline
import Sitewright.Markdown.Outline

/-!
Calls of notes. A note has a number from its first call, and every call of a note is counted, so that a
link can lead back to it. The order is that of the text, and notes count where they stand in it.
-/

namespace Sitewright.Markdown

def calls (spans : Forest Span) : List Text :=
  spans.preorder.filterMap fun span =>
    match span with
    | .call label => some label
    | _ => none

/-- The labels that texts call. Without notes there are none. -/
def callsOf (scope : Scope) (texts : List Text) : List Text :=
  if scope.notes = [] then [] else texts.flatMap fun text => calls (spans scope text)

def Block.texts : Block → List Text
  | .paragraph text => [text]
  | .heading _ text => [text]
  | .table _ head body => head ++ body.flatten
  | _ => []

def callsIn (scope : Scope) (blocks : Forest Placed) : List Text :=
  blocks.preorder.flatMap fun placed => callsOf scope placed.block.texts

def noteNumber (before : List Text) (label : Text) : Nat :=
  (before ++ [label]).eraseDups.idxOf label + 1

end Sitewright.Markdown

import Sitewright.Markup.Node
import Sitewright.Markup.Token

/-!
Reading markup. The tokens of a source are put together with a stack of open elements. A closing tag
closes the innermost open element of its name and, before it, the elements opened since; an element
closed in this way, or by the end of the source, is a problem unless it needs no closing tag.
-/

namespace Sitewright.Markup

/-- An open element with the nodes it has so far. -/
structure OpenElement where
  element : Element
  start : Nat
  inside : Forest Node
  deriving DecidableEq, Repr

/-- A source read up to some token. -/
structure Building where
  /-- The complete nodes at the top level. -/
  top : Forest Node
  /-- The open elements, innermost first. -/
  elements : List OpenElement
  problems : List Problem
  deriving DecidableEq, Repr

namespace Building

def start : Building := ⟨.nil, [], []⟩

def report (building : Building) (problems : List Problem) : Building :=
  { building with problems := building.problems ++ problems }

def attach (building : Building) (nodes : Forest Node) : Building :=
  match building.elements with
  | [] => { building with top := building.top ++ nodes }
  | inner :: outer =>
    { building with elements := { inner with inside := inner.inside ++ nodes } :: outer }

/-- Closes the innermost open element. Its content ends at `contentStop`, and it ends at `stop`. -/
def close (building : Building) (contentStop stop : Nat) : Building :=
  match building.elements with
  | [] => building
  | inner :: outer =>
    let element :=
      { inner.element with content := ⟨inner.element.content.start, contentStop⟩ }
    attach { building with elements := outer }
      (.tree ⟨.element element, ⟨inner.start, stop⟩, false⟩ inner.inside)

def unclosed (opened : OpenElement) : List Problem :=
  if openEndedElements.contains opened.element.name then []
  else
    [⟨.unclosedElement opened.element.name,
      ⟨opened.start, opened.start + Text.byteSize opened.element.name + 1⟩⟩]

/-- Closes the innermost open element for want of a closing tag. -/
def closeImplicitly (stop : Nat) (building : Building) : Building :=
  match building.elements with
  | [] => building
  | inner :: _ => (building.close stop stop).report (unclosed inner)

/-- Closes the `n` innermost open elements for want of closing tags. -/
def closeMany (stop : Nat) : Nat → Building → Building
  | 0, building => building
  | n + 1, building => closeMany stop n (closeImplicitly stop building)

def closeTag (building : Building) (name : Text) (span : ByteSpan) : Building :=
  if isVoid name then building
  else
    let inner := building.elements.takeWhile fun opened => opened.element.name != name
    if inner.length = building.elements.length then
      building.report [⟨.unexpectedClosingTag name, span⟩]
    else (closeMany span.start inner.length building).close span.start span.stop

def step (building : Building) (scanned : Token × List Problem) : Building :=
  let building := building.report scanned.2
  let leaf (kind : NodeKind) (span : ByteSpan) : Building :=
    building.attach (.tree ⟨kind, span, false⟩ .nil)
  match scanned.1 with
  | .text text span => leaf (.text text) span
  | .comment text span => leaf (.comment text) span
  | .declaration text span => leaf (.declaration text) span
  | .opening element span =>
    { building with elements := ⟨element, span.start, .nil⟩ :: building.elements }
  | .complete element span none => leaf (.element element) span
  | .complete element span (some content) =>
    building.attach (.tree ⟨.element element, span, false⟩
      (.tree ⟨.text content, element.content, false⟩ .nil))
  | .closing name span => building.closeTag name span

def finish (building : Building) (stop : Nat) : Building :=
  closeMany stop building.elements.length building

end Building

def parse (source : Text) : Forest Node × List Problem :=
  let building :=
    ((tokens source).foldl Building.step .start).finish (Text.byteSize source)
  (building.top, building.problems)

end Sitewright.Markup

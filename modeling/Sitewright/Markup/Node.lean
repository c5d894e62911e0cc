import Sitewright.Forest
import Sitewright.Markup.Element

/-!
Nodes of documents.
-/

namespace Sitewright.Markup

inductive NodeKind where
  | element (element : Element)
  | text (text : Text)
  | comment (text : Text)
  /-- `<!…>`, without these marks. -/
  | declaration (text : Text)
  deriving DecidableEq, Repr

structure Node where
  kind : NodeKind
  span : ByteSpan
  /-- Made by the library and not written in the source. Its span, and all spans in it, are those of
  what it was made from. -/
  synthetic : Bool
  deriving DecidableEq, Repr

namespace Node

def element? (node : Node) : Option Element :=
  match node.kind with
  | .element element => some element
  | _ => none

def name? (node : Node) : Option Text :=
  node.element?.map Element.name

def isElement (node : Node) (name : Text) : Bool :=
  node.name? == some name

/-- The node as made from what stands at `span`. -/
def synthesized (span : ByteSpan) (node : Node) : Node :=
  let kind := match node.kind with
    | .element element =>
      .element { element with
        content := span
        attributes := element.attributes.map fun attr =>
          { attr with nameSpan := span, valueSpan := attr.valueSpan.map fun _ => span } }
    | other => other
  ⟨kind, span, true⟩

end Node

end Sitewright.Markup

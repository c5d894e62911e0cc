import Sitewright.Text.Location

/-!
Elements and attributes of markup, and the element names with rules of their own.
-/

namespace Sitewright.Markup

/-- An attribute as written. An attribute without `=` has neither value nor value span. -/
structure Attribute where
  name : Text
  value : Option Text
  nameSpan : ByteSpan
  /-- The bytes of the value without its quotes. -/
  valueSpan : Option ByteSpan
  deriving DecidableEq, Repr

def Attribute.valueOrEmpty (attr : Attribute) : Text :=
  attr.value.getD []

def Attribute.valueOrNameSpan (attr : Attribute) : ByteSpan :=
  attr.valueSpan.getD attr.nameSpan

structure Element where
  /-- In small letters. -/
  name : Text
  attributes : List Attribute
  /-- Written as `<name />`. -/
  selfClosing : Bool
  /-- The bytes between the opening and the closing tag. -/
  content : ByteSpan
  deriving DecidableEq, Repr

def Element.attribute? (element : Element) (name : Text) : Option Attribute :=
  element.attributes.find? fun attr => attr.name == name

def Element.hasAttribute (element : Element) (name : Text) : Bool :=
  (element.attribute? name).isSome

/-- Elements without content and closing tag. -/
def voidElements : List Text :=
  ["area", "base", "br", "col", "embed", "hr", "img", "input", "link", "meta", "param", "source",
    "track", "wbr"].map String.toList

/-- Elements whose content is text up to their closing tag. -/
def rawElements : List Text :=
  ["script", "style"].map String.toList

/-- Elements that need no closing tag. -/
def openEndedElements : List Text :=
  ["body", "colgroup", "dd", "dt", "head", "html", "li", "optgroup", "option", "p", "rp", "rt",
    "tbody", "td", "tfoot", "th", "thead", "tr"].map String.toList

def isVoid (name : Text) : Bool :=
  voidElements.contains name

end Sitewright.Markup

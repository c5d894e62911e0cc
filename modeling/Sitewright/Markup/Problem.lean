import Sitewright.Text.Location

/-!
What can be wrong with markup, and its wording.
-/

namespace Sitewright.Markup

inductive Fault where
  | unterminatedComment
  | unterminatedDeclaration
  | unterminatedClosingTag (name : Text)
  | unexpectedClosingTag (name : Text)
  | unclosedElement (name : Text)
  | unterminatedTag (name : Text)
  | missingAttributeName
  | unterminatedValue (name : Text)
  deriving DecidableEq, Repr

def Fault.message : Fault → String
  | .unterminatedComment => "unterminated comment"
  | .unterminatedDeclaration => "unterminated `<!` declaration"
  | .unterminatedClosingTag name => s!"unterminated closing tag `</{String.ofList name}`"
  | .unexpectedClosingTag name => s!"unexpected closing tag `</{String.ofList name}>`"
  | .unclosedElement name => s!"element `<{String.ofList name}>` is not closed"
  | .unterminatedTag name => s!"unterminated tag `<{String.ofList name}`"
  | .missingAttributeName => "expected an attribute name"
  | .unterminatedValue name => s!"unterminated value for attribute `{String.ofList name}`"

structure Problem where
  fault : Fault
  span : ByteSpan
  deriving DecidableEq, Repr

end Sitewright.Markup

import Sitewright.Markdown.Line

/-!
Markup inside of Markdown: tags, comments, instructions, declarations and sections of character data.
Every reader takes a text and gives what follows the markup at its beginning.
-/

namespace Sitewright.Markdown.Tag

def isGap (c : Char) : Bool := isSpace c || isLineEnd c

def beginsAttribute (c : Char) : Bool := c.isAlpha || c = '_' || c = ':'

def inAttribute (c : Char) : Bool := beginsAttribute c || c.isDigit || c = '.' || c = '-'

def inBareValue (c : Char) : Bool :=
  !isGap c && c ≠ '"' && c ≠ '\'' && c ≠ '=' && c ≠ '<' && c ≠ '>' && c ≠ '\x60'

/-- The text after the first occurrence of a phrase. -/
def through? (phrase text : Text) : Option Text :=
  (Text.cut phrase text).map Prod.snd

def name? : Text → Option (Text × Text)
  | c :: rest =>
    if c.isAlpha then
      let more := rest.takeWhile fun c => c.isAlphanum || c = '-'
      some (c :: more, rest.drop more.length)
    else none
  | [] => none

def value? : Text → Option Text
  | '"' :: rest => through? ['"'] rest
  | '\'' :: rest => through? ['\''] rest
  | text =>
    let rest := text.dropWhile inBareValue
    if rest.length < text.length then some rest else none

/-- The text after an attribute: its name, and a value if there is an equals sign. -/
def attribute? : Text → Option Text
  | c :: rest =>
    if beginsAttribute c then
      let rest := rest.dropWhile inAttribute
      match rest.dropWhile isGap with
      | '=' :: more => value? (more.dropWhile isGap)
      | _ => some rest
    else none
  | [] => none

/-- The text after the attributes and the end of an opening tag. An attribute needs a blank before it.
Every round takes one. -/
def attributes? : Nat → Text → Option Text
  | 0, _ => none
  | rounds + 1, text =>
    let after := text.dropWhile isGap
    match after with
    | '>' :: rest => some rest
    | '/' :: '>' :: rest => some rest
    | _ =>
      if after.length < text.length then (attribute? after).bind (attributes? rounds) else none

def opening? (text : Text) : Option Text :=
  (name? text).bind fun (_, rest) => attributes? (rest.length + 1) rest

def closing? (text : Text) : Option Text :=
  (name? text).bind fun (_, rest) =>
    match rest.dropWhile isGap with
    | '>' :: rest => some rest
    | _ => none

def tag? : Text → Option Text
  | '<' :: '/' :: rest => closing? rest
  | '<' :: rest => opening? rest
  | _ => none

/-- The text after a comment, from after its beginning. A comment may be empty in two ways. -/
def comment? : Text → Option Text
  | '>' :: rest => some rest
  | '-' :: '>' :: rest => some rest
  | text => through? "-->".toList text

def markup? : Text → Option Text
  | '<' :: '!' :: '-' :: '-' :: rest => comment? rest
  | '<' :: '?' :: rest => through? "?>".toList rest
  | '<' :: '!' :: c :: rest =>
    if c.isAlpha then through? ['>'] rest
    else (Text.after? "[CDATA[".toList (c :: rest)).bind (through? "]]>".toList)
  | text => tag? text

end Sitewright.Markdown.Tag

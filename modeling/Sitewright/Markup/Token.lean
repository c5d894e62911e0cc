import Sitewright.Markup.Element
import Sitewright.Markup.Problem
import Sitewright.Text.Blank

/-!
Tokens of markup: texts, comments, declarations, opening and closing tags, and elements whose content
is text up to their closing tag. The tokens of a source follow one another without a gap, and what a
token is depends only on the text from it on. All places are in bytes.
-/

namespace Sitewright.Markup

inductive Token where
  | text (text : Text) (span : ByteSpan)
  | comment (text : Text) (span : ByteSpan)
  /-- `<!…>`, without these marks. -/
  | declaration (text : Text) (span : ByteSpan)
  /-- An opening tag that waits for its closing tag. -/
  | opening (element : Element) (span : ByteSpan)
  /-- An element that is complete; its content, if any, is one text. -/
  | complete (element : Element) (span : ByteSpan) (content : Option Text)
  | closing (name : Text) (span : ByteSpan)
  deriving DecidableEq, Repr

/-- What was read from a text: the result, the problems on the way, the rest of the text and its first
byte. -/
structure Scan (α : Type) where
  result : α
  problems : List Problem
  rest : Text
  stop : Nat
  deriving DecidableEq, Repr

/-! ## Texts, comments and declarations -/

/-- Whether a text begins with `<` and something that makes it more than text. -/
def startsMarkup : Text → Bool
  | '<' :: c :: _ => c == '!' || c == '/' || c.isAlpha
  | _ => false

def textUntilMarkup : Text → Text × Text
  | [] => ([], [])
  | c :: rest =>
    if startsMarkup (c :: rest) then ([], c :: rest)
    else
      let (before, after) := textUntilMarkup rest
      (c :: before, after)

def scanText (start : Nat) (c : Char) (rest : Text) : Scan Token :=
  let (more, rest) := textUntilMarkup rest
  let stop := start + Text.byteSize (c :: more)
  ⟨.text (c :: more) ⟨start, stop⟩, [], rest, stop⟩

def scanComment (start : Nat) (body : Text) : Scan Token :=
  match Text.cut "-->".toList body with
  | some (text, rest) =>
    let stop := start + 4 + Text.byteSize text + 3
    ⟨.comment text ⟨start, stop⟩, [], rest, stop⟩
  | none =>
    let stop := start + 4 + Text.byteSize body
    ⟨.comment body ⟨start, stop⟩, [⟨.unterminatedComment, ⟨start, start + 4⟩⟩], [], stop⟩

def scanDeclaration (start : Nat) (body : Text) : Scan Token :=
  match Text.splitOnce '>' body with
  | some (text, rest) =>
    let stop := start + 2 + Text.byteSize text + 1
    ⟨.declaration text ⟨start, stop⟩, [], rest, stop⟩
  | none =>
    let stop := start + 2 + Text.byteSize body
    ⟨.declaration body ⟨start, stop⟩, [⟨.unterminatedDeclaration, ⟨start, start + 2⟩⟩], [], stop⟩

/-! ## Tags -/

def isTagChar (c : Char) : Bool :=
  c.isAlphanum || c == '-' || c == ':'

def scanClosing (start : Nat) (body : Text) : Scan Token :=
  let written := body.takeWhile isTagChar
  let after := body.dropWhile isTagChar
  let name := Text.toLower written
  let nameStop := start + 2 + Text.byteSize written
  match Text.splitOnce '>' after with
  | some (skipped, rest) =>
    let stop := nameStop + Text.byteSize skipped + 1
    ⟨.closing name ⟨start, stop⟩, [], rest, stop⟩
  | none =>
    let stop := nameStop + Text.byteSize after
    ⟨.closing name ⟨start, stop⟩, [⟨.unterminatedClosingTag name, ⟨start, nameStop⟩⟩], [], stop⟩

/-- An attribute name and the rest. It ends at a blank, `=`, `>`, `<` or `/>`. -/
def attributeName : Text → Text × Text
  | [] => ([], [])
  | c :: rest =>
    if isAsciiBlank c || c == '=' || c == '>' || c == '<' || (c == '/' && rest.head? == some '>') then
      ([], c :: rest)
    else
      let (more, rest) := attributeName rest
      (c :: more, rest)

def scanValue (name : Text) (nameStart start : Nat) (text : Text) : Scan (Text × ByteSpan) :=
  let quoted (quote : Char) (inner : Text) : Scan (Text × ByteSpan) :=
    match Text.splitOnce quote inner with
    | some (value, rest) =>
      let stop := start + 1 + Text.byteSize value
      ⟨(value, ⟨start + 1, stop⟩), [], rest, stop + 1⟩
    | none =>
      let stop := start + 1 + Text.byteSize inner
      ⟨(inner, ⟨start + 1, stop⟩), [⟨.unterminatedValue name, ⟨nameStart, start + 1⟩⟩], [], stop⟩
  match text with
  | '"' :: inner => quoted '"' inner
  | '\'' :: inner => quoted '\'' inner
  | _ =>
    let isValueChar (c : Char) : Bool := !isAsciiBlank c && c != '>'
    let value := text.takeWhile isValueChar
    let stop := start + Text.byteSize value
    ⟨(value, ⟨start, stop⟩), [], text.dropWhile isValueChar, stop⟩

/-- One attribute. A `=` without a name before it is a problem and is skipped. -/
def scanAttribute (start : Nat) (text : Text) : Scan (Option Attribute) :=
  let (name, rest) := attributeName text
  if name = [] then
    ⟨none, [⟨.missingAttributeName, ⟨start, start + 1⟩⟩], text.tail, start + 1⟩
  else
    let nameStop := start + Text.byteSize name
    let blanks := rest.takeWhile isAsciiBlank
    match rest.dropWhile isAsciiBlank with
    | '=' :: after =>
      let gap := after.takeWhile isAsciiBlank
      let valueStart := nameStop + Text.byteSize blanks + 1 + Text.byteSize gap
      let scan := scanValue name start valueStart (after.dropWhile isAsciiBlank)
      { scan with
        result := some ⟨name, some scan.result.1, ⟨start, nameStop⟩, some scan.result.2⟩ }
    | _ => ⟨some ⟨name, none, ⟨start, nameStop⟩, none⟩, [], rest, nameStop⟩

inductive TagEnd where
  | closed
  | selfClosed
  /-- At the end of the text, or at another `<`. -/
  | missing
  deriving DecidableEq, Repr

/-- The attributes of a tag up to its end. Every round takes at least one character. -/
def scanAttributes : Nat → Nat → Text → Scan (List Attribute × TagEnd)
  | 0, start, text => ⟨([], .missing), [], text, start⟩
  | _ + 1, start, [] => ⟨([], .missing), [], [], start⟩
  | rounds + 1, start, c :: rest =>
    if isAsciiBlank c then scanAttributes rounds (start + 1) rest
    else if c = '>' then ⟨([], .closed), [], rest, start + 1⟩
    else if c = '/' then
      match rest with
      | '>' :: rest => ⟨([], .selfClosed), [], rest, start + 2⟩
      | _ => scanAttributes rounds (start + 1) rest
    else if c = '<' then ⟨([], .missing), [], c :: rest, start⟩
    else
      let first := scanAttribute start (c :: rest)
      let others := scanAttributes rounds first.stop first.rest
      { others with
        result := (first.result.toList ++ others.result.1, others.result.2)
        problems := first.problems ++ others.problems }

/-! ## Elements with text as content -/

/-- The text before the first occurrence of `phrase`, which is in small letters, whatever the case of
the occurrence; and the rest from the occurrence on. -/
def cutFolded (phrase : Text) : Text → Option (Text × Text)
  | [] => if phrase = [] then some ([], []) else none
  | c :: rest =>
    if phrase.isPrefixOf (Text.toLower (c :: rest)) then some ([], c :: rest)
    else (cutFolded phrase rest).map fun (before, after) => (c :: before, after)

/-- An element whose content is text, after its opening tag. Its closing tag ends at the next `>`. -/
def scanRaw (element : Element) (span : ByteSpan) (body : Text) : Scan Token :=
  let done (text : Text) (stop : Nat) (problems : List Problem) (rest : Text) : Scan Token :=
    let element := { element with content := ⟨span.stop, span.stop + Text.byteSize text⟩ }
    ⟨.complete element ⟨span.start, stop⟩ (if text = [] then none else some text), problems, rest,
      stop⟩
  match cutFolded ('<' :: '/' :: element.name) body with
  | some (text, closing) =>
    let contentStop := span.stop + Text.byteSize text
    match Text.splitOnce '>' closing with
    | some (skipped, rest) => done text (contentStop + Text.byteSize skipped + 1) [] rest
    | none => done text (contentStop + Text.byteSize closing) [] []
  | none =>
    done body (span.stop + Text.byteSize body) [⟨.unclosedElement element.name, span⟩] []

/-- An opening tag after its `<`, or the whole element if it has no content to wait for. -/
def scanOpening (start : Nat) (body : Text) : Scan Token :=
  let written := body.takeWhile isTagChar
  let after := body.dropWhile isTagChar
  let name := Text.toLower written
  let nameStop := start + 1 + Text.byteSize written
  let tail := scanAttributes after.length nameStop after
  let (attributes, ending) := tail.result
  let element : Element := ⟨name, attributes, ending == .selfClosed, ⟨tail.stop, tail.stop⟩⟩
  let span : ByteSpan := ⟨start, tail.stop⟩
  match ending with
  | .missing =>
    ⟨.complete element span none,
      tail.problems ++ [⟨.unterminatedTag name, ⟨start, nameStop⟩⟩], tail.rest, tail.stop⟩
  | .selfClosed => ⟨.complete element span none, tail.problems, tail.rest, tail.stop⟩
  | .closed =>
    if isVoid name then ⟨.complete element span none, tail.problems, tail.rest, tail.stop⟩
    else if rawElements.contains name then
      let raw := scanRaw element span tail.rest
      { raw with problems := tail.problems ++ raw.problems }
    else ⟨.opening element span, tail.problems, tail.rest, tail.stop⟩

/-! ## All tokens -/

def startsTagName (text : Text) : Bool :=
  text.head?.any Char.isAlpha

def scanToken (start : Nat) (c : Char) (rest : Text) : Scan Token :=
  match c, rest with
  | '<', '!' :: '-' :: '-' :: body => scanComment start body
  | '<', '!' :: body => scanDeclaration start body
  | '<', '/' :: body =>
    if startsTagName body then scanClosing start body else scanText start '<' ('/' :: body)
  | '<', body => if startsTagName body then scanOpening start body else scanText start '<' body
  | c, rest => scanText start c rest

/-- The tokens of a text, each with its problems. Every round takes at least one character. -/
def tokensFrom : Nat → Nat → Text → List (Token × List Problem)
  | 0, _, _ => []
  | _ + 1, _, [] => []
  | rounds + 1, start, c :: rest =>
    let scan := scanToken start c rest
    (scan.result, scan.problems) :: tokensFrom rounds scan.stop scan.rest

def tokens (source : Text) : List (Token × List Problem) :=
  tokensFrom source.length 0 source

end Sitewright.Markup

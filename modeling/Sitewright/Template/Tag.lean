import Sitewright.Expression.Parser

/-!
Mustache tags: a single name between `{{` and the next `}}`, with blanks around it. `scanTags` cuts a
text into literal pieces and tags. A `{{` that is never closed belongs to the literal text at the end.
-/

namespace Sitewright

/-- A tag. All places are byte offsets in the text it was found in. -/
structure Tag where
  /-- With the braces. -/
  span : ByteSpan
  /-- Without the braces and the blanks inside them. -/
  expressionSpan : ByteSpan
  /-- What stands between the braces. -/
  body : Text
  expression : Except Expression.ParseError Expression

/-- A text cut at its tags. -/
structure TagScan where
  /-- Every tag with the literal text before it. -/
  pieces : List (Text × Tag)
  /-- The literal text after the last tag. -/
  tail : Text
  /-- The place of a `{{` that is never closed. -/
  unterminated : Option Nat

def TagScan.tags (scan : TagScan) : List Tag :=
  scan.pieces.map Prod.snd

def openMark : Text := ['\x7b', '\x7b']

def closeMark : Text := ['\x7d', '\x7d']

def hasTag (text : Text) : Bool :=
  Text.holds openMark text

/-- The tag with a body that begins at byte `start`, which is the place of its first brace. -/
def Tag.ofBody (start : Nat) (body : Text) : Tag :=
  let name := Text.trim body
  let nameStart := start + 2 + Text.byteSize (body.takeWhile isBlank)
  ⟨⟨start, start + 2 + Text.byteSize body + 2⟩, ⟨nameStart, nameStart + Text.byteSize name⟩, body,
    match Expression.parseLookup name with
    | .ok expression => .ok expression
    | .error error => .error { error with span := error.span.shift nameStart }⟩

/-- Cuts a text that begins at byte `start`. Every round takes a tag. -/
def scanTagsFrom : Nat → Nat → Text → TagScan
  | 0, _, text => ⟨[], text, none⟩
  | rounds + 1, start, text =>
    match Text.cut openMark text with
    | none => ⟨[], text, none⟩
    | some (before, after) =>
      let tagStart := start + Text.byteSize before
      match Text.cut closeMark after with
      | none => ⟨[], text, some tagStart⟩
      | some (body, rest) =>
        let tag := Tag.ofBody tagStart body
        let others := scanTagsFrom rounds tag.span.stop rest
        { others with pieces := (before, tag) :: others.pieces }

def scanTags (text : Text) : TagScan :=
  scanTagsFrom text.length 0 text

/-- Puts a cut text together again, with its literal pieces and its tags changed. -/
def TagScan.substitute (scan : TagScan) (literal : Text → Text) (resolve : Tag → Text) : Text :=
  (scan.pieces.flatMap fun (before, tag) => literal before ++ resolve tag) ++ literal scan.tail

end Sitewright

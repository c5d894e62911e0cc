import Sitewright.Markdown.Entity
import Sitewright.Markdown.Line
import Sitewright.Text.Blank
import Sitewright.Text.Case
import Sitewright.Text.Punctuation

/-!
Link destinations, titles and labels, and the definitions that give a destination to a label. Notes have
labels of their own.
-/

namespace Sitewright.Markdown

/-- Where a link leads, and its title. -/
structure Target where
  destination : Text
  title : Option Text
  deriving DecidableEq, Repr

structure Definition where
  label : Text
  target : Target
  deriving DecidableEq, Repr

def isGap (c : Char) : Bool := isSpace c || isLineEnd c

/-! ## Escapes -/

/-- A text with its escapes and character references resolved. Every round takes a character. -/
def unescapeFrom : Nat → Text → Text
  | 0, text => text
  | _, [] => []
  | rounds + 1, '\\' :: c :: rest =>
    if isAsciiPunctuation c then c :: unescapeFrom rounds rest
    else '\\' :: unescapeFrom rounds (c :: rest)
  | rounds + 1, '&' :: rest =>
    match reference? rest with
    | some (text, rest) => text ++ unescapeFrom rounds rest
    | none => '&' :: unescapeFrom rounds rest
  | rounds + 1, c :: rest => c :: unescapeFrom rounds rest

def unescape (text : Text) : Text := unescapeFrom text.length text

/-! ## Labels -/

/-- Cuts a label off from after its bracket; a bracket inside it needs a backslash. -/
def labelBody? : Text → Option (Text × Text)
  | [] => none
  | ']' :: rest => some ([], rest)
  | '[' :: _ => none
  | '\\' :: c :: rest =>
    if c = '[' || c = ']' || c = '\\' then
      (labelBody? rest).map fun (body, rest) => ('\\' :: c :: body, rest)
    else (labelBody? (c :: rest)).map fun (body, rest) => ('\\' :: body, rest)
  | c :: rest => (labelBody? rest).map fun (body, rest) => (c :: body, rest)

/-- Cuts a label in brackets off. A label is not blank and not too long. -/
def label? : Text → Option (Text × Text)
  | '[' :: rest =>
    (labelBody? rest).bind fun (body, rest) =>
      if body.all isGap || 999 < body.length then none else some (body, rest)
  | _ => none

/-- A label by which others are found: case and the width of blanks do not matter. -/
def normalizeLabel (label : Text) : Text := Text.foldCase (Text.squeeze label)

/-! ## Destinations and titles -/

def bracketed? : Text → Option (Text × Text)
  | [] => none
  | '>' :: rest => some ([], rest)
  | '\\' :: c :: rest =>
    if isLineEnd c then none else (bracketed? rest).map fun (body, rest) => ('\\' :: c :: body, rest)
  | c :: rest =>
    if c = '<' || isLineEnd c then none
    else (bracketed? rest).map fun (body, rest) => (c :: body, rest)

/-- Cuts a destination without brackets off. Parentheses in it come in pairs; `depth` counts those that
are open. -/
def bare (depth : Nat) : Text → Option (Text × Text)
  | [] => if depth = 0 then some ([], []) else none
  | '\\' :: c :: rest =>
    if isAsciiPunctuation c then (bare depth rest).map fun (body, rest) => ('\\' :: c :: body, rest)
    else (bare depth (c :: rest)).map fun (body, rest) => ('\\' :: body, rest)
  | c :: rest =>
    if c.toNat ≤ 0x20 || c.toNat = 0x7f then
      if depth = 0 then some ([], c :: rest) else none
    else if c = '(' then
      if 32 ≤ depth then none else (bare (depth + 1) rest).map fun (body, rest) => (c :: body, rest)
    else if c = ')' then
      if depth = 0 then some ([], c :: rest)
      else (bare (depth - 1) rest).map fun (body, rest) => (c :: body, rest)
    else (bare depth rest).map fun (body, rest) => (c :: body, rest)

def destination? : Text → Option (Text × Text)
  | '<' :: rest => (bracketed? rest).map fun (body, rest) => (unescape body, rest)
  | text =>
    (bare 0 text).bind fun (body, rest) => if body = [] then none else some (unescape body, rest)

def titleBody? (opening closing : Char) : Text → Option (Text × Text)
  | [] => none
  | '\\' :: c :: rest =>
    if isAsciiPunctuation c then
      (titleBody? opening closing rest).map fun (body, rest) => ('\\' :: c :: body, rest)
    else (titleBody? opening closing (c :: rest)).map fun (body, rest) => ('\\' :: body, rest)
  | c :: rest =>
    if c = closing then some ([], rest)
    else if c = opening then none
    else (titleBody? opening closing rest).map fun (body, rest) => (c :: body, rest)

def title? : Text → Option (Text × Text)
  | c :: rest =>
    let closing := if c = '(' then ')' else c
    if c = '"' || c = '\'' || c = '(' then
      (titleBody? c closing rest).map fun (body, rest) => (unescape body, rest)
    else none
  | [] => none

def inlineTarget? (text : Text) : Option (Target × Text) :=
  let close (target : Target) (text : Text) : Option (Target × Text) :=
    match text.dropWhile isGap with
    | ')' :: rest => some (target, rest)
    | _ => none
  let text := text.dropWhile isGap
  match text with
  | ')' :: rest => some (⟨[], none⟩, rest)
  | _ =>
    (destination? text).bind fun (destination, rest) =>
      let after := rest.dropWhile isGap
      match if after.length < rest.length then title? after else none with
      | some (title, rest) => close ⟨destination, some title⟩ rest
      | none => close ⟨destination, none⟩ rest

/-! ## Definitions -/

def lineRest? (text : Text) : Option Text :=
  match text.dropWhile isSpace with
  | [] => some []
  | c :: rest => if isLineEnd c then some rest else none

/-- Drops blanks with at most one line end in them. -/
def dropGap (text : Text) : Text :=
  match text.dropWhile isSpace with
  | c :: rest => if isLineEnd c then rest.dropWhile isSpace else c :: rest
  | [] => []

/-- Cuts a definition off. A title that does not end its line is no title. -/
def definition? (text : Text) : Option (Definition × Text) := do
  let (label, rest) ← label? (text.dropWhile isSpace)
  let rest ← match rest with
    | ':' :: rest => some rest
    | _ => none
  let (destination, rest) ← destination? (dropGap rest)
  let after := dropGap rest
  let titled := do
    if after.length = rest.length then none
    let (title, rest) ← title? after
    let rest ← lineRest? rest
    return (title, rest)
  match titled with
  | some (title, rest) => some (⟨normalizeLabel label, ⟨destination, some title⟩⟩, rest)
  | none =>
    (lineRest? rest).map fun rest => (⟨normalizeLabel label, ⟨destination, none⟩⟩, rest)

/-- Cuts definitions off, one after another. Every round takes one. -/
def definitions : Nat → Text → List Definition × Text
  | 0, text => ([], text)
  | rounds + 1, text =>
    match definition? text with
    | some (first, rest) =>
      let (others, rest) := definitions rounds rest
      (first :: others, rest)
    | none => ([], text)

/-! ## Notes -/

/-- Cuts the label of a note off from after its bracket and caret. There are no blanks in it, and it is
not too long. -/
def noteLabel? (text : Text) : Option (Text × Text) :=
  (labelBody? text).bind fun (body, rest) =>
    if body = [] || body.any isGap || 999 < body.length then none else some (normalizeLabel body, rest)

/-- What the labels in a text may refer to. -/
structure Scope where
  definitions : List Definition
  /-- The labels of notes. -/
  notes : List Text
  deriving DecidableEq, Repr

end Sitewright.Markdown

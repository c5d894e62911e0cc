import Sitewright.Config.Options
import Sitewright.Config.Toml.Scalar
import Sitewright.Config.Toml.Tables

/-!
TOML documents: one statement a line, which is a key with its value or the header of a table.
-/

namespace Sitewright.Config.Toml

/-! ## Between the statements -/

def dropSpaces (text : Text) : Text := text.dropWhile isSpace

def dropComment : Text → Text
  | '#' :: rest => rest.dropWhile isPrintable
  | text => text

/-- Drops blanks, comments and line ends. Every round takes a line. -/
def dropLines : Nat → Text → Text
  | 0, text => text
  | rounds + 1, text =>
    let text := dropComment (dropSpaces text)
    match newline? text with
    | some rest => dropLines rounds rest
    | none => text

def dropGaps (text : Text) : Text := dropLines text.length text

/-- Ends a statement: only a comment may follow on its line. -/
def endLine? (text : Text) : Option Text :=
  match dropComment (dropSpaces text) with
  | [] => some []
  | text => newline? text

/-! ## Keys -/

def isBareChar (c : Char) : Bool := c.isAlphanum || c = '_' || c = '-'

def simpleKey? (text : Text) : Option (Text × Text) :=
  match text with
  | [] => none
  | c :: _ =>
    if c = '"' || c = '\'' then shortText? text
    else
      let key := text.takeWhile isBareChar
      if key = [] then none else some (key, text.drop key.length)

/-- Cuts a dotted key off, with the blanks around it. Every round takes a part. -/
def dottedKey? : Nat → Text → Option (List Text × Text)
  | 0, _ => none
  | rounds + 1, text => do
    let (key, text) ← simpleKey? (dropSpaces text)
    match dropSpaces text with
    | '.' :: rest => (dottedKey? rounds rest).map fun (keys, rest) => (key :: keys, rest)
    | rest => some ([key], rest)

def key? (text : Text) : Option (List Text × Text) := dottedKey? text.length text

/-! ## Values -/

/-- Reads the items of a list from after its bracket or a comma. Every round takes an item. -/
def items? (value : Text → Option (Value × Text)) : Nat → Text → Option (List Value × Text)
  | 0, _ => none
  | rounds + 1, text =>
    match dropGaps text with
    | ']' :: rest => some ([], rest)
    | text => do
      let (item, text) ← value text
      match dropGaps text with
      | ',' :: rest => (items? value rounds rest).map fun (items, rest) => (item :: items, rest)
      | ']' :: rest => some ([item], rest)
      | _ => none

def assignment? (value : Text → Option (Value × Text)) (text : Text) :
    Option ((List Text × Value) × Text) := do
  let (keys, text) ← key? text
  let (assigned, text) ← value (dropSpaces (← exactly? '=' text))
  return ((keys, assigned), text)

/-- Reads the fields of a table in braces from after its brace or a comma. Every round takes a field. -/
def inlineFields? (value : Text → Option (Value × Text)) :
    Nat → List (Text × Item) → Text → Option (List (Text × Item) × Text)
  | 0, _, _ => none
  | rounds + 1, fields, text =>
    match dropGaps text with
    | '\x7d' :: rest => some (fields, rest)
    | text => do
      let ((keys, assigned), text) ← assignment? value text
      let fields ← assign (.value assigned) keys fields
      match dropGaps text with
      | ',' :: rest => inlineFields? value rounds fields rest
      | '\x7d' :: rest => some (fields, rest)
      | _ => none

/-- Cuts a value off. Lists and tables nest to a depth. -/
def value? : Nat → Text → Option (Value × Text)
  | 0, _ => none
  | depth + 1, text =>
    match text with
    | '[' :: rest =>
      (items? (value? depth) (rest.length + 1) rest).map fun (items, rest) => (.list items, rest)
    | '\x7b' :: rest =>
      (inlineFields? (value? depth) (rest.length + 1) [] rest).map fun (fields, rest) =>
        (.record (fieldValues fields), rest)
    | text => scalar? text

def maxDepth : Nat := 80

/-! ## Statements -/

/-- A document on the way: its fields, and the path of the last header. -/
structure Reading where
  fields : List (Text × Item)
  path : List Text

/-- Changes what stands at the end of a path of headers. -/
def Reading.define (reading : Reading) (path : List Text) (change : Option Item → Option Item) :
    Option Reading := do
  let key ← path.getLast?
  let fields ← within (alterField key change) path.dropLast reading.fields
  return ⟨fields, path⟩

def header? (reading : Reading) (text : Text) : Option (Reading × Text) := do
  let (path, text) ← key? text
  return (← reading.define path defineTable, ← exactly? ']' text)

def tablesHeader? (reading : Reading) (text : Text) : Option (Reading × Text) := do
  let (path, text) ← key? text
  return (← reading.define path appendTable, ← exactly? ']' (← exactly? ']' text))

def keyValue? (reading : Reading) (text : Text) : Option (Reading × Text) := do
  let ((keys, assigned), text) ← assignment? (value? maxDepth) text
  let fields ← within (assign (.value assigned) keys) reading.path reading.fields
  return ({ reading with fields }, text)

/-- Takes the statements of a text. Every round takes a statement. -/
def statements? : Nat → Reading → Text → Option Reading
  | 0, _, _ => none
  | rounds + 1, reading, text =>
    match dropGaps text with
    | [] => some reading
    | text => do
      let (reading, text) ← match text with
        | '[' :: '[' :: rest => tablesHeader? reading rest
        | '[' :: rest => header? reading rest
        | text => keyValue? reading text
      statements? rounds reading (← endLine? text)

def dropMark : Text → Text
  | '\ufeff' :: rest => rest
  | text => text

def read (text : Text) : Option Value :=
  (statements? (text.length + 1) ⟨[], []⟩ (dropMark text)).map fun reading =>
    .record (fieldValues reading.fields)

/-- A choice may be a key with an empty list or table. -/
def format : Format where
  refusesExtraItems := false
  isPayload
    | .list [] => true
    | .record [] => true
    | _ => false

def options? (text : Text) : Option Options :=
  (read text).bind (Config.options? format)

end Sitewright.Config.Toml

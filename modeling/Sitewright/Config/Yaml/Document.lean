import Sitewright.Config.Options
import Sitewright.Config.Yaml.Resolve
import Sitewright.Config.Yaml.Token

/-!
YAML documents: tokens to values. Anchors give names to values, and aliases stand for them. A text holds
one document; an empty one is a blank value.
-/

namespace Sitewright.Config.Yaml

/-- Tokens that are still to be read. -/
structure Reading where
  tokens : List Token
  /-- The values with names, the latest first. -/
  anchors : List (Text × Value)
  /-- The beginnings of tags by handle. -/
  handles : List (Text × Text)

namespace Reading

def peek (reading : Reading) : Option Token := reading.tokens.head?

def next (reading : Reading) : Reading := { reading with tokens := reading.tokens.drop 1 }

def atAny (reading : Reading) (tokens : List Token) : Bool :=
  reading.peek.all tokens.contains

end Reading

/-- A value that was not written. -/
def blank : Value := .scalar (some []) .null

/-- Reads a node. The two flags say whether block collections may follow, and whether a list whose
entries are not indented may. -/
abbrev NodeReader := Bool → Bool → Reading → Option (Value × Reading)

/-! ## Properties -/

structure Properties where
  anchor : Option Text
  tag : Option Text

def tagName? (handles : List (Text × Text)) (handle suffix : Text) : Option Text :=
  if handle = [] then some suffix else (handles.lookup handle).map (· ++ suffix)

def properties? (reading : Reading) : Option (Properties × Reading) :=
  match reading.tokens with
  | .anchor name :: .tag handle suffix :: rest => do
    let tag ← tagName? reading.handles handle suffix
    return (⟨some name, some tag⟩, { reading with tokens := rest })
  | .tag handle suffix :: .anchor name :: rest => do
    let tag ← tagName? reading.handles handle suffix
    return (⟨some name, some tag⟩, { reading with tokens := rest })
  | .anchor name :: rest => some (⟨some name, none⟩, { reading with tokens := rest })
  | .tag handle suffix :: rest => do
    let tag ← tagName? reading.handles handle suffix
    return (⟨none, some tag⟩, { reading with tokens := rest })
  | _ => some (⟨none, none⟩, reading)

def tagCollection (tag : Option Text) (value : Value) : Value :=
  match tag with
  | some ['!'] => .tagged ['!'] value
  | some ('!' :: name) => .tagged name value
  | _ => value

/-! ## Collections -/

section

variable (node : NodeReader)

def nodeOrBlank (block indentless : Bool) (ends : List Token) (reading : Reading) :
    Option (Value × Reading) :=
  if reading.atAny ends then some (blank, reading) else node block indentless reading

def blockList? : Nat → Reading → Option (List Value × Reading)
  | 0, _ => none
  | rounds + 1, reading =>
    match reading.peek with
    | some .blockEntry => do
      let (item, reading) ← nodeOrBlank node true false [.blockEntry, .closeBlock] reading.next
      let (items, reading) ← blockList? rounds reading
      return (item :: items, reading)
    | some .closeBlock => some ([], reading.next)
    | _ => none

def indentlessList? : Nat → Reading → Option (List Value × Reading)
  | 0, _ => none
  | rounds + 1, reading =>
    match reading.peek with
    | some .blockEntry => do
      let (item, reading) ←
        nodeOrBlank node true false [.blockEntry, .key, .value, .closeBlock] reading.next
      let (items, reading) ← indentlessList? rounds reading
      return (item :: items, reading)
    | _ => some ([], reading)

def valueAfter (block : Bool) (ends : List Token) (reading : Reading) : Option (Value × Reading) :=
  match reading.peek with
  | some .value => nodeOrBlank node block block ends reading.next
  | _ => some (blank, reading)

def blockRecord? : Nat → Reading → Option (List (Value × Value) × Reading)
  | 0, _ => none
  | rounds + 1, reading =>
    let ends : List Token := [.key, .value, .closeBlock]
    match reading.peek with
    | some .closeBlock => some ([], reading.next)
    | some .key => do
      let (key, reading) ← nodeOrBlank node true true ends reading.next
      let (value, reading) ← valueAfter node true ends reading
      let (fields, reading) ← blockRecord? rounds reading
      return ((key, value) :: fields, reading)
    | _ => none

/-- Reads one entry of a list in brackets; a key makes it a record of one field. -/
def flowItem? (reading : Reading) : Option (Value × Reading) :=
  match reading.peek with
  | some .key => do
    let (key, reading) ← nodeOrBlank node false false [.value, .flowEntry, .closeList] reading.next
    let (value, reading) ← valueAfter node false [.flowEntry, .closeList] reading
    return (.record [(key, value)], reading)
  | _ => node false false reading

def flowField? (reading : Reading) : Option ((Value × Value) × Reading) :=
  match reading.peek with
  | some .key => do
    let (key, reading) ← nodeOrBlank node false false [.value, .flowEntry, .closeRecord] reading.next
    let (value, reading) ← valueAfter node false [.flowEntry, .closeRecord] reading
    return ((key, value), reading)
  | _ => do
    let (key, reading) ← node false false reading
    return ((key, blank), reading)

/-- Reads entries between commas up to a closing token. A comma may come before it. -/
def flowEntries? {α : Type} (entry : Reading → Option (α × Reading)) (closing : Token) :
    Nat → Reading → Option (List α × Reading)
  | 0, _ => none
  | rounds + 1, reading =>
    if reading.peek = some closing then some ([], reading.next)
    else do
      let (first, reading) ← entry reading
      match reading.peek with
      | some .flowEntry =>
        let (rest, reading) ← flowEntries? entry closing rounds reading.next
        return (first :: rest, reading)
      | some token => if token = closing then some ([first], reading.next) else none
      | none => none

def collection? (reading : Reading) : Option (Value × Reading) :=
  let rounds := reading.tokens.length
  let list : List Value × Reading → Value × Reading := fun (items, reading) => (.list items, reading)
  let record : List (Value × Value) × Reading → Value × Reading := fun (fields, reading) =>
    (.record fields, reading)
  match reading.peek with
  | some .blockEntry => (indentlessList? node rounds reading).map list
  | some .openBlockList => (blockList? node rounds reading.next).map list
  | some .openBlockRecord => (blockRecord? node rounds reading.next).map record
  | some .openList => (flowEntries? (flowItem? node) .closeList rounds reading.next).map list
  | some .openRecord => (flowEntries? (flowField? node) .closeRecord rounds reading.next).map record
  | _ => none

/-- Keeps the value of a node under its anchor. -/
def named (anchor : Option Text) (result : Value × Reading) : Value × Reading :=
  match anchor with
  | none => result
  | some name => (result.1, { result.2 with anchors := (name, result.1) :: result.2.anchors })

def startsCollection (block indentless : Bool) : Token → Bool
  | .blockEntry => indentless
  | .openBlockList | .openBlockRecord => block
  | .openList | .openRecord => true
  | _ => false

/-- Reads a node after its properties. Inside of a node its own anchor stands for nothing usable, and a
node may be no more than its properties. An exclamation mark alone says nothing about a scalar. -/
def content? (properties : Properties) (block indentless : Bool) (reading : Reading) :
    Option (Value × Reading) :=
  let isNamed := properties.anchor.isSome || properties.tag.isSome
  match reading.peek with
  | some (.scalar text plain) =>
    some (scalarValue (properties.tag.filter (· ≠ ['!'])) text plain, reading.next)
  | token =>
    if token.any (startsCollection block indentless) then
      let inside := (named properties.anchor (.ofMeaning .unusable, reading)).2
      (collection? node inside).map fun (value, reading) =>
        (tagCollection properties.tag value, reading)
    else if isNamed then some (scalarValue properties.tag [] true, reading)
    else none

end

def node? : Nat → NodeReader
  | 0, _, _, _ => none
  | depth + 1, block, indentless, reading =>
    match reading.peek with
    | some (.alias name) => (reading.anchors.lookup name).map fun value => (value, reading.next)
    | _ => do
      let (properties, reading) ← properties? reading
      let result ← content? (node? depth) properties block indentless reading
      return named properties.anchor result

/-! ## Documents -/

def standardHandles : List (Text × Text) := [("!!".toList, standardTags), ("!".toList, "!".toList)]

/-- Takes the directives before a document; none for a repeated directive or a version that is neither
1.1 nor 1.2. -/
def directives? (seenVersion : Bool) : List (Text × Text) → List Token →
    Option (List (Text × Text) × List Token)
  | handles, .version major minor :: rest =>
    if seenVersion || major ≠ 1 || (minor ≠ 1 && minor ≠ 2) then none else directives? true handles rest
  | handles, .handle name start :: rest =>
    if (handles.map Prod.fst).contains name then none
    else directives? seenVersion ((name, start) :: handles) rest
  | handles, tokens => some (handles, tokens)

def ended (tokens : List Token) : Bool :=
  tokens.all (· = .documentEnd)

def document? (tokens : List Token) : Option Value := do
  if tokens = [] then some blank
  else
    let (own, rest) ← directives? false [] tokens
    let explicit := rest.head? = some .documentStart
    if rest.length ≠ tokens.length && !explicit then none
    let rest := if explicit then rest.drop 1 else rest
    let reading : Reading := ⟨rest, [], own ++ standardHandles⟩
    if explicit && reading.atAny [.documentEnd, .documentStart] then
      if ended rest then some blank else none
    else
      let (value, reading) ← node? (rest.length + 1) true false reading
      if ended reading.tokens then some value else none

def read (text : Text) : Option Value :=
  (tokens? text).bind document?

/-- A structure given as a list has no more items than fields. A choice is its name or a tag. -/
def format : Format where
  refusesExtraItems := true
  isPayload := fun _ => false

def options? (text : Text) : Option Options :=
  (read text).bind (Config.options? format)

end Sitewright.Config.Yaml

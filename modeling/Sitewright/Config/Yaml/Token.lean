import Sitewright.Config.Yaml.Scalar

/-!
Tokens of YAML. Indentation becomes tokens that open and close collections. That a scalar is a key shows
only at the colon after it, so the place of every token that may be a key is kept until then.
-/

namespace Sitewright.Config.Yaml

inductive Token where
  | version (major minor : Nat)
  | handle (name start : Text)
  | documentStart
  | documentEnd
  | openBlockList
  | openBlockRecord
  | closeBlock
  | openList
  | closeList
  | openRecord
  | closeRecord
  | blockEntry
  | flowEntry
  | key
  | value
  | alias (name : Text)
  | anchor (name : Text)
  | tag (handle suffix : Text)
  /-- A scalar, and whether it is a plain one. -/
  | scalar (text : Text) (plain : Bool)
  deriving DecidableEq, Repr

/-- A token that may turn out to be a key. -/
structure KeyPlace where
  /-- How many tokens come before it. -/
  place : Nat
  line : Nat
  column : Nat
  index : Nat
  /-- Whether there is no other reading. -/
  required : Bool
  deriving DecidableEq, Repr

/-- Tokens on the way. -/
structure Scanner where
  cursor : Cursor
  tokens : List Token
  /-- What stands inside the innermost block collection begins at this column or later. -/
  base : Nat
  /-- The same of the collections around it. -/
  outer : List Nat
  /-- Whether a token that begins here may be a key. -/
  keyAllowed : Bool
  /-- The possible key outside of all brackets, and inside of each of them, innermost first. -/
  keys : List (Option KeyPlace)
  deriving DecidableEq, Repr

namespace Scanner

def start (text : Text) : Scanner := ⟨.start text, [], 0, [], true, [none]⟩

def inFlow (scanner : Scanner) : Bool := 1 < scanner.keys.length

def push (scanner : Scanner) (token : Token) : Scanner :=
  { scanner with tokens := scanner.tokens ++ [token] }

def skip (scanner : Scanner) (count : Nat) : Scanner :=
  { scanner with cursor := scanner.cursor.skip count }

/-! ## Keys -/

/-- Gives up the innermost possible key; none if there is no other reading. -/
def dropKey? (scanner : Scanner) : Option Scanner :=
  match scanner.keys with
  | some key :: rest => if key.required then none else some { scanner with keys := none :: rest }
  | _ => some scanner

/-- Whether a possible key cannot be one any more: a key is within one line and not too long. -/
def isStale (cursor : Cursor) (key : KeyPlace) : Bool :=
  key.line < cursor.line || key.index + 1024 < cursor.index

def dropStale? (scanner : Scanner) : Option Scanner := do
  let keys ← scanner.keys.mapM fun
    | none => some none
    | some key =>
      if isStale scanner.cursor key then (if key.required then none else some none)
      else some (some key)
  return { scanner with keys }

def saveKey? (scanner : Scanner) : Option Scanner :=
  if scanner.keyAllowed then do
    let cursor := scanner.cursor
    let required := !scanner.inFlow && scanner.base = cursor.column + 1
    let scanner ← scanner.dropKey?
    let key := ⟨scanner.tokens.length, cursor.line, cursor.column, cursor.index, required⟩
    return { scanner with keys := some key :: scanner.keys.drop 1 }
  else some scanner

/-! ## Indentation -/

/-- Opens a block collection at a column, unless one is open there: puts a token before the token at
`place`. -/
def indent (scanner : Scanner) (column place : Nat) (token : Token) : Scanner :=
  if !scanner.inFlow && scanner.base ≤ column then
    { scanner with
      tokens := scanner.tokens.take place ++ token :: scanner.tokens.drop place
      base := column + 1
      outer := scanner.base :: scanner.outer }
  else scanner

/-- Closes the block collections that begin after a column; `limit` is one more than the column. -/
def closeBlocks (limit : Nat) : Nat → List Nat → List Token → Nat × List Nat × List Token
  | base, [], tokens => (base, [], tokens)
  | base, next :: outer, tokens =>
    if limit < base then closeBlocks limit next outer (tokens ++ [.closeBlock])
    else (base, next :: outer, tokens)

def unindent (scanner : Scanner) (limit : Nat) : Scanner :=
  if scanner.inFlow then scanner
  else
    let (base, outer, tokens) := closeBlocks limit scanner.base scanner.outer scanner.tokens
    { scanner with base, outer, tokens }

/-! ## Between the tokens -/

/-- Drops blanks, comments and line ends, and byte order marks at the beginning of lines. A tab does not
count as an indentation. -/
def dropGaps : Nat → Scanner → Scanner
  | 0, scanner => scanner
  | rounds + 1, scanner =>
    let marked := scanner.cursor.column = 0 && scanner.cursor.text.head? = some '\ufeff'
    let scanner := if marked then scanner.skip 1 else scanner
    let tabs := scanner.inFlow || !scanner.keyAllowed
    let blank (c : Char) : Bool := c = ' ' || (tabs && c = '\t')
    let scanner := scanner.skip (scanner.cursor.text.takeWhile blank).length
    let scanner := match scanner.cursor.text with
      | '#' :: _ => scanner.skip (scanner.cursor.text.takeWhile fun c => !isBreak c).length
      | _ => scanner
    match scanner.cursor.text with
    | c :: _ =>
      if isBreak c then
        dropGaps rounds { scanner with
          cursor := scanner.cursor.skipBreak, keyAllowed := scanner.keyAllowed || !scanner.inFlow }
      else scanner
    | [] => scanner

/-! ## Marks -/

/-- Takes a mark between documents or a directive: every block ends here. -/
def outermost? (scanner : Scanner) : Option Scanner := do
  let scanner ← (scanner.unindent 0).dropKey?
  return { scanner with keyAllowed := false }

def openBracket? (scanner : Scanner) (token : Token) : Option Scanner := do
  let scanner ← scanner.saveKey?
  return { (scanner.push token).skip 1 with keys := none :: scanner.keys, keyAllowed := true }

def closeBracket? (scanner : Scanner) (token : Token) : Option Scanner := do
  let scanner ← scanner.dropKey?
  let keys := if scanner.inFlow then scanner.keys.drop 1 else scanner.keys
  return { (scanner.push token).skip 1 with keys, keyAllowed := false }

def comma? (scanner : Scanner) : Option Scanner := do
  let scanner ← scanner.dropKey?
  return { (scanner.push .flowEntry).skip 1 with keyAllowed := true }

def dash? (scanner : Scanner) : Option Scanner := do
  if !scanner.inFlow && !scanner.keyAllowed then none
  let scanner := scanner.indent scanner.cursor.column scanner.tokens.length .openBlockList
  let scanner ← scanner.dropKey?
  return { (scanner.push .blockEntry).skip 1 with keyAllowed := true }

def question? (scanner : Scanner) : Option Scanner := do
  if !scanner.inFlow && !scanner.keyAllowed then none
  let scanner := scanner.indent scanner.cursor.column scanner.tokens.length .openBlockRecord
  let scanner ← scanner.dropKey?
  return { (scanner.push .key).skip 1 with keyAllowed := !scanner.inFlow }

def colon? (scanner : Scanner) : Option Scanner :=
  match scanner.keys with
  | some key :: rest =>
    let tokens := scanner.tokens.take key.place ++ .key :: scanner.tokens.drop key.place
    let scanner := { scanner with tokens, keys := none :: rest }
    let scanner := scanner.indent key.column key.place .openBlockRecord
    some { (scanner.push .value).skip 1 with keyAllowed := false }
  | _ =>
    if !scanner.inFlow && !scanner.keyAllowed then none
    else
      let scanner := scanner.indent scanner.cursor.column scanner.tokens.length .openBlockRecord
      some { (scanner.push .value).skip 1 with keyAllowed := !scanner.inFlow }

/-! ## Names and tags -/

def isNameChar (c : Char) : Bool := c.isAlphanum || c = '_' || c = '-'

def name? (scanner : Scanner) (token : Text → Token) : Option Scanner := do
  let scanner ← scanner.saveKey?
  let rest := scanner.cursor.text.drop 1
  let name := rest.takeWhile isNameChar
  let after := rest.drop name.length
  let ends := startsGap after || after.head?.any ("?:,]\x7d%@\x60".toList.contains ·)
  if name = [] || !ends then none
  else some { (scanner.push (token name)).skip (name.length + 1) with keyAllowed := false }

def isTagChar (c : Char) : Bool :=
  isNameChar c || ";/?:@&=+$.!~*'()%".toList.contains c

def tagParts? (text : Text) : Option (Token × Nat) :=
  match text with
  | '!' :: '<' :: rest =>
    let suffix := rest.takeWhile fun c => isTagChar c || c = ',' || c = '[' || c = ']'
    if suffix ≠ [] && (rest.drop suffix.length).head? = some '>' then
      some (.tag [] suffix, suffix.length + 3)
    else none
  | _ =>
    let name := (text.drop 1).takeWhile isNameChar
    match text.drop (name.length + 1) with
    | '!' :: rest =>
      let suffix := rest.takeWhile isTagChar
      if suffix = [] then none
      else some (.tag ('!' :: name ++ ['!']) suffix, name.length + 2 + suffix.length)
    | _ =>
      let suffix := (text.drop 1).takeWhile isTagChar
      if suffix = [] then some (.tag [] ['!'], 1) else some (.tag ['!'] suffix, suffix.length + 1)

def tag? (scanner : Scanner) : Option Scanner := do
  let scanner ← scanner.saveKey?
  let (token, length) ← tagParts? scanner.cursor.text
  let after := scanner.cursor.text.drop length
  if startsGap after || (scanner.inFlow && after.head? = some ',') then
    some { (scanner.push token).skip length with keyAllowed := false }
  else none

/-! ## Directives -/

def directiveWords (line : Text) : List Text :=
  (Text.splitWhen isSpace line).filter (· ≠ [])

def directive? (words : List Text) : Option Token :=
  match words with
  | [name, version] =>
    if name = "%YAML".toList then
      match Text.split '.' version with
      | [major, minor] =>
        if major ≠ [] && minor ≠ [] && (major ++ minor).all Char.isDigit then
          some (.version (Toml.valueOf 10 major) (Toml.valueOf 10 minor))
        else none
      | _ => none
    else none
  | [name, handle, start] =>
    if name = "%TAG".toList && handle.head? = some '!' && handle.getLast? = some '!' then
      some (.handle handle start)
    else none
  | _ => none

def directiveLine? (scanner : Scanner) : Option Scanner := do
  let scanner ← scanner.outermost?
  let line := scanner.cursor.text.takeWhile fun c => !isBreak c
  let words := directiveWords line
  let token ← directive? (words.takeWhile fun word => word.head? ≠ some '#')
  return (scanner.push token).skip line.length

/-! ## Scalars -/

def quotedScalar? (scanner : Scanner) : Option Scanner := do
  let scanner ← scanner.saveKey?
  let (text, cursor) ← quoted? scanner.cursor
  return { scanner.push (.scalar text false) with cursor, keyAllowed := false }

def blockScalar? (scanner : Scanner) : Option Scanner := do
  let scanner ← scanner.dropKey?
  let (text, cursor) ← block? scanner.base scanner.cursor
  return { scanner.push (.scalar text false) with cursor, keyAllowed := true }

def plainScalar? (scanner : Scanner) : Option Scanner := do
  let scanner ← scanner.saveKey?
  let (folding, cursor) ← plain? scanner.inFlow scanner.base scanner.cursor
  return { scanner.push (.scalar folding.text true) with cursor, keyAllowed := folding.broken }

def indicators : Text := "-?:,[]\x7b\x7d#&*!|>'\"%@\x60".toList

def startsPlain (inFlow : Bool) (c : Char) (rest : Text) : Bool :=
  (!isSpace c && !indicators.contains c) || (c = '-' && !rest.head?.any isSpace)
    || (!inFlow && (c = '?' || c = ':') && !startsGap rest)

/-! ## All tokens -/

def token? (scanner : Scanner) (c : Char) (rest : Text) : Option Scanner :=
  let flow := scanner.inFlow
  if scanner.cursor.column = 0 && c = '%' then scanner.directiveLine?
  else if scanner.cursor.atMark "---" then
    scanner.outermost?.map fun scanner => (scanner.push .documentStart).skip 3
  else if scanner.cursor.atMark "..." then
    scanner.outermost?.map fun scanner => (scanner.push .documentEnd).skip 3
  else if c = '[' then scanner.openBracket? .openList
  else if c = '\x7b' then scanner.openBracket? .openRecord
  else if c = ']' then scanner.closeBracket? .closeList
  else if c = '\x7d' then scanner.closeBracket? .closeRecord
  else if c = ',' then scanner.comma?
  else if c = '-' && startsGap rest then scanner.dash?
  else if c = '?' && (flow || startsGap rest) then scanner.question?
  else if c = ':' && (flow || startsGap rest) then scanner.colon?
  else if c = '*' then scanner.name? .alias
  else if c = '&' then scanner.name? .anchor
  else if c = '!' then scanner.tag?
  else if (c = '|' || c = '>') && !flow then scanner.blockScalar?
  else if c = '\'' || c = '"' then scanner.quotedScalar?
  else if startsPlain flow c rest then scanner.plainScalar?
  else none

/-- Takes tokens up to the end. Every round takes a token. -/
def run? : Nat → Scanner → Option Scanner
  | 0, _ => none
  | rounds + 1, scanner => do
    let scanner ← (dropGaps (scanner.cursor.text.length + 1) scanner).dropStale?
    match scanner.cursor.text with
    | [] => (scanner.unindent 0).dropKey?
    | c :: rest =>
      run? rounds (← (scanner.unindent (scanner.cursor.column + 1)).token? c rest)

end Scanner

def tokens? (text : Text) : Option (List Token) :=
  if text.all isAllowed then
    (Scanner.run? (text.length + 1) (.start text)).map Scanner.tokens
  else none

end Sitewright.Config.Yaml

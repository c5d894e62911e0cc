import Sitewright.Config.Json
import Sitewright.Config.Toml.Scalar
import Sitewright.Config.Yaml.Cursor

/-!
Scalars of YAML: plain, in quotes, and in blocks. A line end inside a plain or quoted scalar is a blank,
and further ones stand for themselves.
-/

namespace Sitewright.Config.Yaml

/-! ## Blanks inside scalars -/

/-- A scalar on the way, with the blanks after what was read of it. -/
structure Folding where
  text : Text
  spaces : Text
  firstBreak : Text
  moreBreaks : Text
  /-- Whether the blanks hold a line end. -/
  broken : Bool
  deriving DecidableEq, Repr

namespace Folding

def empty : Folding := ⟨[], [], [], [], false⟩

/-- What the blanks stand for. -/
def gap (folding : Folding) : Text :=
  if folding.broken then
    if folding.firstBreak.head? = some '\n' then
      if folding.moreBreaks = [] then [' '] else folding.moreBreaks
    else folding.firstBreak ++ folding.moreBreaks
  else folding.spaces

def space (folding : Folding) (c : Char) : Folding :=
  if folding.broken then folding else { folding with spaces := folding.spaces ++ [c] }

def lineEnd (folding : Folding) (c : Char) : Folding :=
  if folding.broken then { folding with moreBreaks := folding.moreBreaks ++ [c] }
  else { folding with spaces := [], firstBreak := [c], broken := true }

def write (folding : Folding) (text : Text) : Folding :=
  { empty with text := folding.text ++ folding.gap ++ text }

end Folding

/-! ## Plain scalars -/

def isFlowMark (c : Char) : Bool :=
  c = ',' || c = '[' || c = ']' || c = '\x7b' || c = '\x7d'

/-- The characters up to a blank or to what ends a plain scalar; none for a colon in the wrong place. -/
def plainRun? (inFlow : Bool) : Text → Option Text
  | [] => some []
  | c :: rest =>
    if isSpace c || isBreak c then some []
    else if inFlow && c = ':' && rest.head?.any (fun d => d = '?' || isFlowMark d) then none
    else if (c = ':' && startsGap rest) || (inFlow && isFlowMark c) then some []
    else (plainRun? inFlow rest).map (c :: ·)

/-- Takes the blanks inside a plain scalar; none for a tab in place of an indentation. -/
def plainGap? (base : Nat) : Nat → Folding → Cursor → Option (Folding × Cursor)
  | 0, folding, cursor => some (folding, cursor)
  | rounds + 1, folding, cursor =>
    match cursor.text with
    | [] => some (folding, cursor)
    | c :: _ =>
      if isSpace c then
        if folding.broken && cursor.column < base && c = '\t' then none
        else plainGap? base rounds (folding.space c) (cursor.skip 1)
      else if isBreak c then
        plainGap? base rounds (folding.lineEnd cursor.breakChar) cursor.skipBreak
      else some (folding, cursor)

/-- Reads a plain scalar of lines that begin at column `base` or later. Every round takes a run of
characters. -/
def plainLines? (inFlow : Bool) (base : Nat) : Nat → Folding → Cursor → Option (Folding × Cursor)
  | 0, _, _ => none
  | rounds + 1, folding, cursor =>
    if cursor.atDocumentMark || cursor.text.head? = some '#' then some (folding, cursor)
    else do
      let run ← plainRun? inFlow cursor.text
      let folding := if run = [] then folding else folding.write run
      let cursor := cursor.skip run.length
      if cursor.text = [] || !startsGap cursor.text then some (folding, cursor)
      else
        let (folding, cursor) ← plainGap? base cursor.text.length folding cursor
        if !inFlow && cursor.column < base then some (folding, cursor)
        else plainLines? inFlow base rounds folding cursor

/-- Reads a plain scalar. The folding at its end tells whether a line end followed it. -/
def plain? (inFlow : Bool) (base : Nat) (cursor : Cursor) : Option (Folding × Cursor) :=
  plainLines? inFlow base (cursor.text.length + 1) .empty cursor

/-! ## Quoted scalars -/

def escapedLetter? (c : Char) : Option Char :=
  if c = '0' then some '\x00'
  else if c = 'a' then some '\x07'
  else if c = 'b' then some '\x08'
  else if c = 't' || c = '\t' then some '\t'
  else if c = 'n' then some '\n'
  else if c = 'v' then some '\x0b'
  else if c = 'f' then some '\x0c'
  else if c = 'r' then some '\r'
  else if c = 'e' then some '\x1b'
  else if c = ' ' || c = '"' || c = '/' || c = '\\' then some c
  else if c = 'N' then some '\u0085'
  else if c = '_' then some '\u00a0'
  else if c = 'L' then some '\u2028'
  else if c = 'P' then some '\u2029'
  else none

def codeLength? (c : Char) : Option Nat :=
  if c = 'x' then some 2 else if c = 'u' then some 4 else if c = 'U' then some 8 else none

def escape? : Text → Option (Char × Nat)
  | [] => none
  | c :: rest =>
    match codeLength? c with
    | none => (escapedLetter? c).map (·, 1)
    | some length =>
      if rest.length < length then none
      else (Toml.escapedCode? (rest.take length)).map (·, length + 1)

/-- Reads a scalar in double quotes from after the first. Every round takes a character. -/
def doubleQuoted? : Nat → Folding → Cursor → Option (Text × Cursor)
  | 0, _, _ => none
  | rounds + 1, folding, cursor =>
    match cursor.text with
    | [] => none
    | c :: rest =>
      if isSpace c then doubleQuoted? rounds (folding.space c) (cursor.skip 1)
      else if isBreak c then doubleQuoted? rounds (folding.lineEnd cursor.breakChar) cursor.skipBreak
      else if cursor.atDocumentMark then none
      else if c = '"' then some ((folding.write []).text, cursor.skip 1)
      else if c = '\\' && rest.head?.any isBreak then
        doubleQuoted? rounds { folding.write [] with broken := true } (cursor.skip 1).skipBreak
      else if c = '\\' then do
        let (escaped, length) ← escape? rest
        doubleQuoted? rounds (folding.write [escaped]) (cursor.skip (length + 1))
      else doubleQuoted? rounds (folding.write [c]) (cursor.skip 1)

/-- Reads a scalar in single quotes from after the first. Every round takes a character. -/
def singleQuoted? : Nat → Folding → Cursor → Option (Text × Cursor)
  | 0, _, _ => none
  | rounds + 1, folding, cursor =>
    match cursor.text with
    | [] => none
    | c :: rest =>
      if isSpace c then singleQuoted? rounds (folding.space c) (cursor.skip 1)
      else if isBreak c then singleQuoted? rounds (folding.lineEnd cursor.breakChar) cursor.skipBreak
      else if cursor.atDocumentMark then none
      else if c = '\'' && rest.head? = some '\'' then
        singleQuoted? rounds (folding.write ['\'']) (cursor.skip 2)
      else if c = '\'' then some ((folding.write []).text, cursor.skip 1)
      else singleQuoted? rounds (folding.write [c]) (cursor.skip 1)

def quoted? (cursor : Cursor) : Option (Text × Cursor) :=
  match cursor.text with
  | '"' :: _ => doubleQuoted? cursor.text.length .empty (cursor.skip 1)
  | _ => singleQuoted? cursor.text.length .empty (cursor.skip 1)

/-! ## Block scalars -/

/-- What becomes of the line ends after a block. -/
inductive Chomp where
  | strip
  | clip
  | keep
  deriving DecidableEq, Repr

/-- The head of a block: what becomes of the line ends after it, and by how much it is indented. -/
structure BlockHead where
  chomp : Chomp
  indent : Option Nat
  deriving DecidableEq, Repr

def chompMark? (c : Char) : Option Chomp :=
  if c = '+' then some .keep else if c = '-' then some .strip else none

def indentMark? (c : Char) : Option Nat :=
  if c.isDigit && c ≠ '0' then some (Text.digitOf c) else none

/-- Reads the head of a block after its mark; gives the number of characters read. -/
def blockHead : Text → BlockHead × Nat
  | [] => (⟨.clip, none⟩, 0)
  | a :: rest =>
    match chompMark? a, indentMark? a with
    | some chomp, _ =>
      match rest.head?.bind indentMark? with
      | some indent => (⟨chomp, some indent⟩, 2)
      | none => (⟨chomp, none⟩, 1)
    | none, some indent =>
      match rest.head?.bind chompMark? with
      | some chomp => (⟨chomp, some indent⟩, 2)
      | none => (⟨.clip, some indent⟩, 1)
    | none, none => (⟨.clip, none⟩, 0)

/-- Takes indentations and empty lines, up to column `indent` where it is known. Gives the line ends
and the widest indentation; none for a tab in place of an indentation. -/
def blockGap? (indent : Option Nat) : Nat → Text → Nat → Cursor → Option (Text × Nat × Cursor)
  | 0, breaks, widest, cursor => some (breaks, widest, cursor)
  | rounds + 1, breaks, widest, cursor =>
    let spaces := (cursor.text.takeWhile (· = ' ')).length
    let cursor := cursor.skip (match indent with
      | some indent => min spaces (indent - cursor.column)
      | none => spaces)
    let widest := max widest cursor.column
    match cursor.text with
    | [] => some (breaks, widest, cursor)
    | c :: _ =>
      if c = '\t' && indent.all (cursor.column < ·) then none
      else if isBreak c then
        blockGap? indent rounds (breaks ++ [cursor.breakChar]) widest cursor.skipBreak
      else some (breaks, widest, cursor)

structure Block where
  text : Text
  /-- The line end after the last line. -/
  lastBreak : Text
  /-- The line ends of the empty lines after it. -/
  moreBreaks : Text
  /-- Whether the last line began with a blank. -/
  blankLine : Bool
  deriving DecidableEq, Repr

/-- Takes the line at a place. In a folded block the line end before it becomes a blank, unless one of
the two lines begins with a blank. -/
def Block.line (block : Block) (folded : Bool) (line : Text) : Block :=
  let blank := line.head?.any isSpace
  let joint :=
    if folded && block.lastBreak.head? = some '\n' && !block.blankLine && !blank then
      if block.moreBreaks = [] then [' '] else []
    else block.lastBreak
  ⟨block.text ++ joint ++ block.moreBreaks ++ line, [], [], blank⟩

/-- Reads the lines of a block that begin at column `indent`. Every round takes a line. -/
def blockLines? (folded : Bool) (indent : Nat) : Nat → Block → Cursor → Option (Block × Cursor)
  | 0, _, _ => none
  | rounds + 1, block, cursor =>
    if cursor.column = indent && cursor.text ≠ [] then do
      let line := cursor.text.takeWhile fun c => !isBreak c
      let block := block.line folded line
      let cursor := cursor.skip line.length
      let (block, cursor) :=
        if cursor.text = [] then (block, cursor)
        else ({ block with lastBreak := [cursor.breakChar] }, cursor.skipBreak)
      let (breaks, _, cursor) ← blockGap? (some indent) (cursor.text.length + 1) [] 0 cursor
      blockLines? folded indent rounds { block with moreBreaks := breaks } cursor
    else some (block, cursor)

/-- Drops the blanks and the comment after the head of a block; none if something else follows. -/
def afterHead? (cursor : Cursor) : Option Cursor :=
  let cursor := cursor.skip (cursor.text.takeWhile isSpace).length
  let cursor := match cursor.text with
    | '#' :: _ => cursor.skip (cursor.text.takeWhile fun c => !isBreak c).length
    | _ => cursor
  match cursor.text with
  | [] => some cursor
  | c :: _ => if isBreak c then some cursor.skipBreak else none

/-- Reads a block scalar in a collection whose entries begin before column `base`. -/
def block? (base : Nat) (cursor : Cursor) : Option (Text × Cursor) := do
  let folded := cursor.text.head? = some '>'
  let (head, length) := blockHead (cursor.text.drop 1)
  let cursor ← afterHead? (cursor.skip (length + 1))
  let given := head.indent.map fun indent => base - 1 + indent
  let (breaks, widest, cursor) ← blockGap? given (cursor.text.length + 1) [] 0 cursor
  let indent := given.getD (max widest (max base 1))
  let (block, cursor) ← blockLines? folded indent (cursor.text.length + 1) ⟨[], [], breaks, false⟩ cursor
  let ending := match head.chomp with
    | .strip => []
    | .clip => block.lastBreak
    | .keep => block.lastBreak ++ block.moreBreaks
  return (block.text ++ ending, cursor)

end Sitewright.Config.Yaml

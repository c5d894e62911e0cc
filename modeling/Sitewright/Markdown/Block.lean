import Sitewright.Forest
import Sitewright.Markdown.Reference
import Sitewright.Markdown.Tag

/-!
The blocks of a Markdown document, and what a line may begin with. A start is told by the line alone and
by whether a paragraph is open; the beginnings are tried in a fixed order.
-/

namespace Sitewright.Markdown

/-! ## Blocks -/

inductive Alignment where
  | unset
  | left
  | center
  | right
  deriving DecidableEq, Repr

/-- The mark of a list's items: a bullet, or the delimiter after a number. -/
inductive Marker where
  | bullet (mark : Char)
  | ordered (delimiter : Char)
  deriving DecidableEq, Repr

/-- A block without the blocks inside it. Paragraphs, headings and cells hold text that is not read yet. -/
inductive Block where
  | paragraph (text : Text)
  | heading (level : Nat) (text : Text)
  | code (info : Text) (lines : List Text)
  | html (lines : List Text)
  | rule
  | table (columns : List Alignment) (head : List Text) (body : List (List Text))
  | definitions (entries : List Definition)
  | quote
  | list (marker : Marker) (start : Nat) (loose : Bool)
  | item
  /-- A note, which stands apart from the blocks around it. -/
  | note (label : Text)
  deriving DecidableEq, Repr

/-- A block with the numbers of its first and last line. -/
structure Placed where
  first : Nat
  last : Nat
  block : Block
  deriving DecidableEq, Repr

def hasGap : List Placed → Bool
  | a :: b :: rest => decide (a.last + 1 < b.first) || hasGap (b :: rest)
  | _ => false

/-- Whether the items of a list are apart from one another, or the blocks of one of them are. -/
def isLoose (items : Forest Placed) : Bool :=
  hasGap items.roots || items.trees.any fun (_, below) => hasGap below.roots

/-! ## Html -/

/-- The kinds of html blocks: those that end with a line that holds an end, and those that end before a
blank line. -/
inductive HtmlKind where
  /-- An element whose content is no markup. -/
  | raw
  | comment
  | instruction
  | declaration
  | cdata
  /-- An element that makes a block. -/
  | basic
  /-- Any tag that stands alone on its line. -/
  | complete
  deriving DecidableEq, Repr

def rawNames : List String := ["pre", "script", "style", "textarea"]

def basicNames : List String :=
  ["address", "article", "aside", "base", "basefont", "blockquote", "body", "caption", "center", "col",
    "colgroup", "dd", "details", "dialog", "dir", "div", "dl", "dt", "fieldset", "figcaption", "figure",
    "footer", "form", "frame", "frameset", "h1", "h2", "h3", "h4", "h5", "h6", "head", "header", "hr",
    "html", "iframe", "legend", "li", "link", "main", "menu", "menuitem", "nav", "noframes", "ol",
    "optgroup", "option", "p", "param", "search", "section", "summary", "table", "tbody", "td", "tfoot",
    "th", "thead", "title", "tr", "track", "ul"]

def isNamed (names : List String) (name : Text) : Bool :=
  names.contains (String.ofList (Text.toLower name))

/-- The kind of an html block that begins with a tag, after the angle bracket. A tag that only stands
alone on its line needs `alone`. -/
def tagKind? (alone : Bool) (text : Text) : Option HtmlKind :=
  let closing := Text.startsWith ['/'] text
  (Tag.name? (if closing then text.drop 1 else text)).bind fun (name, rest) =>
    let ends := rest = [] || rest.head?.any fun c => isSpace c || c = '>'
    if !closing && ends && isNamed rawNames name then some .raw
    else if isNamed basicNames name then
      if ends || Text.startsWith "/>".toList rest then some .basic else none
    else if alone then
      (Tag.tag? ('<' :: text)).bind fun rest => if rest.all isSpace then some .complete else none
    else none

def htmlKind? (alone : Bool) : Text → Option HtmlKind
  | '<' :: '!' :: '-' :: '-' :: _ => some .comment
  | '<' :: '?' :: _ => some .instruction
  | '<' :: '!' :: c :: rest =>
    if c.isAlpha then some .declaration
    else if Text.startsWith "[CDATA[".toList (c :: rest) then some .cdata else none
  | '<' :: rest => tagKind? alone rest
  | _ => none

def HtmlKind.endsWith (kind : HtmlKind) (line : Text) : Bool :=
  match kind with
  | .raw => rawNames.any fun name => Text.holds ("</".toList ++ name.toList ++ ['>']) (Text.toLower line)
  | .comment => Text.holds "-->".toList line
  | .instruction => Text.holds "?>".toList line
  | .declaration => Text.holds ['>'] line
  | .cdata => Text.holds "]]>".toList line
  | .basic => false
  | .complete => false

def HtmlKind.endsBlank : HtmlKind → Bool
  | .basic => true
  | .complete => true
  | _ => false

/-! ## Fences -/

structure Fence where
  mark : Char
  size : Nat
  indent : Nat
  info : Text
  deriving DecidableEq, Repr

/-- The fence of a line. No backtick comes after backticks. -/
def fence? (line : Line) : Option Fence :=
  match line.content with
  | [] => none
  | mark :: rest =>
    let size := (rest.takeWhile (· == mark)).length + 1
    let info := trim (rest.drop (size - 1))
    if (mark = '\x60' || mark = '~') && 3 ≤ size && !(mark = '\x60' && info.contains mark) then
      some ⟨mark, size, line.indent, info⟩
    else none

def Fence.isClosedBy (fence : Fence) (line : Line) : Bool :=
  let run := line.content.takeWhile (· == fence.mark)
  !line.isIndented && decide (fence.size ≤ run.length) && (line.content.drop run.length).all isSpace

/-! ## Headings and rules -/

def headingText (text : Text) : Text :=
  let text := trim text
  let before := Text.dropEndWhile (· == '#') text
  if before = [] || before.getLast?.any isSpace then trimEnd before else text

def heading? (line : Line) : Option (Nat × Text) :=
  let level := (line.content.takeWhile (· == '#')).length
  let rest := line.content.drop level
  if level = 0 || 6 < level then none
  else if rest = [] || rest.head?.any isSpace then some (level, headingText rest) else none

def underline? (line : Line) : Option Nat :=
  let text := trimEnd line.content
  if text = [] then none
  else if text.all (· == '=') then some 1
  else if text.all (· == '-') then some 2
  else none

/-- Whether a line is a rule: three marks or more, and blanks between them. -/
def isRule (line : Line) : Bool :=
  match line.content with
  | [] => false
  | mark :: rest =>
    let marks := (mark :: rest).filter fun c => !isSpace c
    (mark = '*' || mark = '-' || mark = '_') && marks.all (· == mark) && decide (3 ≤ marks.length)

/-! ## List items -/

structure ItemStart where
  marker : Marker
  number : Nat
  /-- How far the blocks of the item are indented. -/
  offset : Nat
  rest : Line
  deriving DecidableEq, Repr

/-- The marker of a list item, its number and its width. A marker that interrupts a paragraph has the
number one. -/
def marker? (interrupts : Bool) : Text → Option (Marker × Nat × Nat)
  | [] => none
  | c :: rest =>
    if c = '-' || c = '+' || c = '*' then some (.bullet c, 1, 1)
    else
      let digits := (c :: rest).takeWhile Char.isDigit
      let delimiter := ((c :: rest).drop digits.length).head?.getD ' '
      if digits = [] || 9 < digits.length || (interrupts && digits ≠ ['1']) then none
      else if delimiter = '.' || delimiter = ')' then
        some (.ordered delimiter, Text.decimalValue digits, digits.length + 1)
      else none

/-- The list item that a line begins. What follows the marker is blank or indented by one to four
columns; if it is indented further, it is code. An empty item does not interrupt a paragraph. -/
def item? (interrupts : Bool) (line : Line) : Option ItemStart :=
  (marker? interrupts line.content).bind fun (marker, number, width) =>
    let rest := line.skipIndent.skip width
    if rest.isBlank then
      if interrupts then none
      else some ⟨marker, number, line.indent + width + 1, ⟨rest.column, []⟩⟩
    else if rest.indent = 0 then none
    else
      let padding := if 5 ≤ rest.indent then 1 else rest.indent
      some ⟨marker, number, line.indent + width + padding, rest.advance padding⟩

/-! ## Tables -/

/-- Cuts a row at its bars; a backslash protects a bar. -/
def splitBars : Text → List Text
  | [] => [[]]
  | '|' :: rest => [] :: splitBars rest
  | '\\' :: c :: rest =>
    if c = '|' || c = '\\' then
      match splitBars rest with
      | piece :: pieces => ('\\' :: c :: piece) :: pieces
      | [] => [['\\', c]]
    else
      match splitBars (c :: rest) with
      | piece :: pieces => ('\\' :: piece) :: pieces
      | [] => [['\\']]
  | c :: rest =>
    match splitBars rest with
    | piece :: pieces => (c :: piece) :: pieces
    | [] => [[c]]

/-- The text of a cell: a protected bar stands for itself, also in code. -/
def cellText : Text → Text
  | '\\' :: '|' :: rest => '|' :: cellText rest
  | '\\' :: '\\' :: rest => '\\' :: '\\' :: cellText rest
  | c :: rest => c :: cellText rest
  | [] => []

/-- The cells of a row. A bar may stand before the first cell and after the last one. -/
def cells (row : Text) : List Text :=
  let row := trim row
  let pieces := (splitBars (if Text.startsWith ['|'] row then row.drop 1 else row)).map trim
  (if pieces.getLast? = some [] then pieces.dropLast else pieces).map cellText

def alignment? (cell : Text) : Option Alignment :=
  let left := Text.startsWith [':'] cell
  let body := if left then cell.drop 1 else cell
  let right := Text.endsWith ':' body
  let body := if right then body.dropLast else body
  if body = [] || !body.all (· == '-') then none
  else if left && right then some .center
  else if left then some .left
  else if right then some .right
  else some .unset

/-- The columns of a table, from the row under its head. The row has a bar or a colon, and it has as many
cells as the head. -/
def columns? (head : Text) (line : Line) : Option (List Alignment) :=
  let row := line.content
  if line.isIndented || !row.any (fun c => c = '|' || c = ':') then none
  else
    ((cells row).mapM alignment?).bind fun columns =>
      if columns ≠ [] && columns.length = (cells head).length then some columns else none

def rowCells (width : Nat) (row : Text) : List Text :=
  let found := (cells row).take width
  found ++ List.replicate (width - found.length) []

/-! ## What a line begins with -/

inductive Start where
  | quote (rest : Line)
  | heading (level : Nat) (text : Text)
  | fence (fence : Fence)
  | html (kind : HtmlKind)
  | underline (level : Nat)
  | rule
  | item (start : ItemStart)
  | note (label : Text) (rest : Line)
  | indented (text : Text)
  deriving DecidableEq, Repr

/-- The line after the mark of a quotation and one column of blank. -/
def quote? (line : Line) : Option Line :=
  if line.isIndented then none
  else match line.skipIndent with
    | ⟨column, '>' :: rest⟩ => some (Line.advance ⟨column + 1, rest⟩ 1)
    | _ => none

/-- The label of the note that a line begins, and the line after the blanks behind it. -/
def note? (line : Line) : Option (Text × Line) :=
  let content := line.skipIndent
  match content.text with
  | '[' :: '^' :: rest =>
    (noteLabel? rest).bind fun (label, after) =>
      if after.head? = some ':' then
        some (label, (content.skip (content.text.length - after.length + 1)).skipIndent)
      else none
  | _ => none

/-- How a paragraph that is open meets a line. -/
structure Above where
  /-- There is a paragraph, and the line may go on with it. -/
  isOpen : Bool
  /-- The line stands in the containers of the paragraph. -/
  isHere : Bool
  /-- The paragraph may become a heading. -/
  hasText : Bool
  deriving DecidableEq, Repr

def start? (above : Above) (line : Line) : Option Start :=
  if line.isBlank then none
  else if line.isIndented then
    if above.isOpen then none else some (.indented (line.advance 4).text)
  else
    ((quote? line).map Start.quote)
    |>.or ((heading? line).map fun (level, text) => .heading level text)
    |>.or ((fence? line).map .fence)
    |>.or ((htmlKind? (!above.isOpen) line.content).map .html)
    |>.or (if above.isHere && above.hasText then (underline? line).map .underline else none)
    |>.or (if isRule line then some .rule else none)
    |>.or ((item? above.isHere line).map .item)
    |>.or ((note? line).map fun (label, rest) => .note label rest)

end Sitewright.Markdown

import Sitewright.Markdown.Note

/-!
Markdown as html. Neighbouring blocks stand on lines of their own. Markup in the text stays as it is,
but the tags of some elements are made text, and links lead to harmless protocols only. The notes that
are called stand in a section at the end. Where calls are shown, `before` has the labels called so far.
-/

namespace Sitewright.Markdown

/-! ## Escaping -/

def escape (text : Text) : Text :=
  text.flatMap fun c =>
    if c = '&' then "&amp;".toList
    else if c = '"' then "&quot;".toList
    else if c = '<' then "&lt;".toList
    else if c = '>' then "&gt;".toList
    else if c.toNat = 0 then ['�']
    else [c]

def bytesOf (text : Text) : List Nat :=
  text.flatMap fun c => (String.utf8EncodeChar c).map UInt8.toNat

def percent (byte : Nat) : Text :=
  let digit (n : Nat) : Char := if n < 10 then Char.ofNat (48 + n) else Char.ofNat (55 + n)
  ['%', digit (byte / 16), digit (byte % 16)]

def isPlain (c : Char) : Bool :=
  c.isAlphanum || "!#$&'()*+,-./:;=?@_~".toList.contains c

/-- An address with the other characters as percent signs and digits. What has that form stays. -/
def normalizeAddress : Text → Text
  | [] => []
  | c :: rest =>
    let isEncoded := c = '%' && 2 ≤ rest.length && (rest.take 2).all fun c => (Text.hexDigit? c).isSome
    (if isPlain c || isEncoded then [c] else (bytesOf [c]).flatMap percent) ++ normalizeAddress rest

def protocol? (address : Text) : Option Text :=
  let start := address.takeWhile fun c => c ≠ ':' && c ≠ '?' && c ≠ '#' && c ≠ '/'
  if (address.drop start.length).head? = some ':' then some (Text.toLower start) else none

/-- An address in an attribute; one with a protocol that is not among some is left out. -/
def address (protocols : List String) (text : Text) : Text :=
  let written := escape (normalizeAddress text)
  if (protocol? written).all fun name => protocols.contains (String.ofList name) then written else []

def linkProtocols : List String := ["http", "https", "irc", "ircs", "mailto", "xmpp"]

def imageProtocols : List String := ["http", "https"]

/-! ## Markup -/

def filteredNames : List String :=
  ["iframe", "noembed", "noframes", "plaintext", "script", "style", "textarea", "title", "xmp"]

/-- Whether the text after an angle bracket makes it a tag of a filtered element. -/
def isFiltered (text : Text) : Bool :=
  let text := if Text.startsWith ['/'] text then text.drop 1 else text
  let name := text.takeWhile Char.isAlphanum
  let ends := (text.drop name.length).head?.all fun c => isAsciiBlank c || c = '/' || c = '>'
  ends && isNamed filteredNames name

def filterTags : Text → Text
  | [] => []
  | '<' :: rest => (if isFiltered rest then "&lt;".toList else ['<']) ++ filterTags rest
  | c :: rest => c :: filterTags rest

/-- Markup in a paragraph: the indentation of its lines is dropped. -/
def inlineMarkup (text : Text) : Text :=
  match linesOf text with
  | [] => []
  | first :: others =>
    Text.join ['\n'] (filterTags first :: others.map fun line => filterTags (line.dropWhile isSpace))

/-! ## Spans -/

def plainText : Forest Span → Text
  | .nil => []
  | .cons span below after =>
    (match span with
      | .text text => escape text
      | .escaped text => escape text
      | .address _ text => escape text
      | .code text => escape text
      | .html text => inlineMarkup text
      | .softBreak => ['\n']
      | .hardBreak => ['\n']
      | _ => plainText below) ++ plainText after

def titleAttribute (target : Target) : Text :=
  match target.title with
  | some title => " title=\"".toList ++ escape title ++ ['"']
  | none => []

def wrap (name : String) (content : Text) : Text :=
  s!"<{name}>".toList ++ content ++ s!"</{name}>".toList

def noteName (label : Text) : Text := escape (normalizeAddress label)

def callName (label : Text) (time : Nat) : Text :=
  "user-content-fnref-".toList ++ noteName label ++ (if time = 1 then [] else '-' :: Text.ofNat time)

def callHtml (before : List Text) (label : Text) : Text :=
  "<sup><a href=\"#user-content-fn-".toList ++ noteName label ++ "\" id=\"".toList
    ++ callName label (before.count label + 1)
    ++ "\" data-footnote-ref=\"\" aria-describedby=\"footnote-label\">".toList
    ++ Text.ofNat (noteNumber before label) ++ "</a></sup>".toList

/-- Spans as html. An address inside of a link is no link. -/
def spansHtml (inLink : Bool) (before : List Text) : Forest Span → Text
  | .nil => []
  | .cons span below after =>
    (match span with
      | .text text => escape text
      | .escaped text => escape text
      | .address start text =>
        if inLink then escape text
        else
          "<a href=\"".toList ++ address linkProtocols (start ++ text) ++ "\">".toList ++ escape text
            ++ "</a>".toList
      | .code text => wrap "code" (escape text)
      | .html text => inlineMarkup text
      | .softBreak => ['\n']
      | .hardBreak => "<br />\n".toList
      | .checkbox isChecked =>
        "<input type=\"checkbox\" disabled=\"\" ".toList
          ++ (if isChecked then "checked=\"\" />".toList else "/>".toList)
      | .emphasis => wrap "em" (spansHtml inLink before below)
      | .strong => wrap "strong" (spansHtml inLink before below)
      | .strikethrough => wrap "del" (spansHtml inLink before below)
      | .link target =>
        "<a href=\"".toList ++ address linkProtocols target.destination ++ ['"']
          ++ titleAttribute target ++ ['>'] ++ spansHtml true before below ++ "</a>".toList
      | .image target =>
        "<img src=\"".toList ++ address imageProtocols target.destination ++ "\" alt=\"".toList
          ++ plainText below ++ ['"'] ++ titleAttribute target ++ " />".toList
      | .call label => callHtml before label) ++ spansHtml inLink (before ++ calls (.tree span below)) after

/-! ## Blocks -/

def language (info : Text) : Text := unescape (info.takeWhile fun c => !isSpace c)

def codeHtml (info : Text) (lines : List Text) : Text :=
  let kind :=
    if info = [] then []
    else " class=\"language-".toList ++ escape (language info) ++ ['"']
  "<pre><code".toList ++ kind ++ ['>'] ++ lines.flatMap (fun line => escape line ++ ['\n'])
    ++ "</code></pre>".toList

def alignmentAttribute : Alignment → Text
  | .unset => []
  | .left => " align=\"left\"".toList
  | .center => " align=\"center\"".toList
  | .right => " align=\"right\"".toList

def cellsHtml (scope : Scope) (name : String) : List Text → List Alignment → List Text → List Text
  | before, alignment :: columns, text :: row =>
    ('<' :: name.toList ++ alignmentAttribute alignment ++ ['>']
        ++ spansHtml false before (spans scope text) ++ s!"</{name}>".toList)
      :: cellsHtml scope name (before ++ callsOf scope [text]) columns row
  | _, _, _ => []

def rowHtml (scope : Scope) (name : String) (before : List Text) (columns : List Alignment)
    (row : List Text) : List Text :=
  "<tr>".toList :: (cellsHtml scope name before columns row ++ ["</tr>".toList])

def rowsHtml (scope : Scope) (columns : List Alignment) : List Text → List (List Text) → List Text
  | _, [] => []
  | before, row :: rows =>
    rowHtml scope "td" before columns row ++ rowsHtml scope columns (before ++ callsOf scope row) rows

def tableHtml (scope : Scope) (before : List Text) (columns : List Alignment) (head : List Text)
    (body : List (List Text)) : Text :=
  let rows := rowsHtml scope columns (before ++ callsOf scope head) body
  Text.join ['\n']
    (["<table>".toList, "<thead>".toList] ++ rowHtml scope "th" before columns head
      ++ ["</thead>".toList]
      ++ (if body = [] then [] else "<tbody>".toList :: (rows ++ ["</tbody>".toList]))
      ++ ["</table>".toList])

def Block.isSilent : Block → Bool
  | .definitions _ => true
  | .note _ => true
  | _ => false

def Block.isParagraph : Block → Bool
  | .paragraph _ => true
  | _ => false

/-- The content of an item or a quotation: a line end stands on both sides, except beside a paragraph
without tags. -/
def enclose (isTight : Bool) (below : Forest Placed) (content : Text) : Text :=
  let shown := (below.roots.map Placed.block).filter fun block => !block.isSilent
  let isBare (block : Option Block) : Bool := isTight && block.any Block.isParagraph
  (if isBare shown.head? then [] else ['\n']) ++ content
    ++ (if shown = [] || isBare shown.getLast? then [] else ['\n'])

def listTag (marker : Marker) (start : Nat) : Text :=
  match marker with
  | .bullet _ => "<ul>".toList
  | .ordered _ =>
    if start = 1 then "<ol>".toList else "<ol start=\"".toList ++ Text.ofNat start ++ "\">".toList

def listEnd : Marker → Text
  | .bullet _ => "</ul>".toList
  | .ordered _ => "</ol>".toList

/-- Blocks as html, with a line end between neighbours. Paragraphs have no tags if they are tight, and
the first one of an item may be a task. -/
def blocksHtml (scope : Scope) (isTight isTask : Bool) (before : List Text) : Forest Placed → Text
  | .nil => []
  | .cons placed below after =>
    let rest := blocksHtml scope isTight (isTask && placed.block.isSilent)
      (before ++ callsIn scope (.tree placed below)) after
    let html :=
      match placed.block with
      | .paragraph text =>
        let content := spansHtml false before (if isTask then taskSpans scope text else spans scope text)
        if isTight then content else wrap "p" content
      | .heading level text =>
        let name := s!"h{level}"
        wrap name (spansHtml false before (spans scope text))
      | .code info lines => codeHtml info lines
      | .html lines => Text.join ['\n'] (lines.map filterTags)
      | .rule => "<hr />".toList
      | .table columns head body => tableHtml scope before columns head body
      | .definitions _ => []
      | .note _ => []
      | .quote => wrap "blockquote" (enclose false below (blocksHtml scope false false before below))
      | .list marker start isLoose =>
        listTag marker start ++ ['\n'] ++ blocksHtml scope (!isLoose) false before below ++ ['\n']
          ++ listEnd marker
      | .item =>
        if below.roots.all fun placed => placed.block.isSilent then "<li></li>".toList
        else wrap "li" (enclose isTight below (blocksHtml scope isTight true before below))
    if html = [] then rest else if rest = [] then html else html ++ '\n' :: rest

/-! ## Notes -/

/-- The notes among blocks with their html, the inner ones before the outer ones. -/
def notesHtml (scope : Scope) (before : List Text) : Forest Placed → List (Text × Text)
  | .nil => []
  | .cons placed below after =>
    let own :=
      match placed.block with
      | .note label => [(label, blocksHtml scope false false before below)]
      | _ => []
    notesHtml scope before below ++ own
      ++ notesHtml scope (before ++ callsIn scope (.tree placed below)) after

def backLink (label : Text) (time : Nat) : Text :=
  "<a href=\"#".toList ++ callName label time
    ++ "\" data-footnote-backref=\"\" aria-label=\"Back to content\"".toList
    ++ " class=\"data-footnote-backref\">↩".toList
    ++ (if time = 1 then [] else wrap "sup" (Text.ofNat time)) ++ "</a>".toList

/-- An html text with links at its end: inside of the paragraph that it ends with, or on a new line. -/
def withLinks (html links : Text) : Text :=
  let front := html.take (html.length - 4)
  if html = front ++ "</p>".toList then front ++ ' ' :: links ++ "</p>".toList
  else if html = [] then links
  else html ++ '\n' :: links

def noteItem (label html : Text) (times : Nat) : Text :=
  let links := Text.join [' '] ((List.range times).map fun index => backLink label (index + 1))
  "\n<li id=\"user-content-fn-".toList ++ noteName label ++ "\">\n".toList ++ withLinks html links
    ++ "\n</li>".toList

def notesSection (called : List Text) (notes : List (Text × Text)) : Text :=
  "<section data-footnotes=\"\" class=\"footnotes\">".toList
    ++ "<h2 id=\"footnote-label\" class=\"sr-only\">Footnotes</h2>\n<ol>".toList
    ++ called.eraseDups.flatMap (fun label =>
      noteItem label ((notes.lookup label).getD []) (called.count label))
    ++ "\n</ol>\n</section>\n".toList

/-- Html of a Markdown text. It ends with a line end if the last block that shows something does. -/
def toHtml (text : Text) : Text :=
  let blocks := outline text
  let scope := scopeOf blocks
  let html := blocksHtml scope false false [] blocks
  let shown := blocks.roots.filter fun placed => !placed.block.isSilent
  let isEnded := shown.getLast?.any fun placed => placed.last < (linesOf text).length
  let called := callsIn scope blocks
  if called = [] then if isEnded then html ++ ['\n'] else html
  else (if html = [] then [] else html ++ ['\n']) ++ notesSection called (notesHtml scope [] blocks)

end Sitewright.Markdown

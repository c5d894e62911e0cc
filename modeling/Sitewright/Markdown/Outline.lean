import Sitewright.Markdown.Block

/-!
The blocks of a text. The outline takes one line after another: the containers that are open take the
beginning of the line, new containers may open, and what is left belongs to one block without blocks
inside it. A paragraph may also go on with a line that lacks the marks of its containers.
-/

namespace Sitewright.Markdown

/-! ## What is open -/

inductive Frame where
  | quote
  | list (marker : Marker) (start : Nat)
  | item (offset : Nat)
  | note (label : Text)
  deriving DecidableEq, Repr

/-- A container that is open, with the blocks inside it so far. -/
structure Container where
  frame : Frame
  first : Nat
  /-- The last line with the mark of the container. -/
  last : Nat
  below : Forest Placed
  deriving DecidableEq, Repr

/-- A block without blocks inside it that is open. -/
inductive Leaf where
  | paragraph (lines : List Text)
  | fenced (fence : Fence) (lines : List Text)
  | indented (lines : List Text)
  | html (kind : HtmlKind) (lines : List Text)
  | table (columns : List Alignment) (head : List Text) (rows : List (List Text))
  deriving DecidableEq, Repr

/-- A leaf with the numbers of its first and last line. -/
structure OpenLeaf where
  first : Nat
  last : Nat
  leaf : Leaf
  deriving DecidableEq, Repr

/-- The outline so far: the finished blocks, the open containers, the innermost one first, and the open
leaf. -/
structure Outline where
  done : Forest Placed
  containers : List Container
  leaf : Option OpenLeaf
  deriving DecidableEq, Repr

/-! ## Closing -/

def lastLine (fallback : Nat) (blocks : Forest Placed) : Nat :=
  (blocks.roots.getLast?.map Placed.last).getD fallback

def Container.close (container : Container) : Forest Placed :=
  let last := lastLine container.first container.below
  match container.frame with
  | .quote => .tree ⟨container.first, max container.last last, .quote⟩ container.below
  | .list marker start =>
    .tree ⟨container.first, last, .list marker start (isLoose container.below)⟩ container.below
  | .item _ => .tree ⟨container.first, last, .item⟩ container.below
  | .note label => .tree ⟨container.first, last, .note label⟩ container.below

/-- The blocks of a paragraph: the definitions it begins with, and the rest. -/
def paragraphBlocks (first last : Nat) (lines : List Text) (block : Text → Block) : Forest Placed :=
  let text := Text.join ['\n'] lines
  let (entries, rest) := definitions lines.length text
  let next := last + 1 - (Text.split '\n' rest).length
  let remainder : Forest Placed :=
    if rest.all isGap then .nil
    else .tree ⟨if entries = [] then first else next, last, block (Text.dropEndWhile isGap rest)⟩
      .nil
  if entries = [] then remainder
  else .cons ⟨first, if rest.all isGap then last else next - 1, .definitions entries⟩ .nil remainder

def hasText (lines : List Text) : Bool :=
  !(definitions lines.length (Text.join ['\n'] lines)).2.all isGap

def dropBlankEnd (lines : List Text) : List Text :=
  (lines.reverse.dropWhile fun line => line.all isSpace).reverse

def OpenLeaf.close (entry : OpenLeaf) : Forest Placed :=
  match entry.leaf with
  | .paragraph lines => paragraphBlocks entry.first entry.last lines .paragraph
  | .fenced fence lines => .tree ⟨entry.first, entry.last, .code fence.info lines⟩ .nil
  | .indented lines =>
    let kept := dropBlankEnd lines
    .tree ⟨entry.first, entry.first + kept.length - 1, .code [] kept⟩ .nil
  | .html _ lines => .tree ⟨entry.first, entry.last, .html lines⟩ .nil
  | .table columns head rows => .tree ⟨entry.first, entry.last, .table columns head rows⟩ .nil

namespace Outline

def empty : Outline := ⟨.nil, [], none⟩

def add (outline : Outline) (blocks : Forest Placed) : Outline :=
  match outline.containers with
  | [] => { outline with done := outline.done ++ blocks }
  | inner :: outer =>
    { outline with containers := { inner with below := inner.below ++ blocks } :: outer }

def closeLeaf (outline : Outline) : Outline :=
  match outline.leaf with
  | none => outline
  | some leaf => { outline with leaf := none }.add leaf.close

/-- Closes so many of the innermost containers; the leaf is closed already. -/
def closeInner : Nat → Outline → Outline
  | 0, outline => outline
  | count + 1, outline =>
    match outline.containers with
    | [] => outline
    | inner :: outer => closeInner count ({ outline with containers := outer }.add inner.close)

/-- Closes what is not among the outermost containers. -/
def closeTo (depth : Nat) (outline : Outline) : Outline :=
  if depth < outline.containers.length then
    outline.closeLeaf.closeInner (outline.containers.length - depth)
  else outline

/-- Closes the leaf, and a list whose items do not go on. -/
def prepare (depth : Nat) (outline : Outline) : Outline :=
  let outline := (outline.closeTo depth).closeLeaf
  match outline.containers with
  | { frame := .list _ _, .. } :: _ => outline.closeInner 1
  | _ => outline

def enter (number : Nat) (frame : Frame) (outline : Outline) : Outline :=
  { outline with containers := ⟨frame, number, number, .nil⟩ :: outline.containers }

/-- Opens the item of a list: of the list that is open, if it has the same marker. -/
def enterItem (number depth : Nat) (start : ItemStart) (outline : Outline) : Outline :=
  let closed := (outline.closeTo depth).closeLeaf
  let same : Bool :=
    match closed.containers with
    | { frame := .list marker _, .. } :: _ => marker = start.marker
    | _ => false
  if same then closed.enter number (.item start.offset)
  else
    ((outline.prepare depth).enter number (.list start.marker start.number)).enter number
      (.item start.offset)

def begin (number : Nat) (leaf : Leaf) (outline : Outline) : Outline :=
  { outline with leaf := some ⟨number, number, leaf⟩ }

def addLine (number : Nat) (block : Block) (outline : Outline) : Outline :=
  outline.add (.tree ⟨number, number, block⟩ .nil)

/-! ## Going on -/

/-- The line after the marks of a container, if the container goes on with it. A blank line goes on with
a note, and with an item unless nothing has come in the item yet. -/
def follow? (isBare : Bool) (container : Container) (line : Line) : Option Line :=
  match container.frame with
  | .quote => if line.isBlank then none else quote? line
  | .list _ _ => some line
  | .item offset =>
    if line.isBlank then if isBare then none else some (line.advance offset)
    else if offset ≤ line.indent then some (line.advance offset)
    else none
  | .note _ => if line.isBlank || line.isIndented then some (line.advance 4) else none

/-- The containers, the outermost one first, that go on with a line, those that do not, and the rest of
the line. -/
def followAll (hasLeaf : Bool) (number : Nat) :
    List Container → Line → List Container × List Container × Line
  | [], line => ([], [], line)
  | container :: inner, line =>
    match follow? (container.below = .nil && inner = [] && !hasLeaf) container line with
    | none => ([], container :: inner, line)
    | some rest =>
      let (kept, left, rest) := followAll hasLeaf number inner rest
      ({ container with last := number } :: kept, left, rest)

/-- The leaf with one more line, if it goes on whatever the line begins with. Without a leaf in the
result, the line ends it. -/
def takeLine? (number : Nat) (entry : OpenLeaf) (line : Line) : Option (OpenLeaf × Bool) :=
  match entry.leaf with
  | .fenced fence lines =>
    if fence.isClosedBy line then some ({ entry with last := number }, true)
    else
      let text := (line.advance (min fence.indent line.indent)).text
      some (⟨entry.first, number, .fenced fence (lines ++ [text])⟩, false)
  | .indented lines =>
    if line.isIndented || line.isBlank then
      some (⟨entry.first, number, .indented (lines ++ [(line.advance 4).text])⟩, false)
    else none
  | .html kind lines =>
    if kind.endsBlank && line.isBlank then none
    else some (⟨entry.first, number, .html kind (lines ++ [line.text])⟩, kind.endsWith line.text)
  | .paragraph _ => none
  | .table _ _ _ => none

/-- How the open paragraph meets a line in so many containers. -/
def above (depth : Nat) (outline : Outline) : Above :=
  match outline.leaf with
  | some ⟨_, _, .paragraph lines⟩ => ⟨true, depth = outline.containers.length, hasText lines⟩
  | _ => ⟨false, false, false⟩

/-- Goes on with a paragraph or a table, or begins a paragraph. The last line of a paragraph may turn
out to be the head of a table. -/
def addText (number : Nat) (line : Line) (outline : Outline) : Outline :=
  match outline.leaf with
  | some ⟨first, _, .paragraph lines⟩ =>
    let head := lines.getLast?.getD []
    match columns? head line with
    | some columns =>
      let before : Outline :=
        if lines.length ≤ 1 then { outline with leaf := none }
        else { outline with leaf := some ⟨first, number - 2, .paragraph lines.dropLast⟩ }.closeLeaf
      { before with
        leaf := some ⟨number - 1, number, .table columns (rowCells columns.length head) []⟩ }
    | none => { outline with leaf := some ⟨first, number, .paragraph (lines ++ [line.text])⟩ }
  | some ⟨first, _, .table columns head rows⟩ =>
    let row := rowCells columns.length line.text
    { outline with leaf := some ⟨first, number, .table columns head (rows ++ [row])⟩ }
  | _ => outline.closeLeaf.begin number (.paragraph [line.text])

def addRest (number depth : Nat) (line : Line) (outline : Outline) : Outline :=
  if line.isBlank then (outline.closeTo depth).closeLeaf
  else
    match outline.leaf with
    | some ⟨first, _, .paragraph lines⟩ =>
      if depth < outline.containers.length then
        { outline with leaf := some ⟨first, number, .paragraph (lines ++ [line.text])⟩ }
      else outline.addText number line
    | some ⟨_, _, .table _ _ _⟩ =>
      if depth < outline.containers.length then
        (outline.prepare depth).begin number (.paragraph [line.text])
      else outline.addText number line
    | _ => (outline.prepare depth).begin number (.paragraph [line.text])

/-- Opens what a line begins, one after another. Every round takes the mark of a container. -/
def openAll (number : Nat) : Nat → Nat → Line → Outline → Outline
  | 0, depth, line, outline => outline.addRest number depth line
  | rounds + 1, depth, line, outline =>
    match start? (outline.above depth) line with
    | none => outline.addRest number depth line
    | some (.quote rest) =>
      let entered := (outline.prepare depth).enter number .quote
      openAll number rounds entered.containers.length rest entered
    | some (.item start) =>
      let entered := outline.enterItem number depth start
      openAll number rounds entered.containers.length start.rest entered
    | some (.note label rest) =>
      let entered := (outline.prepare depth).enter number (.note label)
      openAll number rounds entered.containers.length rest entered
    | some (.heading level text) => (outline.prepare depth).addLine number (.heading level text)
    | some .rule => (outline.prepare depth).addLine number .rule
    | some (.fence fence) => (outline.prepare depth).begin number (.fenced fence [])
    | some (.html kind) =>
      let opened := (outline.prepare depth).begin number (.html kind [line.text])
      if kind.endsWith line.text then opened.closeLeaf else opened
    | some (.indented text) => (outline.prepare depth).begin number (.indented [text])
    | some (.underline level) =>
      match outline.leaf with
      | some ⟨first, _, .paragraph lines⟩ =>
        { outline with leaf := none }.add
          (paragraphBlocks first number (lines ++ [[]]) (.heading level))
      | _ => outline

def line (number : Nat) (outline : Outline) (text : Text) : Outline :=
  let (kept, left, rest) :=
    followAll outline.leaf.isSome number outline.containers.reverse ⟨0, text⟩
  let followed := { outline with containers := left.reverse ++ kept.reverse }
  let taken :=
    if left = [] then outline.leaf.bind fun entry => takeLine? number entry rest else none
  match taken with
  | some (leaf, isEnd) =>
    let gone := { followed with leaf := some leaf }
    if isEnd then gone.closeLeaf else gone
  | none => openAll number (text.length + 1) kept.length rest followed

def lines : Nat → Outline → List Text → Outline
  | _, outline, [] => outline
  | number, outline, text :: rest => lines (number + 1) (outline.line number text) rest

end Outline

/-- The lines of a text; there is one more than there are line ends. -/
def linesOf (text : Text) : List Text := Text.splitWhen isLineEnd text

def outline (text : Text) : Forest Placed :=
  ((Outline.lines 1 Outline.empty (linesOf text)).closeTo 0).closeLeaf.done

def scopeOf (blocks : Forest Placed) : Scope where
  definitions := blocks.preorder.flatMap fun placed =>
    match placed.block with
    | .definitions entries => entries
    | _ => []
  notes := blocks.preorder.filterMap fun placed =>
    match placed.block with
    | .note label => some label
    | _ => none

end Sitewright.Markdown

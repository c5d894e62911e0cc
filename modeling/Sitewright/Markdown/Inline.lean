import Sitewright.Forest
import Sitewright.Markdown.Reference
import Sitewright.Markdown.Tag
import Sitewright.Text.Punctuation

/-!
The text inside of a block: code, links, emphasis, markup and breaks. The text is scanned into pieces.
Brackets and runs of marks are pieces of their own until it is known what they belong to: a closing
bracket looks back for the opening one, and the runs between them are then paired off.
-/

namespace Sitewright.Markdown

/-- A part of a text without the parts inside it. -/
inductive Span where
  | text (text : Text)
  /-- A text that was written as an escape or a character reference. -/
  | escaped (text : Text)
  /-- An address that stands for itself, with the beginning that its link has before it. -/
  | address (start text : Text)
  | code (text : Text)
  | html (text : Text)
  | softBreak
  | hardBreak
  | checkbox (isChecked : Bool)
  | emphasis
  | strong
  | strikethrough
  | link (target : Target)
  | image (target : Target)
  | call (label : Text)
  deriving DecidableEq, Repr

/-- What a bracket opens. -/
inductive Opening where
  | link
  | image
  /-- A call of a note or, with its caret, a link. -/
  | call
  deriving DecidableEq, Repr

def Opening.text : Opening → Text
  | .link => "[".toList
  | .image => "![".toList
  | .call => "[^".toList

/-- A piece of a text that is being read. -/
inductive Piece where
  | done (span : Span) (below : Forest Span)
  /-- Marks that may open or close emphasis. -/
  | run (mark : Char) (size : Nat) (opens closes : Bool)
  /-- What opens something and the text after it. A bracket that is not active makes no link. -/
  | bracket (opening : Opening) (isActive : Bool) (after : Text)
  deriving DecidableEq, Repr

/-! ## Emphasis -/

/-- What a character is to the marks beside it. -/
inductive Side where
  | blank
  | punctuation
  | other
  deriving DecidableEq, Repr

/-- The side that a character makes; the ends of a text are blank. -/
def sideOf : Option Char → Side
  | none => .blank
  | some c => if isBlank c then .blank else if isPunctuation c then .punctuation else .other

def isMark (c : Char) : Bool := c = '*' || c = '_' || c = '~'

/-- A run of marks between two characters. Underscores do not work inside of a word. -/
def runBetween (mark : Char) (size : Nat) (before after : Option Char) : Piece :=
  let near (c : Option Char) : Bool := mark ≠ '~' && c.any isMark
  let opens := sideOf after = .other || (sideOf after = .punctuation && sideOf before ≠ .other)
    || near after
  let closes := sideOf before = .other || (sideOf before = .punctuation && sideOf after ≠ .other)
    || near before
  if mark = '_' then
    .run mark size (opens && (sideOf before ≠ .other || !closes))
      (closes && (sideOf after ≠ .other || !opens))
  else .run mark size opens closes

def Piece.toForest : Piece → Forest Span
  | .done span below => .tree span below
  | .run mark size _ _ => .tree (.text (List.replicate size mark)) .nil
  | .bracket opening _ _ => .tree (.text opening.text) .nil

def forestOf (pieces : List Piece) : Forest Span :=
  pieces.foldr (fun piece after => piece.toForest ++ after) .nil

/-- Whether a run may be closed by another one. If one of them could do both, their sizes do not add up
to a multiple of three. Tildes come in equal numbers, one or two. -/
def pairs (mark : Char) (size : Nat) (opens : Bool) : Piece → Bool
  | .run other count canOpen canClose =>
    other = mark && canOpen
      && !((canClose || opens) && size % 3 ≠ 0 && (count + size) % 3 = 0)
      && (mark ≠ '~' || (count = size && size ≤ 2))
  | _ => false

def emphasisOf (mark : Char) (count : Nat) : Span :=
  if mark = '~' then .strikethrough else if count = 1 then .emphasis else .strong

def leftover (mark : Char) (size : Nat) (opens closes : Bool) : List Piece :=
  if size = 0 then [] else [.run mark size opens closes]

/-- Pairs off runs: `left` is what was passed, the last piece first. Every round passes a piece or takes
marks away. -/
def pairOff : Nat → List Piece → List Piece → Forest Span
  | 0, left, right => forestOf (left.reverse ++ right)
  | _, left, [] => forestOf left.reverse
  | rounds + 1, left, .run mark size opens true :: right =>
    let between := left.takeWhile fun piece => !pairs mark size opens piece
    match left.drop between.length with
    | .run other count canOpen canClose :: outer =>
      let used := if 1 < count && 1 < size then 2 else 1
      pairOff rounds
        (.done (emphasisOf mark used) (forestOf between.reverse)
          :: (leftover other (count - used) canOpen canClose ++ outer))
        (leftover mark (size - used) opens true ++ right)
    | _ => pairOff rounds (.run mark size opens true :: left) right
  | rounds + 1, left, piece :: right => pairOff rounds (piece :: left) right

/-- The most rounds that pieces need. -/
def roundsOf (pieces : List Piece) : Nat :=
  pieces.foldl (fun sum piece =>
    match piece with
    | .run _ size _ _ => sum + 2 * size + 1
    | _ => sum + 1) 1

def emphasize (pieces : List Piece) : Forest Span :=
  pairOff (roundsOf pieces) [] pieces

/-! ## Code -/

/-- Reads up to a run of so many backticks, which is read too; `run` counts the backticks just read. -/
def codeBody? (size : Nat) : Nat → Text → Option (Text × Text)
  | run, [] => if run = size then some ([], []) else none
  | run, c :: rest =>
    if c = '\x60' then (codeBody? size (run + 1) rest).map fun (body, rest) => (c :: body, rest)
    else if run = size then some ([], c :: rest)
    else (codeBody? size 0 rest).map fun (body, rest) => (c :: body, rest)

/-- The text of code: line ends are spaces, and one space is dropped on both sides. -/
def codeText (body : Text) : Text :=
  let text := body.map fun c => if isLineEnd c then ' ' else c
  if Text.startsWith [' '] text && Text.endsWith ' ' text && !text.all (· == ' ') then
    (text.drop 1).dropLast
  else text

def code? (size : Nat) (text : Text) : Option (Span × Text) :=
  (codeBody? size 0 text).map fun (body, rest) =>
    (.code (codeText (body.take (body.length - size))), rest)

/-! ## Addresses -/

def inMailbox (c : Char) : Bool :=
  c.isAlphanum || ".!#$%&'*+/=?^_\x60\x7b|\x7d~-".toList.contains c

def isDomainPart (part : Text) : Bool :=
  part ≠ [] && part.length ≤ 63 && part.all (fun c => c.isAlphanum || c = '-')
    && part.head? ≠ some '-' && part.getLast? ≠ some '-'

def isAddress (text : Text) : Bool :=
  match Text.splitOnce ':' text with
  | some (scheme, rest) =>
    scheme.head?.any Char.isAlpha && 2 ≤ scheme.length && scheme.length ≤ 32
      && scheme.all (fun c => c.isAlphanum || c = '+' || c = '.' || c = '-')
      && rest.all fun c => 0x20 < c.toNat && c.toNat ≠ 0x7f && c ≠ '<'
  | none => false

def isMailAddress (text : Text) : Bool :=
  match Text.splitOnce '@' text with
  | some (mailbox, domain) =>
    mailbox ≠ [] && mailbox.all inMailbox && (Text.split '.' domain).all isDomainPart
  | none => false

/-- A link to an address that is also its text. -/
def addressLink (start address : Text) : Piece :=
  .done (.link ⟨start ++ address, none⟩) (.tree (.text address) .nil)

def bracketedAddress? (text : Text) : Option (Piece × Text) :=
  (Text.splitOnce '>' text).bind fun (address, rest) =>
    if isAddress address then some (addressLink [] address, rest)
    else if isMailAddress address then some (addressLink "mailto:".toList address, rest)
    else none

/-! ## Bare addresses -/

/-- Whether a character at the end of an address does not belong to it. -/
def isTrailing (c : Char) : Bool := "!\"')*,.:;?_~".toList.contains c

/-- Whether an address ends before a text: there are only characters that do not belong to it, and then
a blank, an angle bracket or nothing. Every round takes a character. -/
def isTrail : Nat → Text → Bool
  | _, [] => true
  | 0, _ => false
  | rounds + 1, c :: rest =>
    if c = '<' || isBlank c then true
    else if isTrailing c then isTrail rounds rest
    else if c = '&' then
      let name := rest.takeWhile Char.isAlpha
      match rest.drop name.length with
      | ';' :: rest => name ≠ [] && isTrail rounds rest
      | _ => false
    else if c = ']' then
      match rest with
      | [] => true
      | next :: _ => isBlank next || next = '(' || next = '[' || isTrail rounds rest
    else false

/-- The path of a bare address; `depth` counts parentheses that are open. -/
def barePath : Nat → Text → Text
  | _, [] => []
  | depth, c :: rest =>
    if isBlank c || c = '<' then []
    else if c = '(' then c :: barePath (depth + 1) rest
    else if c = ')' && 0 < depth then c :: barePath (depth - 1) rest
    else if (isTrailing c || c = '&' || c = ']') && isTrail (rest.length + 1) (c :: rest) then []
    else c :: barePath depth rest

def bareDomain : Text → Text
  | [] => []
  | c :: rest =>
    if c = '.' || c = '_' then
      if isTrail (rest.length + 1) (c :: rest) then [] else c :: bareDomain rest
    else if c = '-' || sideOf (some c) = .other then c :: bareDomain rest
    else []

/-- A bare address after its beginning. The last two parts of the domain have no underscore. -/
def bareRest? (text : Text) : Option (Text × Text) :=
  let domain := bareDomain text
  let parts := (Text.split '.' domain).reverse.take 2
  if domain = [] || parts.any (fun part => part.contains '_') then none
  else
    let address := domain ++ barePath 0 (text.drop domain.length)
    some (address, text.drop address.length)

def bareAddress? (before : Option Char) (text : Text) : Option (Span × Text) :=
  let reading (start front : Text) : Option (Span × Text) :=
    if Text.toLower (text.take start.length) = start then
      (bareRest? (text.drop start.length)).map fun (rest, after) =>
        (.address front (text.take start.length ++ rest), after)
    else none
  let afterWord := before.any Char.isAlpha
  let afterGap := before.all fun c => isGap c || "(*_[]~".toList.contains c
  (if afterWord then none else (reading "https://".toList []).or (reading "http://".toList []))
    |>.or (if afterGap then reading "www.".toList "http://".toList else none)

/-! ## Bare mail addresses -/

def inBareMailbox (c : Char) : Bool := c.isAlphanum || c = '.' || c = '+' || c = '-' || c = '_'

/-- The domain of a bare mail address; a period is followed by a letter or a digit. Slashes may be among
its characters. -/
def mailDomain (slashes : Bool) : Text → Text
  | [] => []
  | '.' :: c :: rest => if c.isAlphanum then '.' :: mailDomain slashes (c :: rest) else []
  | c :: rest =>
    if c.isAlphanum || c = '-' || c = '_' || (slashes && c = '/') then c :: mailDomain slashes rest else []

/-- The protocol that stands before a mail address, with its colon. The text before the address is given
with the last character first. -/
def mailProtocol (before : Text) : Text :=
  match before with
  | ':' :: rest =>
    let name := (rest.takeWhile Char.isAlphanum).reverse
    if ["mailto", "xmpp"].any fun word => Text.toLower name = word.toList then name ++ [':'] else []
  | _ => []

/-- Cuts a text into texts and links at the mail addresses in it; `before` is what was passed, the last
character first. Every round passes a character or an address. -/
def linkMail : Nat → Text → Text → Forest Span
  | 0, before, rest => .tree (.text (before.reverse ++ rest)) .nil
  | _, before, [] => if before = [] then .nil else .tree (.text before.reverse) .nil
  | rounds + 1, before, c :: rest =>
    let mailbox := before.takeWhile inBareMailbox
    let outer := before.drop mailbox.length
    let protocol := mailProtocol outer
    let domain := mailDomain (Text.toLower protocol = "xmpp:".toList) rest
    if c = '@' && mailbox ≠ [] && outer.head? ≠ some '/' && domain.contains '.'
        && domain.getLast?.any Char.isAlpha then
      let start := if protocol = [] then "mailto:".toList else []
      let outer := outer.drop protocol.length
      (if outer = [] then .nil else .tree (.text outer.reverse) .nil)
        ++ .cons (.address start (protocol ++ mailbox.reverse ++ '@' :: domain)) .nil
          (linkMail rounds [] (rest.drop domain.length))
    else linkMail rounds (c :: before) rest

def joinTexts : Forest Span → Forest Span
  | .nil => .nil
  | .cons (.text first) below after =>
    match joinTexts after with
    | .cons (.text second) _ rest => .cons (.text (first ++ second)) .nil rest
    | rest => .cons (.text first) below rest
  | .cons span below after => .cons span (joinTexts below) (joinTexts after)

def linkMails : Forest Span → Forest Span
  | .nil => .nil
  | .cons (.text text) _ after => linkMail (text.length + 1) [] text ++ linkMails after
  | .cons (.link target) below after => .cons (.link target) below (linkMails after)
  | .cons (.image target) below after => .cons (.image target) below (linkMails after)
  | .cons span below after => .cons span (linkMails below) (linkMails after)

/-! ## Scanning -/

/-- A text that is being scanned: the pieces so far, the last one first, the character before the rest,
and the rest. -/
structure Scan where
  pieces : List Piece
  before : Option Char
  rest : Text
  deriving DecidableEq, Repr

namespace Scan

def passed (scan : Scan) (rest : Text) : Option Char :=
  ((scan.rest.take (scan.rest.length - rest.length)).getLast?).or scan.before

def push (scan : Scan) (piece : Piece) (rest : Text) : Scan :=
  ⟨piece :: scan.pieces, scan.passed rest, rest⟩

def pushText (scan : Scan) (text rest : Text) : Scan :=
  scan.push (.done (.text text) .nil) rest

def pushEscaped (scan : Scan) (text rest : Text) : Scan :=
  scan.push (.done (.escaped text) .nil) rest

def target? (definitions : List Definition) (label : Text) : Option Target :=
  (definitions.find? fun entry => entry.label = normalizeLabel label).map Definition.target

/-- What closes a link after its closing bracket: a target in parentheses, another label, or nothing if
the text between the brackets is a label. -/
def linkEnd? (definitions : List Definition) (label rest : Text) : Option (Target × Text) :=
  let shortcut := target? definitions label
  match rest with
  | '(' :: more => (inlineTarget? more).or (shortcut.map fun target => (target, rest))
  | '[' :: ']' :: more => shortcut.map fun target => (target, more)
  | '[' :: _ =>
    (label? rest).bind fun (other, rest) => (target? definitions other).map fun target => (target, rest)
  | _ => shortcut.map fun target => (target, rest)

def isBracket : Piece → Bool
  | .bracket _ _ _ => true
  | _ => false

/-- No link or call stands in a link: the brackets before it are no longer active. -/
def deactivate (pieces : List Piece) : List Piece :=
  pieces.map fun piece =>
    match piece with
    | .bracket .image _ _ => piece
    | .bracket opening _ after => .bracket opening false after
    | _ => piece

/-- What two brackets with a text between them and what follows them make. A call without its note may
still be a link that begins with a caret. -/
def closing? (scope : Scope) (opening : Opening) (label rest : Text) : Option (Span × Text) :=
  let linkTo (label : Text) : Option (Span × Text) :=
    (linkEnd? scope.definitions label rest).map fun (target, rest) => (.link target, rest)
  match opening with
  | .link => linkTo label
  | .image => (linkEnd? scope.definitions label rest).map fun (target, rest) => (.image target, rest)
  | .call =>
    let name := normalizeLabel label
    if scope.notes.contains name then some (.call name, rest) else linkTo ('^' :: label)

def closeBracket (scope : Scope) (scan : Scan) (rest : Text) : Scan :=
  let inner := scan.pieces.takeWhile fun piece => !isBracket piece
  match scan.pieces.drop inner.length with
  | .bracket opening isActive after :: outer =>
    let unopened := Piece.done (.text opening.text) .nil
    let failed := { scan with pieces := inner ++ unopened :: outer }.pushText [']'] rest
    if !isActive then failed
    else
      let label := after.take (after.length - scan.rest.length)
      match closing? scope opening label rest with
      | none => failed
      | some (.call name, rest) =>
        { scan with pieces := deactivate outer }.push (.done (.call name) .nil) rest
      | some (span, rest) =>
        let caret : List Piece := if opening = .call then [.done (.text ['^']) .nil] else []
        let below := emphasize (caret ++ inner.reverse)
        let outer := if opening = .image then outer else deactivate outer
        { scan with pieces := outer }.push (.done span below) rest
  | _ => scan.pushText [']'] rest

def nextLine (text : Text) : Text := text.dropWhile isSpace

def step (scope : Scope) (scan : Scan) : Scan :=
  match scan.rest with
  | [] => scan
  | c :: rest =>
    if isLineEnd c then scan.push (.done .softBreak .nil) (nextLine rest)
    else if isSpace c then
      let blanks := scan.rest.takeWhile isSpace
      match scan.rest.drop blanks.length with
      | [] => { scan with rest := [] }
      | next :: more =>
        if isLineEnd next then
          let isHard := 2 ≤ blanks.length && blanks.all (· == ' ')
          scan.push (.done (if isHard then .hardBreak else .softBreak) .nil) (nextLine more)
        else scan.pushText blanks (next :: more)
    else if c = '\\' then
      match rest with
      | next :: more =>
        if isLineEnd next then scan.push (.done .hardBreak .nil) (nextLine more)
        else if isAsciiPunctuation next then scan.pushEscaped [next] more
        else scan.pushText [c] rest
      | [] => scan.pushText [c] rest
    else if c = '\x60' then
      let size := (scan.rest.takeWhile (· == c)).length
      match code? size (scan.rest.drop size) with
      | some (span, rest) => scan.push (.done span .nil) rest
      | none => scan.pushText (List.replicate size c) (scan.rest.drop size)
    else if c = '<' then
      match bracketedAddress? rest with
      | some (piece, rest) => scan.push piece rest
      | none =>
        match Tag.markup? scan.rest with
        | some after =>
          scan.push (.done (.html (scan.rest.take (scan.rest.length - after.length))) .nil) after
        | none => scan.pushText [c] rest
    else if c = '&' then
      match reference? rest with
      | some (text, rest) => scan.pushEscaped text rest
      | none => scan.pushText [c] rest
    else if isMark c then
      let size := (scan.rest.takeWhile (· == c)).length
      let after := scan.rest.drop size
      scan.push (runBetween c size scan.before after.head?) after
    else if c = '!' && Text.startsWith ['['] rest && !Text.startsWith ['[', '^'] rest then
      scan.push (.bracket .image true (rest.drop 1)) (rest.drop 1)
    else if c = '[' && Text.startsWith ['^'] rest then
      scan.push (.bracket .call true (rest.drop 1)) (rest.drop 1)
    else if c = '[' then scan.push (.bracket .link true rest) rest
    else if c = ']' then scan.closeBracket scope rest
    else
      match bareAddress? scan.before scan.rest with
      | some (span, rest) => scan.push (.done span .nil) rest
      | none => scan.pushText [c] rest

/-- Takes the pieces of the rest. Every round takes one. -/
def run (scope : Scope) : Nat → Scan → Scan
  | 0, scan => scan
  | rounds + 1, scan => if scan.rest = [] then scan else run scope rounds (scan.step scope)

end Scan

def spans (scope : Scope) (text : Text) : Forest Span :=
  let rest := text.dropWhile isGap
  let scan := Scan.run scope rest.length ⟨[], none, rest⟩
  linkMails (joinTexts (emphasize scan.pieces.reverse))

/-- The state of the box that a text begins with, and the text after it. More than blanks comes after
the box. -/
def checkbox? (text : Text) : Option (Bool × Text) :=
  match text.dropWhile isSpace with
  | '[' :: mark :: ']' :: c :: rest =>
    if isGap c && !rest.all isGap then
      if mark = 'x' || mark = 'X' then some (true, c :: rest)
      else if isGap mark then some (false, c :: rest)
      else none
    else none
  | _ => none

def taskSpans (scope : Scope) (text : Text) : Forest Span :=
  match checkbox? text with
  | none => spans scope text
  | some (isChecked, rest) =>
    let gap : Span := if rest.head?.any isLineEnd then .softBreak else .text (rest.takeWhile isSpace)
    .cons (.checkbox isChecked) .nil (.cons gap .nil (spans scope rest))

end Sitewright.Markdown

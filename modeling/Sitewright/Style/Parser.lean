import Sitewright.Naming
import Sitewright.Style.Lexeme
import Sitewright.Style.Problem
import Sitewright.Style.Rule
import Sitewright.Style.Variable

/-!
Reading style sheets. The lexemes are read in order with the blocks that are open, innermost first.
Text is collected, each character with its offset, until a brace or a semicolon says what it was: the
head of a block, a declaration or a statement. A comment in the midst of text counts as one space, at
the offset of the comment.

What a head or a declaration means depends on the open blocks only through two questions: whether there
is a selector for declarations to belong to, and whether there is one for `&` to stand for.
-/

namespace Sitewright.Style

/-! ## Collected text -/

/-- Characters with their offsets in the source. -/
abbrev Fragment := List (Char × Nat)

namespace Fragment

def text (fragment : Fragment) : Text :=
  fragment.map Prod.fst

def range (fragment : Fragment) : CharRange :=
  ⟨(fragment.head?.map Prod.snd).getD 0, (fragment.getLast?.map fun mark => mark.2 + 1).getD 0⟩

def trimStart (fragment : Fragment) : Fragment :=
  fragment.dropWhile fun mark => isBlank mark.1

def trimEnd (fragment : Fragment) : Fragment :=
  (trimStart fragment.reverse).reverse

/-- Collects a text that begins at `start`. Blanks at the very beginning are left out. -/
def collect (fragment : Fragment) (text : Text) (start : Nat) : Fragment :=
  if fragment = [] then trimStart (text.zipIdx start) else fragment ++ text.zipIdx start

def collectGap (fragment : Fragment) (start : Nat) : Fragment :=
  if fragment = [] then [] else fragment ++ [(' ', start)]

def splitColon (fragment : Fragment) : Option (Fragment × Fragment) :=
  match fragment with
  | [] => none
  | mark :: rest =>
    if mark.1 = ':' then some ([], rest)
    else (splitColon rest).map fun (before, after) => (mark :: before, after)

end Fragment

/-! ## Variables -/

/-- What the variables of a fragment say: references to globals, and problems. -/
structure Findings where
  references : List GlobalReference
  problems : List (Diagnostic StyleCategory)
  deriving DecidableEq, Repr

def Findings.none : Findings := ⟨[], []⟩

def Findings.problem (problem : Problem) (range : CharRange) : Findings :=
  ⟨[], [problem.located range]⟩

def variableFinding (marks : Fragment) : Findings :=
  let name := Fragment.text marks
  let range := Fragment.range marks
  if Naming.isGlobalName name then ⟨[⟨⟨name, range⟩, name⟩], []⟩
  else if Naming.isReservedGlobal name then .problem (.reservedGlobal name) range
  else .problem (.invalidGlobal name) range

def variableFindings (fragment : Fragment) : Findings :=
  let found := (namesIn Prod.fst fragment).map variableFinding
  ⟨found.flatMap Findings.references, found.flatMap Findings.problems⟩

/-! ## Selector lists -/

/-- Splits a selector list at its commas outside of quotes, parentheses and brackets. `read` is the
selector so far, last character first. -/
def splitSelectors : (depth : Nat) → (quote : Option Char) → (read : Text) → Text → List Text
  | _, _, read, [] => [Text.trim read.reverse]
  | depth, some quote, read, c :: rest =>
    splitSelectors depth (if c = quote then none else some quote) (c :: read) rest
  | depth, none, read, c :: rest =>
    if c = '"' ∨ c = '\'' then splitSelectors depth (some c) (c :: read) rest
    else if c = '(' ∨ c = '[' then splitSelectors (depth + 1) none (c :: read) rest
    else if c = ')' ∨ c = ']' then splitSelectors (depth - 1) none (c :: read) rest
    else if c = ',' ∧ depth = 0 then Text.trim read.reverse :: splitSelectors 0 none [] rest
    else splitSelectors depth none (c :: read) rest

def selectorList (text : Text) : List Text :=
  splitSelectors 0 none [] text

/-! ## Heads -/

/-- Where a head or a declaration stands. -/
structure Context where
  /-- Not inside any block. -/
  atTop : Bool
  /-- A selector or at-rule encloses it. -/
  hasSelector : Bool
  /-- A selector encloses it that `&` stands for. -/
  hasParent : Bool
  deriving DecidableEq, Repr

/-- At-rules that have a block and no parameters. -/
def bareAtRules : List Text :=
  ["font-face", "page", "viewport"].map String.toList

def splitAtRule (text : Text) : Text × Text :=
  match Text.splitOnce ' ' text.tail with
  | some (name, parameters) => (name, parameters)
  | none => (text.tail, [])

/-- What the head of an at-rule other than `@media` and the shorthands says. -/
def readBlockAtRule (context : Context) (fragment : Fragment) (name : Text) : Head × Findings :=
  if context.atTop then (.atRule, variableFindings fragment)
  else (.transparent, .problem (.nestedAtRule name) (Fragment.range fragment))

def readAtRule (context : Context) (fragment : Fragment) (text : Text) : Head × Findings :=
  let range := Fragment.range fragment
  let (name, parameters) := splitAtRule text
  if name = "media".toList then
    if parameters = [] then (.transparent, .problem .mediaWithoutQuery range)
    else (.media parameters, variableFindings fragment)
  else if parameters ≠ [] then readBlockAtRule context fragment name
  else
    let global := '$' :: name
    if Naming.isGlobalName global then (.media global, ⟨[⟨⟨text, range⟩, global⟩], []⟩)
    else if bareAtRules.contains name then readBlockAtRule context fragment name
    else if Naming.isReservedGlobal global then (.transparent, .problem (.reservedShorthand name) range)
    else (.transparent, .problem (.invalidShorthand name) range)

def readSelectors (context : Context) (fragment : Fragment) (text : Text) : Head × Findings :=
  let range := Fragment.range fragment
  let selectors := selectorList text
  if selectors.any List.isEmpty then (.transparent, .problem (.emptySelector text) range)
  else if (selectors.any fun selector => selector.contains '&') && !context.hasParent then
    (.style selectors, .problem .danglingParent range)
  else (.style selectors, .none)

def readHead (context : Context) (fragment : Fragment) (text : Text) : Head × Findings :=
  match text with
  | '@' :: _ => readAtRule context fragment text
  | _ => readSelectors context fragment text

/-! ## Declarations -/

/-- What a collected text that is not a head and does not begin with `@` says. -/
def readDeclaration (context : Context) (fragment : Fragment) : Option Declaration × Findings :=
  let range := Fragment.range fragment
  match Fragment.splitColon fragment with
  | none =>
    let text := Fragment.text fragment
    (none, .problem (if context.atTop then .missingBlock text else .missingColon text) range)
  | some (before, after) =>
    let property := Text.trim (Fragment.text before)
    let marks := Fragment.trimEnd (Fragment.trimStart after)
    let value := Fragment.text marks
    if property = [] ∨ property.any isBlank then (none, .problem (.invalidProperty property) range)
    else if value = [] then (none, .problem (.missingValue property) range)
    else if context.atTop then (none, .problem (.strayDeclaration property) range)
    else
      let found := variableFindings marks
      if context.hasSelector then (some ⟨property, value, range⟩, found)
      else
        (none, { found with
          problems := found.problems ++ [(Problem.detachedDeclaration property).located range] })

/-! ## The sheet -/

/-- A block that is not closed yet, with the blocks inside it that are. -/
structure Block where
  rule : Rule
  inside : Forest Rule
  deriving DecidableEq, Repr

/-- A sheet read up to some lexeme. -/
structure Reading where
  /-- The text collected since the last brace or semicolon. -/
  pending : Fragment
  /-- The open blocks, innermost first. -/
  blocks : List Block
  /-- The closed blocks at the top level. -/
  top : Forest Rule
  statements : List Statement
  references : List GlobalReference
  problems : List (Diagnostic StyleCategory)
  deriving DecidableEq, Repr

namespace Reading

def start : Reading := ⟨[], [], .nil, [], [], []⟩

/-- The nearest block that is no media rule and has a meaning. -/
def nearestHead : List Block → Option Head
  | [] => none
  | block :: outer =>
    match block.rule.head with
    | .style selectors => some (.style selectors)
    | .atRule => some .atRule
    | .media _ => nearestHead outer
    | .transparent => nearestHead outer

def context (reading : Reading) : Context :=
  match nearestHead reading.blocks with
  | none => ⟨reading.blocks.isEmpty, false, false⟩
  | some (.style _) => ⟨false, true, true⟩
  | some _ => ⟨false, true, false⟩

def report (reading : Reading) (problem : Problem) (range : CharRange) : Reading :=
  { reading with problems := reading.problems ++ [problem.located range] }

def found (reading : Reading) (findings : Findings) : Reading :=
  { reading with
    references := reading.references ++ findings.references
    problems := reading.problems ++ findings.problems }

def openBlock (reading : Reading) (rule : Rule) : Reading :=
  { reading with pending := [], blocks := ⟨rule, .nil⟩ :: reading.blocks }

def openBrace (reading : Reading) (range : CharRange) : Reading :=
  match Fragment.trimEnd reading.pending with
  | [] => (reading.report .missingSelector range).openBlock ⟨.transparent, [], range, []⟩
  | mark :: rest =>
    let fragment := mark :: rest
    let text := Text.squeeze (Fragment.text fragment)
    let (head, findings) := readHead reading.context fragment text
    (reading.found findings).openBlock ⟨head, text, Fragment.range fragment, []⟩

/-- Puts a closed block into the block around it, or at the top. -/
def closeBlock (reading : Reading) : Reading :=
  match reading.blocks with
  | [] => reading
  | [block] =>
    { reading with blocks := [], top := reading.top ++ .tree block.rule block.inside }
  | block :: outer :: others =>
    { reading with
      blocks := { outer with inside := outer.inside ++ .tree block.rule block.inside } :: others }

def declare (reading : Reading) (declaration : Declaration) : Reading :=
  match reading.blocks with
  | [] => reading
  | block :: outer =>
    let rule := { block.rule with declarations := block.rule.declarations ++ [declaration] }
    { reading with blocks := { block with rule := rule } :: outer }

/-- Reads a statement. `stop` is the offset after its semicolon. -/
def flushStatement (reading : Reading) (fragment : Fragment) (stop : Option Nat) : Reading :=
  let range := Fragment.range fragment
  if reading.blocks ≠ [] then reading.report .nestedStatement range
  else
    let statement : Statement :=
      ⟨Text.squeeze (Fragment.text fragment), range, ⟨range.start, stop.getD range.stop⟩⟩
    let reading :=
      if statement.isPlaceholder && reading.statements.any Statement.isPlaceholder then
        reading.report .repeatedPlaceholder range
      else reading
    { reading with statements := reading.statements ++ [statement] }

def flushDeclaration (reading : Reading) (fragment : Fragment) : Reading :=
  let (declaration, findings) := readDeclaration reading.context fragment
  let reading := reading.found findings
  match declaration with
  | none => reading
  | some declaration => reading.declare declaration

def flush (reading : Reading) (stop : Option Nat) : Reading :=
  let cleared := { reading with pending := [] }
  match Fragment.trimEnd reading.pending with
  | [] => cleared
  | mark :: rest =>
    if mark.1 = '@' then cleared.flushStatement (mark :: rest) stop
    else cleared.flushDeclaration (mark :: rest)

def closeBrace (reading : Reading) (range : CharRange) : Reading :=
  let reading := reading.flush none
  if reading.blocks = [] then reading.report .unexpectedClosing range else reading.closeBlock

def step (reading : Reading) (lexeme : Lexeme) : Reading :=
  let range : CharRange := ⟨lexeme.start, lexeme.stop⟩
  match lexeme.kind with
  | .opening => reading.openBrace range
  | .closing => reading.closeBrace range
  | .semicolon => reading.flush (some lexeme.stop)
  | .comment => { reading with pending := Fragment.collectGap reading.pending lexeme.start }
  | .unterminatedComment => reading.report .unterminatedComment range
  | .quoted | .slash | .text =>
    { reading with pending := Fragment.collect reading.pending lexeme.text lexeme.start }
  | .unterminatedString =>
    let reading := reading.report .unterminatedString range
    { reading with pending := Fragment.collect reading.pending lexeme.text lexeme.start }

/-- Reports the blocks that are still open, outermost first. -/
def reportOpen (reading : Reading) : Reading :=
  { reading with
    problems := reading.problems ++ reading.blocks.reverse.map fun block =>
      (Problem.unclosedBlock block.rule.text).located block.rule.range }

def closeAll (reading : Reading) : Reading :=
  reading.blocks.foldl (fun reading _ => reading.closeBlock) reading

def finish (reading : Reading) : Reading :=
  (reading.flush none).reportOpen.closeAll

end Reading

def Sheet.parse (source : Text) : Sheet :=
  let reading := ((lexemes source).foldl Reading.step .start).finish
  ⟨source, reading.top.number 1, reading.statements, reading.references, ⟨reading.problems⟩⟩

end Sitewright.Style

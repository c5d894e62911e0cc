import Sitewright.Style.Rule
import Sitewright.Text.Blank

/-!
Plain style text from nested rules. `flatten` goes through the rules in document order with the
selectors, the media key and the at-rule in force, and gives one flat rule for each rule that has
declarations. Assembly then puts the flat rules without media key and at-rule first, in that order; the
rules inside an at-rule go into one block in the place of the first; all other rules go into one
`@media` block per key, after everything else.
-/

namespace Sitewright.Style

/-! ## Flattening -/

/-- A rule with the selectors that it takes from the rules around it. -/
structure FlatRule where
  selectors : List Text
  media : Option Text
  /-- The at-rule around it, by number. -/
  group : Option Nat
  declarations : List Declaration
  deriving DecidableEq, Repr

/-- The selectors that `token` makes inside `parents`: a placeholder `%name` stands alone, `&` stands
for the parent, and anything else is a descendant of the parent. -/
def expandSelector (parents : List Text) (token : Text) : List Text :=
  if token.head? = some '%' then [token]
  else if parents = [] then [Text.trim (Text.replace '&' [] token)]
  else if token.contains '&' then parents.map fun parent => Text.replace '&' parent token
  else parents.map fun parent => parent ++ ' ' :: token

/-- The selectors of a rule inside `parents`, without empty and repeated ones. -/
def combine (parents tokens : List Text) : List Text :=
  ((tokens.flatMap (expandSelector parents)).filter (· ≠ [])).eraseDups

/-- The flat rule of a rule under given selectors, if there is anything to say. -/
def emit (selectors : List Text) (media : Option Text) (group : Option Nat) (rule : Rule) :
    List FlatRule :=
  if rule.declarations = [] ∨ selectors = [] then []
  else [⟨selectors, media, group, rule.declarations⟩]

def flatten (selectors : List Text) (media : Option Text) (group : Option Nat) :
    Forest (Nat × Rule) → List FlatRule
  | .nil => []
  | .cons (id, rule) below after =>
    (match rule.head with
      | .style tokens =>
        let selectors := combine selectors tokens
        emit selectors media group rule ++ flatten selectors media group below
      | .media key => emit selectors (some key) group rule ++ flatten selectors (some key) group below
      | .transparent => emit selectors media group rule ++ flatten selectors media group below
      | .atRule => emit [rule.text] none none rule ++ flatten [] none (some id) below)
    ++ flatten selectors media group after

def Sheet.flatRules (sheet : Sheet) : List FlatRule :=
  flatten [] none none sheet.rules

/-! ## Formatting -/

def indent (depth : Nat) : Text :=
  Text.repeated depth [' ', ' ']

def FlatRule.selectorText (rule : FlatRule) : Text :=
  Text.join ", ".toList rule.selectors

def formatBraces (depth : Nat) (head body : Text) : Text :=
  indent depth ++ head ++ " \x7b\n".toList ++ body ++ '\n' :: indent depth ++ ['\x7d']

def formatDeclaration (depth : Nat) (declaration : Declaration) : Text :=
  indent depth ++ declaration.property ++ ": ".toList ++ declaration.value

def formatRule (depth : Nat) (rule : FlatRule) : Text :=
  formatBraces depth rule.selectorText
    (Text.join ";\n".toList (rule.declarations.map (formatDeclaration (depth + 1))))

def formatRules (depth : Nat) (rules : List FlatRule) : Text :=
  Text.join ['\n'] (rules.map (formatRule depth))

def formatBlock (depth : Nat) (head : Text) (rules : List FlatRule) : Text :=
  formatBraces depth head (formatRules (depth + 1) rules)

/-! ## Assembly -/

/-- The media keys of some rules, in the order of first appearance. -/
def mediaKeys (rules : List FlatRule) : List Text :=
  (rules.filterMap FlatRule.media).eraseDups

/-- `keys` with those that `order` names first, in its order. -/
def orderedKeys (order keys : List Text) : List Text :=
  (order.filter (keys.contains ·)).eraseDups ++ keys.filter (!order.contains ·)

/-- One `@media` block for every key of some rules. -/
def mediaBlocks (depth : Nat) (order : List Text) (rules : List FlatRule) : List Text :=
  (orderedKeys order (mediaKeys rules)).map fun key =>
    formatBlock depth ("@media ".toList ++ key) (rules.filter fun rule => rule.media = some key)

/-- The block of an at-rule: its rules without media key, then its `@media` blocks. -/
def formatGroup (order : List Text) (head : Text) (rules : List FlatRule) : Text :=
  let plain := rules.filter fun rule => rule.media = none
  let first := if plain = [] then [] else [formatRules 1 plain]
  formatBraces 0 head (Text.join ['\n'] (first ++ mediaBlocks 1 order rules))

def headText (sheet : Sheet) (id : Nat) : Text :=
  ((sheet.rules.preorder.find? fun entry => entry.1 = id).map fun entry => entry.2.text).getD []

/-- The blocks before the `@media` blocks. An at-rule has its block in the place of its first rule;
`seen` are the at-rules that already have theirs. -/
def topBlocks (sheet : Sheet) (order : List Text) (all : List FlatRule) :
    List Nat → List FlatRule → List Text
  | _, [] => []
  | seen, rule :: rest =>
    match rule.group with
    | some id =>
      if seen.contains id then topBlocks sheet order all seen rest
      else
        formatGroup order (headText sheet id) (all.filter fun rule => rule.group = some id)
          :: topBlocks sheet order all (id :: seen) rest
    | none =>
      if rule.media = none then formatRule 0 rule :: topBlocks sheet order all seen rest
      else topBlocks sheet order all seen rest

/-- The blocks of a sheet: statements, rules and at-rules, `@media` blocks. -/
def Sheet.blocks (sheet : Sheet) (order : List Text) : List Text :=
  let rules := sheet.flatRules
  sheet.statements.map (fun statement => statement.text ++ [';'])
    ++ topBlocks sheet order rules [] rules
    ++ mediaBlocks 0 order (rules.filter fun rule => rule.group = none)

/-- The text of a sheet, with media keys in the given order first. A malformed sheet has none. -/
def Sheet.buildOrdered (sheet : Sheet) (order : List Text) : Text :=
  if sheet.isMalformed then [] else Text.join ['\n'] (sheet.blocks order)

def Sheet.build (sheet : Sheet) : Text :=
  sheet.buildOrdered []

end Sitewright.Style

import Sitewright.Naming

/-!
Variables in style text: `$` and at least one letter, digit, `_` or `-` after it, outside of quoted
strings. `pieces` cuts a text into variables and what stands between them; putting values in place of
the variables that name a global is then one pass over the pieces.

The cut works on any list whose items carry a character, so that characters can bring their places with
them.
-/

namespace Sitewright.Style

/-- The characters of a variable after its `$`. -/
def isVariableChar (c : Char) : Bool :=
  c.isAlphanum || c == '_' || c == '-'

/-- A variable, or one character that belongs to none. -/
inductive Piece (α : Type) where
  | plain (item : α)
  | named (items : List α)
  deriving DecidableEq, Repr

/-- Where the cut stands: outside of a string, inside one, or inside one after a backslash. -/
inductive Quoting where
  | outside
  | inside (quote : Char)
  | escaped (quote : Char)
  deriving DecidableEq, Repr

/-- The state after a character that belongs to no variable. -/
def Quoting.next (quoting : Quoting) (c : Char) : Quoting :=
  match quoting with
  | .outside => if c = '"' ∨ c = '\'' then .inside c else .outside
  | .inside quote => if c = '\\' then .escaped quote else if c = quote then .outside else .inside quote
  | .escaped quote => .inside quote

variable {α : Type}

/-- Cuts a list at its variables. The first `skip` items have already gone into a variable. -/
def piecesFrom (char : α → Char) : Nat → Quoting → List α → List (Piece α)
  | _, _, [] => []
  | skip + 1, quoting, _ :: rest => piecesFrom char skip quoting rest
  | 0, quoting, item :: rest =>
    let name := rest.takeWhile fun x => isVariableChar (char x)
    if quoting = .outside ∧ char item = '$' ∧ name ≠ [] then
      .named (item :: name) :: piecesFrom char name.length .outside rest
    else .plain item :: piecesFrom char 0 (quoting.next (char item)) rest

def pieces (char : α → Char) (items : List α) : List (Piece α) :=
  piecesFrom char 0 .outside items

def namesIn (char : α → Char) (items : List α) : List (List α) :=
  (pieces char items).filterMap fun
    | .plain _ => none
    | .named items => some items

/-- Style text with values in place of globals, and the globals that had none. -/
structure Substitution where
  css : Text
  /-- In the order of first appearance. -/
  unresolved : List Text
  deriving DecidableEq, Repr

/-- What a piece becomes. A variable that names no global stays, and so does one without a value. -/
def Piece.resolve (lookup : Text → Option Text) : Piece Char → Text
  | .plain c => [c]
  | .named name => if Naming.isGlobalName name then (lookup name).getD name else name

def Piece.unresolved? (lookup : Text → Option Text) : Piece Char → Option Text
  | .plain _ => none
  | .named name =>
    if Naming.isGlobalName name && (lookup name).isNone then some name else none

def substitute (lookup : Text → Option Text) (css : Text) : Substitution :=
  let cut := pieces id css
  ⟨cut.flatMap (Piece.resolve lookup), (cut.filterMap (Piece.unresolved? lookup)).eraseDups⟩

end Sitewright.Style

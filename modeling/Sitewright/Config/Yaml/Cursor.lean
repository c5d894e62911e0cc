import Sitewright.Text.Basic

/-!
A place in a YAML document: the text from there on, with the line and the column of its first character.
-/

namespace Sitewright.Config.Yaml

def isSpace (c : Char) : Bool := c = ' ' || c = '\t'

def isBreak (c : Char) : Bool :=
  c = '\n' || c = '\r' || c = '\u0085' || c = '\u2028' || c = '\u2029'

def startsGap : Text → Bool
  | [] => true
  | c :: _ => isSpace c || isBreak c

def isAllowed (c : Char) : Bool :=
  let n := c.toNat
  n = 0x09 || n = 0x0a || n = 0x0d || (0x20 ≤ n && n ≤ 0x7e) || n = 0x85
    || (0xa0 ≤ n && n ≤ 0xfffd) || 0x10000 ≤ n

structure Cursor where
  text : Text
  line : Nat
  column : Nat
  /-- How many characters come before. -/
  index : Nat
  deriving DecidableEq, Repr

namespace Cursor

def start (text : Text) : Cursor := ⟨text, 0, 0, 0⟩

def skip (cursor : Cursor) (count : Nat) : Cursor :=
  { cursor with
    text := cursor.text.drop count, column := cursor.column + count, index := cursor.index + count }

def skipBreak (cursor : Cursor) : Cursor :=
  let count := match cursor.text with
    | '\r' :: '\n' :: _ => 2
    | _ => 1
  ⟨cursor.text.drop count, cursor.line + 1, 0, cursor.index + count⟩

/-- The line end at a place; only two of them are kept apart. -/
def breakChar (cursor : Cursor) : Char :=
  match cursor.text with
  | '\u2028' :: _ => '\u2028'
  | '\u2029' :: _ => '\u2029'
  | _ => '\n'

def atMark (cursor : Cursor) (mark : String) : Bool :=
  cursor.column = 0 && (Text.after? mark.toList cursor.text).any startsGap

def atDocumentMark (cursor : Cursor) : Bool :=
  cursor.atMark "---" || cursor.atMark "..."

end Cursor

end Sitewright.Config.Yaml

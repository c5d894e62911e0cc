import Sitewright.Text.Basic

/-!
Lines of Markdown. Indentation is measured in columns, and a tab goes on to the next column that is a
multiple of four; a part of a tab that was not used up counts as spaces.
-/

namespace Sitewright.Markdown

def isSpace (c : Char) : Bool := c = ' ' || c = '\t'

def isLineEnd (c : Char) : Bool := c = '\n' || c = '\r'

/-- The rest of a line and the column where it begins. -/
structure Line where
  column : Nat
  text : Text
  deriving DecidableEq, Repr

def tabWidth (column : Nat) : Nat := 4 - column % 4

def indentWidth : Nat → Text → Nat
  | column, ' ' :: rest => 1 + indentWidth (column + 1) rest
  | column, '\t' :: rest => tabWidth column + indentWidth (column + tabWidth column) rest
  | _, _ => 0

def dropColumns : Nat → Nat → Text → Line
  | 0, column, text => ⟨column, text⟩
  | count + 1, column, ' ' :: rest => dropColumns count (column + 1) rest
  | count + 1, column, '\t' :: rest =>
    let width := tabWidth column
    if width ≤ count + 1 then dropColumns (count + 1 - width) (column + width) rest
    else ⟨column + count + 1, List.replicate (width - (count + 1)) ' ' ++ rest⟩
  | _ + 1, column, text => ⟨column, text⟩

namespace Line

def indent (line : Line) : Nat := indentWidth line.column line.text

/-- Whether a line is indented as far as code. -/
def isIndented (line : Line) : Bool := 4 ≤ line.indent

def isBlank (line : Line) : Bool := line.text.all isSpace

def advance (line : Line) (count : Nat) : Line := dropColumns count line.column line.text

def skipIndent (line : Line) : Line := line.advance line.indent

def skip (line : Line) (count : Nat) : Line := ⟨line.column + count, line.text.drop count⟩

def content (line : Line) : Text := line.text.dropWhile isSpace

end Line

def trimEnd (text : Text) : Text := Text.dropEndWhile isSpace text

def trim (text : Text) : Text := trimEnd (text.dropWhile isSpace)

end Sitewright.Markdown

import Sitewright.Text.Basic

/-!
Lexemes of style sheets: braces, semicolons, comments, quoted strings, single slashes, and text up to
any of these. They cut a source into pieces without leaving anything out.

The lexer goes through the source character by character. A comment that is never closed takes all the
rest, so it is the last lexeme. A quoted string ends with its line at the latest; one that is not closed
by then is a lexeme of its own kind.
-/

namespace Sitewright.Style

inductive LexemeKind where
  | opening
  | closing
  | semicolon
  | comment
  | unterminatedComment
  | quoted
  | unterminatedString
  | slash
  | text
  deriving DecidableEq, Repr

/-- A lexeme, its characters, and the character offset of the first one. -/
structure Lexeme where
  kind : LexemeKind
  text : Text
  start : Nat
  deriving DecidableEq, Repr

def Lexeme.stop (lexeme : Lexeme) : Nat :=
  lexeme.start + lexeme.text.length

namespace Lexer

/-- What the lexer is in the middle of. What it has read is kept last character first. -/
inductive Mode where
  /-- Between lexemes. -/
  | ground
  | text (read : Text)
  | quoted (quote : Char) (escaped : Bool) (read : Text)
  /-- After a slash that may begin a comment. -/
  | slash
  | comment (star : Bool) (read : Text)
  deriving DecidableEq, Repr

def isSpecial (c : Char) : Bool :=
  c == '\x7b' || c == '\x7d' || c == ';' || c == '"' || c == '\'' || c == '/'

/-- Begins a lexeme with `c`: the lexeme if it is complete, and what the lexer is then in. -/
def opened (c : Char) (offset : Nat) : List Lexeme × Mode :=
  if c = '\x7b' then ([⟨.opening, [c], offset⟩], .ground)
  else if c = '\x7d' then ([⟨.closing, [c], offset⟩], .ground)
  else if c = ';' then ([⟨.semicolon, [c], offset⟩], .ground)
  else if c = '"' ∨ c = '\'' then ([], .quoted c false [c])
  else if c = '/' then ([], .slash)
  else ([], .text [c])

/-- A complete lexeme, and the beginning of the next one with `c`. -/
def emitThen (lexeme : Lexeme) (c : Char) (offset : Nat) : List Lexeme × Mode × Nat :=
  let (more, mode) := opened c offset
  (lexeme :: more, mode, offset)

/-- Reads one character. `start` is the offset of the lexeme that the lexer is in, `offset` that of
the character. -/
def step (mode : Mode) (start offset : Nat) (c : Char) : List Lexeme × Mode × Nat :=
  match mode with
  | .ground =>
    let (lexemes, mode) := opened c offset
    (lexemes, mode, offset)
  | .text read =>
    if isSpecial c then emitThen ⟨.text, read.reverse, start⟩ c offset
    else ([], .text (c :: read), start)
  | .quoted quote escaped read =>
    if c = '\n' then emitThen ⟨.unterminatedString, read.reverse, start⟩ c offset
    else if escaped then ([], .quoted quote false (c :: read), start)
    else if c = quote then ([⟨.quoted, (c :: read).reverse, start⟩], .ground, offset)
    else ([], .quoted quote (c == '\\') (c :: read), start)
  | .slash =>
    if c = '*' then ([], .comment false ['*', '/'], start)
    else emitThen ⟨.slash, ['/'], start⟩ c offset
  | .comment star read =>
    if star ∧ c = '/' then ([⟨.comment, (c :: read).reverse, start⟩], .ground, offset)
    else ([], .comment (c == '*') (c :: read), start)

def finish (mode : Mode) (start : Nat) : List Lexeme :=
  match mode with
  | .ground => []
  | .text read => [⟨.text, read.reverse, start⟩]
  | .quoted _ _ read => [⟨.unterminatedString, read.reverse, start⟩]
  | .slash => [⟨.slash, ['/'], start⟩]
  | .comment _ read => [⟨.unterminatedComment, read.reverse, start⟩]

def run : Mode → Nat → Nat → Text → List Lexeme
  | mode, start, _, [] => finish mode start
  | mode, start, offset, c :: rest =>
    let (lexemes, mode, start) := step mode start offset c
    lexemes ++ run mode start (offset + 1) rest

end Lexer

def lexemes (source : Text) : List Lexeme :=
  Lexer.run .ground 0 0 source

end Sitewright.Style

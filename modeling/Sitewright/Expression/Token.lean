import Sitewright.Text.Location

/-!
Tokens of expressions. Spaces, tabs and line ends separate tokens and are skipped; otherwise the
longest token wins. What begins no token is an `invalid` token of one character, except that a quoted
text which is never closed is one invalid token up to the end, or up to a newline after a backslash.
-/

namespace Sitewright.Expression

inductive TokenKind where
  | global
  | word
  | quoted
  | and
  | or
  | equal
  | notEqual
  | not
  | opening
  | closing
  | invalid
  deriving DecidableEq, Repr

/-- A token with its text and its place in bytes. -/
structure Token where
  kind : TokenKind
  text : Text
  span : ByteSpan
  deriving DecidableEq, Repr

def isGap (c : Char) : Bool :=
  c == ' ' || c == '\t' || c == '\r' || c == '\n'

def isWordChar (c : Char) : Bool :=
  c.isAlphanum || c == '_'

/-- Reads a quoted text after its opening quote: whether it was closed, what was read, and the rest. A
backslash takes the next character with it, unless that is a newline. -/
def quotedTail (quote : Char) : Text → Bool × Text × Text
  | [] => (false, [], [])
  | [c] => (c == quote, [c], [])
  | c :: d :: rest =>
    if c = quote then (true, [c], d :: rest)
    else if c = '\\' then
      if d = '\n' then (false, [c], d :: rest)
      else
        let (closed, read, rest) := quotedTail quote rest
        (closed, c :: d :: read, rest)
    else
      let (closed, read, rest) := quotedTail quote (d :: rest)
      (closed, c :: read, rest)

/-- The first token of `c :: rest`, where `c` is no gap: its kind, its text, and what follows. -/
def firstToken (c : Char) (rest : Text) : TokenKind × Text × Text :=
  if c = '$' then (.global, c :: rest.takeWhile isWordChar, rest.dropWhile isWordChar)
  else if c.isAlpha || c == '_' then
    (.word, c :: rest.takeWhile isWordChar, rest.dropWhile isWordChar)
  else if c = '"' ∨ c = '\'' then
    let (closed, read, rest) := quotedTail c rest
    (if closed then .quoted else .invalid, c :: read, rest)
  else
    match c, rest with
    | '&', '&' :: rest => (.and, ['&', '&'], rest)
    | '|', '|' :: rest => (.or, ['|', '|'], rest)
    | '=', '=' :: rest => (.equal, ['=', '='], rest)
    | '!', '=' :: rest => (.notEqual, ['!', '='], rest)
    | '!', rest => (.not, ['!'], rest)
    | '(', rest => (.opening, ['('], rest)
    | ')', rest => (.closing, [')'], rest)
    | c, rest => (.invalid, [c], rest)

/-- The tokens of a text that begins at byte `start`. Every round takes at least one character, so as
many rounds as there are characters are enough. -/
def tokensFrom : Nat → Nat → Text → List Token
  | 0, _, _ => []
  | _ + 1, _, [] => []
  | rounds + 1, start, c :: rest =>
    if isGap c then tokensFrom rounds (start + c.utf8Size) rest
    else
      let (kind, text, rest) := firstToken c rest
      let stop := start + Text.byteSize text
      ⟨kind, text, ⟨start, stop⟩⟩ :: tokensFrom rounds stop rest

def tokens (text : Text) : List Token :=
  tokensFrom text.length 0 text

end Sitewright.Expression

/-!
Text is a list of characters. Sources, names, style sheets and markup are all texts, so every
function on them is a function on lists, and the facts about them are facts about lists.

The module holds the cuts and joins that the rest of the library is written in: splitting at a
character, cutting at a phrase, replacing a character, lines, and the size in bytes.
-/

namespace Sitewright

/-- A piece of text, character by character. -/
abbrev Text := List Char

namespace Text

/-! ## Size -/

/-- The number of bytes of the text in UTF-8. -/
def byteSize : Text → Nat
  | [] => 0
  | c :: rest => c.utf8Size + byteSize rest

@[simp] theorem byteSize_nil : byteSize [] = 0 := rfl

@[simp] theorem byteSize_cons (c : Char) (t : Text) : byteSize (c :: t) = c.utf8Size + byteSize t :=
  rfl

@[simp] theorem byteSize_append (a b : Text) : byteSize (a ++ b) = byteSize a + byteSize b := by
  induction a with
  | nil => simp
  | cons c a ih => simp [ih, Nat.add_assoc]

/-! ## Splitting and joining -/

/-- Cuts the text at every character that satisfies `p`; the characters cut at are dropped. There is
always one more piece than there are cuts. -/
def splitWhen (p : Char → Bool) : Text → List Text
  | [] => [[]]
  | c :: rest =>
    if p c then [] :: splitWhen p rest
    else match splitWhen p rest with
      | [] => [[c]]
      | piece :: pieces => (c :: piece) :: pieces

def split (sep : Char) (t : Text) : List Text :=
  splitWhen (· == sep) t

/-- The pieces, with `sep` between neighbours. -/
def join (sep : Text) (pieces : List Text) : Text :=
  List.intercalate sep pieces

def splitOnce (sep : Char) : Text → Option (Text × Text)
  | [] => none
  | c :: rest =>
    if c = sep then some ([], rest)
    else (splitOnce sep rest).map fun (before, after) => (c :: before, after)

/-- The text before the first occurrence of `phrase` and the text after that occurrence. -/
def cut (phrase : Text) : Text → Option (Text × Text)
  | [] => if phrase = [] then some ([], []) else none
  | c :: rest =>
    match phrase.isPrefixOf? (c :: rest) with
    | some after => some ([], after)
    | none => (cut phrase rest).map fun (before, after) => (c :: before, after)

def holds (phrase t : Text) : Bool :=
  (cut phrase t).isSome

/-- What follows `start`, if the text begins with it. -/
def after? (start t : Text) : Option Text :=
  start.isPrefixOf? t

def startsWith (start t : Text) : Bool :=
  (start.after? t).isSome

/-- Whether the last character of the text is `c`. -/
def endsWith (c : Char) (t : Text) : Bool :=
  t.getLast? == some c

def replace (c : Char) (substitute : Text) (t : Text) : Text :=
  t.flatMap fun d => if d = c then substitute else [d]

def repeated (n : Nat) (unit : Text) : Text :=
  (List.replicate n unit).flatten

def dropEndWhile (p : Char → Bool) (t : Text) : Text :=
  (t.reverse.dropWhile p).reverse

/-- The text with ASCII capitals made small. -/
def toLower (t : Text) : Text :=
  t.map Char.toLower

/-! ## Lines -/

/-- A line that a newline ended, without the carriage return that may stand before the newline. -/
def dropReturn (line : Text) : Text :=
  if endsWith '\r' line then line.dropLast else line

/-- The lines of the text. A newline ends a line, so text after the last newline is a line only if
there is some. -/
def lines (t : Text) : List Text :=
  let pieces := split '\n' t
  let last := pieces.getLast?.getD []
  pieces.dropLast.map dropReturn ++ (if last = [] then [] else [last])

/-! ## Numbers -/

def ofNat (n : Nat) : Text :=
  Nat.toDigits 10 n

/-- The decimal digits of an integer, after `-` if it is negative. -/
def ofInt (i : Int) : Text :=
  if i < 0 then '-' :: ofNat i.natAbs else ofNat i.natAbs

end Text

end Sitewright

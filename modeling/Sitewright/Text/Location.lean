import Sitewright.Text.Basic

/-!
Places in a text. Readers of markup count bytes of UTF-8; everything reported to a person counts
characters, or lines and columns from one. A `ByteSpan` and a `CharRange` are both half open and are
never mixed; `charRange` is the only way from the first to the second.

Each conversion is clamped: an offset past the end stands for the end, a column past its line for the
end of that line, and the end of a converted span never lies before its start.
-/

namespace Sitewright

/-- A half open range of byte offsets. -/
structure ByteSpan where
  start : Nat
  stop : Nat
  deriving DecidableEq, Repr

/-- A half open range of character offsets. -/
structure CharRange where
  start : Nat
  stop : Nat
  deriving DecidableEq, Repr

def ByteSpan.shift (span : ByteSpan) (distance : Nat) : ByteSpan :=
  ⟨span.start + distance, span.stop + distance⟩

def CharRange.shift (range : CharRange) (distance : Nat) : CharRange :=
  ⟨range.start + distance, range.stop + distance⟩

/-- A place: line and column count from one, the offset counts characters from zero. -/
structure Point where
  line : Nat
  column : Nat
  offset : Nat
  deriving DecidableEq, Repr

/-- A range given by its two end points. -/
structure Position where
  start : Point
  stop : Point
  deriving DecidableEq, Repr

def Position.range (position : Position) : CharRange :=
  ⟨position.start.offset, position.stop.offset⟩

/-- A piece of a source together with where it stands. -/
structure CodePart where
  text : Text
  range : CharRange
  deriving DecidableEq, Repr

/-- A reference to a global. `part.text` is what is written: the global itself, or `@name` where a
style sheet uses the global `$name` as the name of a media query. -/
structure GlobalReference where
  part : CodePart
  global : Text
  deriving DecidableEq, Repr

namespace Text

/-! ## Bytes and characters -/

/-- The character offset of a byte offset. A byte inside a character stands for the next one. -/
def charOffset : Text → Nat → Nat
  | [], _ => 0
  | _ :: _, 0 => 0
  | c :: rest, byte + 1 => charOffset rest (byte + 1 - c.utf8Size) + 1

def charRange (t : Text) (span : ByteSpan) : CharRange :=
  let start := t.charOffset span.start
  ⟨start, max (t.charOffset span.stop) start⟩

def byteOffset (t : Text) (offset : Nat) : Nat :=
  byteSize (t.take offset)

def byteSpan (t : Text) (range : CharRange) : ByteSpan :=
  ⟨t.byteOffset range.start, t.byteOffset range.stop⟩

def slice (t : Text) (range : CharRange) : Text :=
  (t.take range.stop).drop range.start

def sliceBytes (t : Text) (span : ByteSpan) : Text :=
  t.slice ⟨t.charOffset span.start, t.charOffset span.stop⟩

/-! ## Lines and columns -/

def point (t : Text) (offset : Nat) : Point :=
  let before := t.take offset
  ⟨before.count '\n' + 1, (before.reverse.takeWhile (· != '\n')).length + 1, before.length⟩

def position (t : Text) (range : CharRange) : Position :=
  ⟨t.point range.start, t.point (max range.stop range.start)⟩

/-- The character offset of a line and column. A line of zero is the first line, a column of zero the
first column. -/
def offset (t : Text) (line column : Nat) : Nat :=
  let all := split '\n' t
  match all.drop (line - 1) with
  | [] => t.length
  | this :: _ => (all.take (line - 1)).foldr (fun piece sum => piece.length + 1 + sum) (min (column - 1) this.length)

end Text

end Sitewright

import Sitewright.Text.Basic

/-!
Blank characters: the Unicode property `White_Space`, and the five ASCII blanks that separate the
parts of a tag. Trimming and splitting into words go by the Unicode property.
-/

namespace Sitewright

/-- The ranges of code points with the Unicode property `White_Space`, in increasing order. -/
def blankRanges : List (Nat × Nat) :=
  [(0x09, 0x0D), (0x20, 0x20), (0x85, 0x85), (0xA0, 0xA0), (0x1680, 0x1680), (0x2000, 0x200A),
    (0x2028, 0x2029), (0x202F, 0x202F), (0x205F, 0x205F), (0x3000, 0x3000)]

/-- Whether a character has the Unicode property `White_Space`. -/
def isBlank (c : Char) : Bool :=
  blankRanges.any fun (low, high) => low ≤ c.toNat && c.toNat ≤ high

/-- Space, tab, newline, form feed and carriage return: the blanks of markup. -/
def isAsciiBlank (c : Char) : Bool :=
  c == ' ' || c == '\t' || c == '\n' || c == '\x0c' || c == '\r'

/-- Every blank of markup is blank. -/
theorem isBlank_of_isAsciiBlank {c : Char} (h : isAsciiBlank c) : isBlank c := by
  simp only [isAsciiBlank, Bool.or_eq_true, beq_iff_eq] at h
  rcases h with (((h | h) | h) | h) | h <;> subst h <;> decide

namespace Text

def trimStart (t : Text) : Text :=
  t.dropWhile isBlank

def trimEnd (t : Text) : Text :=
  dropEndWhile isBlank t

def trim (t : Text) : Text :=
  trimEnd (trimStart t)

/-- The maximal runs of characters that are not blank. -/
def words (t : Text) : List Text :=
  (splitWhen isBlank t).filter fun word => word != []

/-- The words of the text with one space between neighbours. -/
def squeeze (t : Text) : Text :=
  join [' '] (words t)

def allBlank (t : Text) : Bool :=
  t.all isBlank

end Text

end Sitewright

import Sitewright.Text.Basic

/-!
Digits and their values.
-/

namespace Sitewright.Text

def digitOf (c : Char) : Nat := c.toNat - '0'.toNat

def decimalValue (digits : Text) : Nat :=
  digits.foldl (fun sum c => sum * 10 + digitOf c) 0

def hexDigit? (c : Char) : Option Nat :=
  if c.isDigit then some (digitOf c)
  else if 'a' ≤ c ∧ c ≤ 'f' then some (c.toNat - 'a'.toNat + 10)
  else if 'A' ≤ c ∧ c ≤ 'F' then some (c.toNat - 'A'.toNat + 10)
  else none

def hexValue? (digits : Text) : Option Nat :=
  digits.foldlM (fun sum c => (hexDigit? c).map (sum * 16 + ·)) 0

/-- Every decimal digit is a hexadecimal digit of the same value. -/
theorem hexDigit?_of_isDigit {c : Char} (h : c.isDigit) : hexDigit? c = some (digitOf c) := by
  simp [hexDigit?, h]

end Sitewright.Text

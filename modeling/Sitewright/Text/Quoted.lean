import Sitewright.Text.Basic

/-!
Texts as string literals of the script: between double quotes, with a backslash before quotes and
backslashes and with escapes for the characters below the space. Everything else stands for itself.
-/

namespace Sitewright.Text

/-- The hexadecimal digit of a number below sixteen, in small letters. -/
def hexChar (n : Nat) : Char :=
  if n < 10 then Char.ofNat ('0'.toNat + n) else Char.ofNat ('a'.toNat + (n - 10))

def quotedChar (c : Char) : Text :=
  if c = '"' then ['\\', '"']
  else if c = '\\' then ['\\', '\\']
  else if c = '\x08' then ['\\', 'b']
  else if c = '\x0c' then ['\\', 'f']
  else if c = '\n' then ['\\', 'n']
  else if c = '\r' then ['\\', 'r']
  else if c = '\t' then ['\\', 't']
  else if c.toNat < 0x20 then
    ['\\', 'u', '0', '0', hexChar (c.toNat / 16), hexChar (c.toNat % 16)]
  else [c]

def quoted (t : Text) : Text :=
  '"' :: t.flatMap quotedChar ++ ['"']

end Sitewright.Text

import Sitewright.Config.Json
import Sitewright.Number.Shortest

/-!
Scalars of TOML: texts in four kinds of quotes, truth values, numbers, dates and times. Dates and times
are checked, but no option can be one.
-/

namespace Sitewright.Config.Toml

/-! ## Characters -/

def isSpace (c : Char) : Bool := c = ' ' || c = '\t'

def isPrintable (c : Char) : Bool :=
  c = '\t' || (0x20 ≤ c.toNat && c.toNat ≠ 0x7f)

def newline? : Text → Option Text
  | '\n' :: rest => some rest
  | '\r' :: '\n' :: rest => some rest
  | _ => none

/-! ## Texts -/

/-- The character with a code, unless it is half of a surrogate pair or out of range. -/
def charOfCode? (code : Nat) : Option Char :=
  if h : code.isValidChar then some ⟨code.toUInt32, by
    have hlt : code < 4294967296 := by
      rcases h with h | h <;> omega
    simpa [UInt32.isValidChar, Nat.toUInt32, UInt32.toNat_ofNat', Nat.mod_eq_of_lt hlt] using h⟩
  else none

def escapedCode? (digits : Text) : Option Char :=
  (Text.hexValue? digits).bind charOfCode?

def escapedLetter? (c : Char) : Option Char :=
  if c = 'e' then some '\x1b' else if c = '/' then none else Json.shortEscape? c

def basicText? : Text → Option (Text × Text)
  | [] => none
  | '"' :: rest => some ([], rest)
  | '\\' :: 'x' :: a :: b :: rest => do
    let code ← escapedCode? [a, b]
    (basicText? rest).map fun (text, rest) => (code :: text, rest)
  | '\\' :: 'u' :: a :: b :: c :: d :: rest => do
    let code ← escapedCode? [a, b, c, d]
    (basicText? rest).map fun (text, rest) => (code :: text, rest)
  | '\\' :: 'U' :: a :: b :: c :: d :: e :: f :: g :: h :: rest => do
    let code ← escapedCode? [a, b, c, d, e, f, g, h]
    (basicText? rest).map fun (text, rest) => (code :: text, rest)
  | '\\' :: c :: rest => do
    let escaped ← escapedLetter? c
    (basicText? rest).map fun (text, rest) => (escaped :: text, rest)
  | c :: rest =>
    if isPrintable c then (basicText? rest).map fun (text, rest) => (c :: text, rest) else none

def literalText? (text : Text) : Option (Text × Text) :=
  let body := text.takeWhile fun c => c ≠ '\'' && isPrintable c
  match text.drop body.length with
  | '\'' :: rest => some (body, rest)
  | _ => none

/-- Reads a text in three double quotes. After a backslash at the end of a line the blanks that follow
are left out, which `trimming` says is going on. -/
def longText? (trimming : Bool) : Text → Option (Text × Text)
  | [] => none
  | '"' :: '"' :: '"' :: '"' :: '"' :: rest => some (['"', '"'], rest)
  | '"' :: '"' :: '"' :: '"' :: rest => some (['"'], rest)
  | '"' :: '"' :: '"' :: rest => some ([], rest)
  | '\r' :: '\n' :: rest =>
    if trimming then longText? true rest
    else (longText? false rest).map fun (text, rest) => ('\n' :: text, rest)
  | '\\' :: 'x' :: a :: b :: rest => do
    let code ← escapedCode? [a, b]
    (longText? false rest).map fun (text, rest) => (code :: text, rest)
  | '\\' :: 'u' :: a :: b :: c :: d :: rest => do
    let code ← escapedCode? [a, b, c, d]
    (longText? false rest).map fun (text, rest) => (code :: text, rest)
  | '\\' :: 'U' :: a :: b :: c :: d :: e :: f :: g :: h :: rest => do
    let code ← escapedCode? [a, b, c, d, e, f, g, h]
    (longText? false rest).map fun (text, rest) => (code :: text, rest)
  | '\\' :: c :: rest =>
    if (newline? ((c :: rest).dropWhile isSpace)).isSome then
      if c = '\r' || c = '\n' || isSpace c then longText? true rest else none
    else do
      let escaped ← escapedLetter? c
      (longText? false rest).map fun (text, rest) => (escaped :: text, rest)
  | c :: rest =>
    if trimming && (isSpace c || c = '\n') then longText? true rest
    else if c = '\n' || isPrintable c then
      (longText? false rest).map fun (text, rest) => (c :: text, rest)
    else none

def longLiteral? : Text → Option (Text × Text)
  | [] => none
  | '\'' :: '\'' :: '\'' :: '\'' :: '\'' :: rest => some (['\'', '\''], rest)
  | '\'' :: '\'' :: '\'' :: '\'' :: rest => some (['\''], rest)
  | '\'' :: '\'' :: '\'' :: rest => some ([], rest)
  | '\r' :: '\n' :: rest => (longLiteral? rest).map fun (text, rest) => ('\n' :: text, rest)
  | c :: rest =>
    if c = '\n' || isPrintable c then
      (longLiteral? rest).map fun (text, rest) => (c :: text, rest)
    else none

def dropNewline (text : Text) : Text :=
  (newline? text).getD text

def shortText? : Text → Option (Text × Text)
  | '"' :: rest => basicText? rest
  | '\'' :: rest => literalText? rest
  | _ => none

def text? : Text → Option (Text × Text)
  | '"' :: '"' :: '"' :: rest => longText? false (dropNewline rest)
  | '\'' :: '\'' :: '\'' :: rest => longLiteral? (dropNewline rest)
  | text => shortText? text

/-! ## Numbers -/

/-- Digits without the underscores between them. -/
def plainDigits? (isDigit : Char → Bool) (text : Text) : Option Text :=
  let groups := Text.split '_' text
  if groups.all fun group => group ≠ [] && group.all isDigit then some groups.flatten else none

def valueOf (base : Nat) (digits : Text) : Nat :=
  digits.foldl (fun sum c => sum * base + (Text.hexDigit? c).getD 0) 0

def isDigitOf (base : Nat) (c : Char) : Bool :=
  (Text.hexDigit? c).any (· < base)

/-- The value of an integer; none if it has more than 128 bits. One with more than 64 is unusable. -/
def integer? (value : Int) : Option Meaning :=
  if hasBits 64 value then some (.int value)
  else if hasBits 128 value then some .unusable
  else none

/-- Digits before a point: no zero comes first but alone. -/
def wholeDigits? (text : Text) : Option Text :=
  match plainDigits? Char.isDigit text with
  | some ('0' :: _ :: _) => none
  | digits => digits

def float? (negative : Bool) (whole : Text) (rest : Text) : Option Meaning := do
  let whole ← wholeDigits? whole
  let isRun (c : Char) : Bool := c.isDigit || c = '_'
  let (fraction, rest) ← match rest with
    | '.' :: rest => (plainDigits? Char.isDigit (rest.takeWhile isRun)).map (·, rest.dropWhile isRun)
    | rest => some ([], rest)
  let exponent ← match rest with
    | [] => some 0
    | e :: rest =>
      if e = 'e' || e = 'E' then
        let (down, digits) := Json.signOff rest
        (plainDigits? Char.isDigit digits).map fun digits => Json.exponentValue (some (down, digits))
      else none
  let digits := whole ++ fraction
  let value := Double.ofDecimal negative (valueOf 10 digits) (exponent - fraction.length)
  if value.isFinite then some (.float value) else none

def unsigned? (negative signed : Bool) (text : Text) : Option Meaning :=
  let based (base : Nat) (digits : Text) : Option Meaning :=
    if signed then none
    else (plainDigits? (isDigitOf base) digits).bind fun digits => integer? (valueOf base digits)
  match text with
  | '0' :: 'x' :: digits => based 16 digits
  | '0' :: 'o' :: digits => based 8 digits
  | '0' :: 'b' :: digits => based 2 digits
  | text =>
    let whole := text.takeWhile fun c => c.isDigit || c = '_'
    let rest := text.drop whole.length
    if rest = [] then
      (wholeDigits? whole).bind fun digits =>
        let value : Int := valueOf 10 digits
        integer? (if negative then -value else value)
    else float? negative whole rest

def number? (text : Text) : Option Meaning :=
  let (negative, body) := Json.signOff text
  if body = "inf".toList then some (.float (.infinite negative))
  else if body = "nan".toList then some (.float .nan)
  else unsigned? negative (body.length ≠ text.length) body

/-! ## Dates and times -/

def fixedDigits? (count : Nat) (text : Text) : Option (Nat × Text) :=
  let digits := text.take count
  if digits.length = count && digits.all Char.isDigit then some (valueOf 10 digits, text.drop count)
  else none

def exactly? (c : Char) : Text → Option Text
  | first :: rest => if first = c then some rest else none
  | [] => none

def daysOf (year month : Nat) : Nat :=
  let leap := year % 4 = 0 && (year % 100 ≠ 0 || year % 400 = 0)
  if month = 2 then (if leap then 29 else 28)
  else if month = 4 || month = 6 || month = 9 || month = 11 then 30
  else 31

def date? (text : Text) : Option Text := do
  let (year, text) ← fixedDigits? 4 text
  let (month, text) ← fixedDigits? 2 (← exactly? '-' text)
  let (day, text) ← fixedDigits? 2 (← exactly? '-' text)
  if 1 ≤ month ∧ month ≤ 12 ∧ 1 ≤ day ∧ day ≤ daysOf year month then some text else none

def seconds? : Text → Option Text
  | ':' :: text => do
    let (second, text) ← fixedDigits? 2 text
    if 60 < second then none
    match text with
    | '.' :: text => (Json.digits? text).map Prod.snd
    | text => some text
  | text => some text

def time? (text : Text) : Option Text := do
  let (hour, text) ← fixedDigits? 2 text
  let (minute, text) ← fixedDigits? 2 (← exactly? ':' text)
  if 23 < hour ∨ 59 < minute then none else seconds? text

def offset? : Text → Option Text
  | [] => some []
  | c :: text =>
    if c = 'Z' || c = 'z' then some text
    else if c = '+' || c = '-' then do
      let (hour, text) ← fixedDigits? 2 text
      let (minute, text) ← fixedDigits? 2 (← exactly? ':' text)
      if 23 < hour ∨ 59 < minute then none else some text
    else none

def isMoment (text : Text) : Bool :=
  match date? text with
  | none => time? text = some []
  | some [] => true
  | some (c :: rest) =>
    (c = 'T' || c = 't' || c = ' ') && ((time? rest).bind offset?) = some []

/-! ## Scalars -/

def isScalarChar (c : Char) : Bool :=
  c.isAlphanum || c = '_' || c = '+' || c = '-' || c = '.' || c = ':'

/-- Cuts the characters of a scalar without quotes off. A date goes on after a blank if a digit follows
there. -/
def scalarRun (text : Text) : Text × Text :=
  let run := text.takeWhile isScalarChar
  let rest := text.drop run.length
  match rest with
  | ' ' :: d :: _ =>
    if date? run = some [] && d.isDigit then
      let more := (rest.drop 1).takeWhile isScalarChar
      (run ++ ' ' :: more, rest.drop (more.length + 1))
    else (run, rest)
  | rest => (run, rest)

def meaning? (run : Text) : Option Meaning :=
  if run = "true".toList then some (.bool true)
  else if run = "false".toList then some (.bool false)
  else if isMoment run then some .unusable
  else number? run

def scalar? (text : Text) : Option (Value × Text) :=
  match text with
  | [] => none
  | c :: _ =>
    if c = '"' || c = '\'' then (text? text).map fun (value, rest) => (.text value, rest)
    else
      let (run, rest) := scalarRun text
      (meaning? run).map fun meaning => (.ofMeaning meaning, rest)

end Sitewright.Config.Toml

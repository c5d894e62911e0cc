import Sitewright.Config.Options
import Sitewright.Text.Blank
import Sitewright.Text.Digit

/-!
JSON documents. A document is cut into tokens, and a stack of open lists and records takes one token
after another. A text with half of a surrogate pair and a number out of range have the form of a value
and stand for nothing.

Numbers without fraction and exponent are integers if they have at most 64 bits. For the others the
digits are gathered in 64 bits, further digits only count, and the result is multiplied or divided once
by a power of ten.
-/

namespace Sitewright.Config.Json

/-! ## Numbers -/

/-- Greater numbers do not fit into 64 bits. -/
def maxSignificand : Nat := twoTo 64 - 1

/-- Digits gathered in 64 bits. -/
structure Gathered where
  significand : Nat
  /-- How many digits were taken. -/
  taken : Nat
  /-- How many were left over, from the first that did not fit. -/
  left : Nat
  deriving DecidableEq, Repr

def gather : Gathered → Text → Gathered
  | sum, [] => sum
  | sum, c :: rest =>
    if sum.significand * 10 + Text.digitOf c ≤ maxSignificand then
      gather { sum with significand := sum.significand * 10 + Text.digitOf c, taken := sum.taken + 1 } rest
    else { sum with left := rest.length + 1 }

/-- Divides by `1e308` until the exponent is small enough for one more division. -/
def scaleDown : Nat → Double → Nat → Double
  | 0, value, _ => value
  | rounds + 1, value, exponent =>
    if exponent ≤ 308 then value.div (.powerOfTen exponent)
    else if value.isZero then value
    else scaleDown rounds (value.div (.powerOfTen 308)) (exponent - 308)

/-- A positive number of gathered digits and an exponent; none if it is out of range. -/
def scale? (significand : Nat) (exponent : Int) : Option Double :=
  let start := Double.ofInt significand
  if exponent < 0 then some (scaleDown 20 start (-exponent).toNat)
  else if exponent ≤ 308 then
    let value := start.mul (.powerOfTen exponent.toNat)
    if value.isFinite then some value else none
  else if start.isZero then some start
  else none

structure Numeral where
  negative : Bool
  whole : Text
  fraction : Option Text
  exponent : Option (Bool × Text)
  deriving DecidableEq, Repr

/-- An exponent with its sign. More than 32 bits are told apart only by their sign. -/
def exponentValue : Option (Bool × Text) → Int
  | none => 0
  | some (negative, digits) =>
    let size := Int.ofNat (min (Text.decimalValue digits) (twoTo 31))
    if negative then -size else size

def Numeral.double? (numeral : Numeral) : Option Double :=
  let whole := gather ⟨0, 0, 0⟩ numeral.whole
  let all := gather ⟨whole.significand, 0, 0⟩ (numeral.fraction.getD [])
  let exponent := exponentValue numeral.exponent + whole.left - all.taken
  (scale? all.significand exponent).map fun value => if numeral.negative then value.neg else value

def Numeral.meaning (numeral : Numeral) : Meaning :=
  let whole := gather ⟨0, 0, 0⟩ numeral.whole
  let isInteger := numeral.fraction.isNone && numeral.exponent.isNone && whole.left = 0
  if isInteger && !numeral.negative then .int whole.significand
  else if isInteger && 0 < whole.significand && whole.significand ≤ twoTo 63 then
    .int (-whole.significand)
  else
    match numeral.double? with
    | some value => .float value
    | none => .unusable

def digits? (text : Text) : Option (Text × Text) :=
  let digits := text.takeWhile Char.isDigit
  if digits = [] then none else some (digits, text.dropWhile Char.isDigit)

/-- Cuts the digits before the point off. A zero stands alone. -/
def whole? : Text → Option (Text × Text)
  | '0' :: rest => if rest.head?.any Char.isDigit then none else some (['0'], rest)
  | text => digits? text

def fraction? : Text → Option (Option Text × Text)
  | '.' :: rest => (digits? rest).map fun (digits, rest) => (some digits, rest)
  | text => some (none, text)

def signOff : Text → Bool × Text
  | '+' :: rest => (false, rest)
  | '-' :: rest => (true, rest)
  | text => (false, text)

def exponent? : Text → Option (Option (Bool × Text) × Text)
  | c :: rest =>
    if c = 'e' || c = 'E' then
      let (negative, rest) := signOff rest
      (digits? rest).map fun (digits, rest) => (some (negative, digits), rest)
    else some (none, c :: rest)
  | [] => some (none, [])

def numeral? (text : Text) : Option (Numeral × Text) := do
  let (negative, text) := match text with
    | '-' :: rest => (true, rest)
    | text => (false, text)
  let (whole, text) ← whole? text
  let (fraction, text) ← fraction? text
  let (exponent, text) ← exponent? text
  return (⟨negative, whole, fraction, exponent⟩, text)

/-! ## Texts -/

/-- A character of a text: itself, or a unit of sixteen bits. -/
inductive Unit16 where
  | char (c : Char)
  | unit (n : Nat)
  deriving DecidableEq, Repr

def shortEscape? (c : Char) : Option Char :=
  if c = '"' || c = '\\' || c = '/' then some c
  else if c = 'b' then some '\x08'
  else if c = 'f' then some '\x0c'
  else if c = 'n' then some '\n'
  else if c = 'r' then some '\r'
  else if c = 't' then some '\t'
  else none

def units? : Text → Option (List Unit16 × Text)
  | [] => none
  | '"' :: rest => some ([], rest)
  | '\\' :: 'u' :: a :: b :: c :: d :: rest => do
    let unit ← Text.hexValue? [a, b, c, d]
    let (units, rest) ← units? rest
    return (.unit unit :: units, rest)
  | '\\' :: c :: rest => do
    let escaped ← shortEscape? c
    let (units, rest) ← units? rest
    return (.char escaped :: units, rest)
  | c :: rest =>
    if c.toNat < 0x20 then none
    else (units? rest).map fun (units, rest) => (.char c :: units, rest)

def isHigh (n : Nat) : Bool := 0xD800 ≤ n && n < 0xDC00

def isLow (n : Nat) : Bool := 0xDC00 ≤ n && n < 0xE000

/-- The text of some units; none if a half of a pair stands alone. -/
def text? : List Unit16 → Option Text
  | [] => some []
  | .char c :: rest => (text? rest).map (c :: ·)
  | .unit high :: .unit low :: rest =>
    if isHigh high && isLow low then
      (text? rest).map (Char.ofNat (0x10000 + (high - 0xD800) * 0x400 + (low - 0xDC00)) :: ·)
    else if isHigh high || isLow high then none
    else (text? (.unit low :: rest)).map (Char.ofNat high :: ·)
  | .unit n :: rest =>
    if isHigh n || isLow n then none else (text? rest).map (Char.ofNat n :: ·)

/-! ## Tokens -/

inductive Token where
  | openList
  | closeList
  | openRecord
  | closeRecord
  | comma
  | colon
  | text (value : Value)
  /-- A number or a word. -/
  | scalar (value : Value)

def isSpace (c : Char) : Bool := c = ' ' || c = '\t' || c = '\n' || c = '\r'

def words : List (Text × Meaning) :=
  [("true".toList, .bool true), ("false".toList, .bool false), ("null".toList, .null)]

def textValue (units : List Unit16) : Value :=
  match text? units with
  | some text => .text text
  | none => .ofMeaning .unusable

def scalar? (text : Text) : Option (Token × Text) :=
  match text with
  | '"' :: rest => (units? rest).map fun (units, rest) => (.text (textValue units), rest)
  | _ =>
    match words.findSome? fun (word, meaning) => (Text.after? word text).map (meaning, ·) with
    | some (meaning, rest) => some (.scalar (.ofMeaning meaning), rest)
    | none => (numeral? text).map fun (numeral, rest) => (.scalar (.ofMeaning numeral.meaning), rest)

def mark? (c : Char) : Option Token :=
  if c = '[' then some .openList
  else if c = ']' then some .closeList
  else if c = '\x7b' then some .openRecord
  else if c = '\x7d' then some .closeRecord
  else if c = ',' then some .comma
  else if c = ':' then some .colon
  else none

/-- Cuts a text into tokens. Every round takes a token. -/
def tokens? : Nat → Text → Option (List Token)
  | 0, _ => none
  | rounds + 1, text =>
    match text.dropWhile isSpace with
    | [] => some []
    | c :: rest =>
      match mark? c with
      | some token => (tokens? rounds rest).map (token :: ·)
      | none => do
        let (token, rest) ← scalar? (c :: rest)
        return token :: (← tokens? rounds rest)

/-! ## Documents -/

/-- A list or a record that is not closed yet, last item first. -/
inductive Open where
  | list (items : List Value)
  /-- With a key whose value has not come yet. -/
  | record (fields : List (Value × Value)) (key : Option Value)

/-- What may come next. -/
inductive Await where
  | value
  | itemOrClose
  | key
  | keyOrClose
  | colon
  | commaOrClose
  | nothing
  deriving DecidableEq, Repr

/-- A document on the way. -/
structure Reading where
  stack : List Open
  await : Await
  result : Option Value

def Reading.start : Reading := ⟨[], .value, none⟩

def Reading.complete (value : Value) : List Open → Option Reading
  | [] => some ⟨[], .nothing, some value⟩
  | .list items :: stack => some ⟨.list (value :: items) :: stack, .commaOrClose, none⟩
  | .record fields (some key) :: stack =>
    some ⟨.record ((key, value) :: fields) none :: stack, .commaOrClose, none⟩
  | .record _ none :: _ => none

def Await.takesValue (await : Await) : Bool := await = .value || await = .itemOrClose

def Await.takesKey (await : Await) : Bool := await = .key || await = .keyOrClose

def Reading.step (reading : Reading) (token : Token) : Option Reading :=
  match token, reading.stack with
  | .scalar value, stack => if reading.await.takesValue then Reading.complete value stack else none
  | .text key, .record fields none :: stack =>
    if reading.await.takesKey then some ⟨.record fields (some key) :: stack, .colon, none⟩ else none
  | .text value, stack => if reading.await.takesValue then Reading.complete value stack else none
  | .openList, stack =>
    if reading.await.takesValue then some ⟨.list [] :: stack, .itemOrClose, none⟩ else none
  | .openRecord, stack =>
    if reading.await.takesValue then some ⟨.record [] none :: stack, .keyOrClose, none⟩ else none
  | .closeList, .list items :: stack =>
    if reading.await = .itemOrClose || reading.await = .commaOrClose then
      Reading.complete (.list items.reverse) stack
    else none
  | .closeRecord, .record fields none :: stack =>
    if reading.await = .keyOrClose || reading.await = .commaOrClose then
      Reading.complete (.record fields.reverse) stack
    else none
  | .colon, stack => if reading.await = .colon then some ⟨stack, .value, none⟩ else none
  | .comma, .list items :: stack =>
    if reading.await = .commaOrClose then some ⟨.list items :: stack, .value, none⟩ else none
  | .comma, .record fields key :: stack =>
    if reading.await = .commaOrClose then some ⟨.record fields key :: stack, .key, none⟩ else none
  | _, _ => none

def read (text : Text) : Option Value := do
  let tokens ← tokens? (text.length + 1) text
  let reading ← tokens.foldlM Reading.step .start
  reading.result

/-- A structure given as a list has no more items than fields, and a choice may be a key with `null`. -/
def format : Format where
  refusesExtraItems := true
  isPayload
    | .scalar _ .null => true
    | _ => false

def options? (text : Text) : Option Options :=
  (read text).bind (Config.options? format)

end Sitewright.Config.Json

import Sitewright.Config.Json
import Sitewright.Config.Toml.Scalar

/-!
What scalars of YAML stand for. A plain scalar is nothing, a truth value, a number or else a text; a tag
chooses one of these. Integers have up to 64 bits; what fits into 128 is unusable, and longer ones are
floating point numbers.
-/

namespace Sitewright.Config.Yaml

def isNull (text : Text) : Bool :=
  ["null", "Null", "NULL", "~"].any fun word => text = word.toList

def bool? (text : Text) : Option Bool :=
  if ["true", "True", "TRUE"].any fun word => text = word.toList then some true
  else if ["false", "False", "FALSE"].any fun word => text = word.toList then some false
  else none

def dropSign : Text → Text
  | '+' :: rest => rest
  | '-' :: rest => rest
  | text => text

/-- Digits after a zero, which are no number. -/
def isPaddedDigits (text : Text) : Bool :=
  match dropSign text with
  | '0' :: rest => rest ≠ [] && rest.all Char.isDigit
  | _ => false

def digitsValue? (base : Nat) (digits : Text) : Option Nat :=
  if digits ≠ [] && digits.all (Toml.isDigitOf base) then some (Toml.valueOf base digits) else none

def basedValue? : Text → Option Nat
  | '0' :: 'x' :: digits => digitsValue? 16 digits
  | '0' :: 'o' :: digits => digitsValue? 8 digits
  | '0' :: 'b' :: digits => digitsValue? 2 digits
  | _ => none

def size? (text : Text) : Option Nat :=
  (basedValue? text).or (digitsValue? 10 text)

def integer? (text : Text) : Option Int :=
  if isPaddedDigits text then none
  else
    match text with
    | '-' :: rest => (size? rest).map fun size => -size
    | '+' :: rest => (size? rest).map fun size => (size : Int)
    | rest => (size? rest).map fun size => (size : Int)

/-- The integer that a text is, as far as it has at most 128 bits. -/
def integerMeaning? (text : Text) : Option Meaning :=
  (integer? text).bind fun value =>
    if hasBits 64 value then some (.int value)
    else if hasBits 128 value then some .unusable
    else none

def decimal? (negative : Bool) (text : Text) : Option Double := do
  let whole := text.takeWhile Char.isDigit
  let rest := text.drop whole.length
  let (fraction, rest) := match rest with
    | '.' :: rest => (rest.takeWhile Char.isDigit, rest.dropWhile Char.isDigit)
    | rest => ([], rest)
  let exponent ← match rest with
    | [] => some 0
    | e :: rest =>
      if e = 'e' || e = 'E' then
        let (down, digits) := Json.signOff rest
        if digits ≠ [] && digits.all Char.isDigit then
          some (Json.exponentValue (some (down, digits)))
        else none
      else none
  let digits := whole ++ fraction
  if digits = [] then none
  else
    let value := Double.ofDecimal negative (Toml.valueOf 10 digits) (exponent - fraction.length)
    if value.isFinite then some value else none

def float? (text : Text) : Option Double :=
  let isWord (text : Text) (words : List String) : Bool := words.any fun word => text = word.toList
  let (signed, negative, body) := match text with
    | '+' :: rest => (true, false, rest)
    | '-' :: rest => (true, true, rest)
    | rest => (false, false, rest)
  if isWord body [".inf", ".Inf", ".INF"] then some (.infinite negative)
  else if !signed && isWord body [".nan", ".NaN", ".NAN"] then some .nan
  else decimal? negative body

def resolve (text : Text) : Meaning :=
  if text = [] || isNull text then .null
  else
    match bool? text with
    | some value => .bool value
    | none =>
      match integerMeaning? text with
      | some meaning => meaning
      | none =>
        match if isPaddedDigits text then none else float? text with
        | some value => .float value
        | none => .text text

def resolveTagged (kind : Text) (text : Text) : Meaning :=
  if kind = "bool".toList then ((bool? text).map Meaning.bool).getD .unusable
  else if kind = "int".toList then (integerMeaning? text).getD .unusable
  else if kind = "float".toList then ((float? text).map Meaning.float).getD .unusable
  else if kind = "null".toList then (if isNull text then .null else .unusable)
  else .text text

def standardTags : Text := "tag:yaml.org,2002:".toList

def scalarValue (tag : Option Text) (text : Text) (plain : Bool) : Value :=
  let untagged : Value := .scalar (some text) (if plain then resolve text else .text text)
  match tag with
  | none => untagged
  | some ['!'] => .tagged ['!'] untagged
  | some ('!' :: name) => .tagged name untagged
  | some tag =>
    match Text.after? standardTags tag with
    | some kind => .scalar (some text) (resolveTagged kind text)
    | none => .scalar (some text) (.text text)

end Sitewright.Config.Yaml

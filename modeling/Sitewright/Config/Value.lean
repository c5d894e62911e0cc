import Sitewright.Number.Double
import Sitewright.Text.Basic

/-!
Values of configuration documents, whatever format they are written in.
-/

namespace Sitewright.Config

/-- What a scalar stands for. -/
inductive Meaning where
  | null
  | bool (value : Bool)
  | int (value : Int)
  | float (value : Double)
  | text (value : Text)
  /-- Nothing that an option can be, such as a date or a number out of range. -/
  | unusable
  deriving DecidableEq, Repr

inductive Value where
  /-- A scalar and, where it can be read as a text, that text. -/
  | scalar (reading : Option Text) (meaning : Meaning)
  | list (items : List Value)
  /-- Keys and values in the order of the document; keys may repeat. -/
  | record (fields : List (Value × Value))
  /-- A value marked with a name. -/
  | tagged (name : Text) (value : Value)

namespace Value

def text (value : Text) : Value := scalar (some value) (.text value)

/-- A scalar that is no text. -/
def ofMeaning (meaning : Meaning) : Value := scalar none meaning

def null : Value := ofMeaning .null

def nat (value : Nat) : Value := ofMeaning (.int value)

/-- A value without the names it is marked with. -/
def untagged : Value → Value
  | tagged _ value => untagged value
  | value => value

def text? (value : Value) : Option Text :=
  match value.untagged with
  | scalar reading _ => reading
  | _ => none

/-- Whether nothing was written where a value is expected. -/
def isBlank (value : Value) : Bool :=
  match value.untagged with
  | scalar (some []) .null => true
  | _ => false

def list? (value : Value) : Option (List Value) :=
  match value.untagged with
  | list items => some items
  | _ => if value.isBlank then some [] else none

/-- The number of 64 bits without a sign that a value is. -/
def nat? : Value → Option Nat
  | scalar _ (.int value) => if isUnsigned 64 value then some value.toNat else none
  | _ => none

end Value

end Sitewright.Config

import Sitewright.Config.Value
import Sitewright.Text.Order

/-!
Tables of TOML while a document is read. Which keys may still be added to a table depends on how it was
made: by a header, by a longer header, or by a dotted key. The fields of a table are ordered by key.
-/

namespace Sitewright.Config.Toml

/-- How a table was made. -/
inductive TableKind where
  /-- By a header of its own. -/
  | header
  /-- By the header of a table inside it. -/
  | implied
  /-- By a dotted key. -/
  | dotted
  deriving DecidableEq, Repr

inductive Item where
  /-- A value to which nothing can be added. -/
  | value (value : Value)
  | table (kind : TableKind) (fields : List (Text × Item))
  /-- Tables made one after another by headers in double brackets. -/
  | tables (finished : List (List (Text × Item))) (last : List (Text × Item))

def putField (key : Text) (item : Item) : List (Text × Item) → List (Text × Item)
  | [] => [(key, item)]
  | (other, old) :: rest =>
    if Text.before key other then (key, item) :: (other, old) :: rest
    else if key = other then (key, item) :: rest
    else (other, old) :: putField key item rest

/-- Changes a field; `change` gives none if it must not be changed so. -/
def alterField (key : Text) (change : Option Item → Option Item) (fields : List (Text × Item)) :
    Option (List (Text × Item)) :=
  (change (fields.lookup key)).map fun item => putField key item fields

/-- Changes the table at a path of headers. Tables on the way are made as needed, and of several tables
the last is meant. -/
def within (change : List (Text × Item) → Option (List (Text × Item))) :
    List Text → List (Text × Item) → Option (List (Text × Item))
  | [] => change
  | key :: rest =>
    alterField key fun
      | none => (within change rest []).map (.table .implied)
      | some (.table kind fields) => (within change rest fields).map (.table kind)
      | some (.tables finished last) => (within change rest last).map (.tables finished)
      | some (.value _) => none

def defineTable : Option Item → Option Item
  | none => some (.table .header [])
  | some (.table .implied fields) => some (.table .header fields)
  | some _ => none

def appendTable : Option Item → Option Item
  | none => some (.tables [] [])
  | some (.tables finished last) => some (.tables (finished ++ [last]) [])
  | some _ => none

def assign (item : Item) : List Text → List (Text × Item) → Option (List (Text × Item))
  | [], _ => none
  | [key], fields => alterField key (fun old => if old.isNone then some item else none) fields
  | key :: rest, fields =>
    alterField key (fun
      | none => (assign item rest []).map (.table .dotted)
      | some (.table .dotted inner) => (assign item rest inner).map (.table .dotted)
      | some (.table .implied inner) =>
        if 1 < rest.length then (assign item rest inner).map (.table .implied) else none
      | some _ => none) fields

mutual

def Item.toValue : Item → Value
  | .value value => value
  | .table _ fields => .record (fieldValues fields)
  | .tables finished last => .list (tableValues finished ++ [.record (fieldValues last)])

def fieldValues : List (Text × Item) → List (Value × Value)
  | [] => []
  | (key, item) :: rest => (.text key, item.toValue) :: fieldValues rest

def tableValues : List (List (Text × Item)) → List Value
  | [] => []
  | fields :: rest => .record (fieldValues fields) :: tableValues rest

end

end Sitewright.Config.Toml

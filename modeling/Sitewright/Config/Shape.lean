import Sitewright.Config.Value

/-!
Reading values by shape. A structure is written as a record, in which unknown keys are ignored and a
known key must not repeat, or as a list of its fields in their order. A choice is written as its name;
some formats also have a form with the name as a key or as a mark.
-/

namespace Sitewright.Config

/-- How a format writes structures and choices. -/
structure Format where
  /-- Whether a list with more items than the structure has fields is refused. -/
  refusesExtraItems : Bool
  /-- Whether a choice may be written as a record of its name and such a value. -/
  isPayload : Value → Bool

/-- The fields of a structure, as far as they are written. -/
structure Fields where
  values : List (Text × Value)

namespace Fields

def get? (fields : Fields) (name : Text) : Option Value :=
  fields.values.lookup name

def optional {α : Type} (fields : Fields) (name : String) (read : Value → Option α) (default : α) :
    Option α :=
  match fields.get? name.toList with
  | some value => read value
  | none => some default

def required {α : Type} (fields : Fields) (name : String) (read : Value → Option α) : Option α :=
  (fields.get? name.toList).bind read

end Fields

def entries? : List (Value × Value) → Option (List (Text × Value))
  | [] => some []
  | (key, value) :: rest => do return (← key.text?, value) :: (← entries? rest)

def recordFields? (names : List Text) (fields : List (Value × Value)) : Option Fields := do
  let known := (← entries? fields).filter fun (key, _) => names.contains key
  if (known.map Prod.fst).eraseDups.length = known.length then some ⟨known⟩ else none

def listFields? (format : Format) (names : List Text) (items : List Value) : Option Fields :=
  if format.refusesExtraItems && names.length < items.length then none
  else some ⟨names.zip items⟩

def fields? (format : Format) (names : List String) (value : Value) : Option Fields :=
  let names := names.map String.toList
  match value.untagged with
  | .record fields => recordFields? names fields
  | .list items => listFields? format names items
  | .scalar _ _ => if value.isBlank then some ⟨[]⟩ else none
  | .tagged _ _ => none

def choiceName? (format : Format) : Value → Option Text
  | .tagged name (.scalar _ .null) => some name
  | .record [(key, payload)] => if format.isPayload payload then key.text? else none
  | .scalar reading _ => reading
  | _ => none

def choice? {α : Type} (format : Format) (choices : List α) (name : α → String) (value : Value) :
    Option α :=
  (choiceName? format value).bind fun chosen => choices.find? fun choice => (name choice).toList = chosen

def each? {α : Type} (read : Value → Option α) (value : Value) : Option (List α) :=
  value.list?.bind fun items => items.mapM read

end Sitewright.Config

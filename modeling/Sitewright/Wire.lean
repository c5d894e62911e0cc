import Sitewright.Config.Json
import Sitewright.Diagnostic
import Sitewright.Environment
import Sitewright.Template.Id

/-!
How records of the library are exchanged as values: structures by the names of their fields, choices by
their names. Unknown fields are ignored, except that a range has no other fields than its two.
-/

namespace Sitewright

open Config

/-- Types with a form as values. -/
class Wire (α : Type) where
  encode : α → Value
  decode : Value → Option α

namespace Wire

def ofFields (fields : List (String × Value)) : Value :=
  .record (fields.map fun (name, value) => (.text name.toList, value))

def fields? (names : List String) (value : Value) : Option Fields :=
  Config.fields? Json.format names value

def choice (name : String) : Value := .text name.toList

instance : Wire Severity where
  encode severity := choice severity.name
  decode := choice? Json.format [.warning, .error] Severity.name

instance : Wire StyleCategory where
  encode category := choice (Category.name category)
  decode := choice? Json.format Category.all Category.name

instance : Wire TemplateCategory where
  encode category := choice (Category.name category)
  decode := choice? Json.format Category.all Category.name

instance : Wire Environment where
  encode environment := choice environment.name
  decode := choice? Json.format [.development, .production] Environment.name

instance : Wire TemplateKind where
  encode kind := choice kind.name
  decode := choice? Json.format [.component, .page] TemplateKind.name

instance : Wire TemplateId where
  encode id := ofFields [("kind", encode id.kind), ("id", .text id.name)]
  decode value := do
    let fields ← fields? ["kind", "id"] value
    return .ofKind (← fields.required "kind" decode) (← fields.required "id" Value.text?)

instance : Wire Point where
  encode point :=
    ofFields [("line", .nat point.line), ("column", .nat point.column), ("offset", .nat point.offset)]
  decode value := do
    let fields ← fields? ["line", "column", "offset"] value
    return ⟨← fields.required "line" Value.nat?, ← fields.required "column" Value.nat?,
      ← fields.required "offset" Value.nat?⟩

instance : Wire Position where
  encode position := ofFields [("start", encode position.start), ("end", encode position.stop)]
  decode value := do
    let fields ← fields? ["start", "end"] value
    return ⟨← fields.required "start" decode, ← fields.required "end" decode⟩

def hasOnly (names : List String) : Value → Bool
  | .record fields => fields.all fun (key, _) => key.text?.any (names.map String.toList).contains
  | _ => true

instance : Wire CharRange where
  encode range := ofFields [("start", .nat range.start), ("end", .nat range.stop)]
  decode value := do
    if !hasOnly ["start", "end"] value then none
    let fields ← fields? ["start", "end"] value
    return ⟨← fields.required "start" Value.nat?, ← fields.required "end" Value.nat?⟩

instance : Wire CodePart where
  encode part := ofFields [("text", .text part.text), ("range", encode part.range)]
  decode value := do
    let fields ← fields? ["text", "range"] value
    return ⟨← fields.required "text" Value.text?, ← fields.required "range" decode⟩

instance : Wire GlobalReference where
  encode reference :=
    ofFields [("part", encode reference.part), ("variable", .text reference.global)]
  decode value := do
    let fields ← fields? ["part", "variable"] value
    return ⟨← fields.required "part" decode, ← fields.required "variable" Value.text?⟩

def text?? : Value → Option (Option Text)
  | .scalar _ .null => some none
  | value => value.text?.map some

instance : Wire Record where
  encode record :=
    ofFields ([("message", .text record.message.toList), ("severity", encode record.severity),
      ("from", .nat record.range.start), ("to", .nat record.range.stop),
      ("category", .text record.category.toList)]
      ++ (record.template.map fun name => ("templateId", .text name)).toList)
  decode value := do
    let fields ← fields? ["message", "severity", "from", "to", "category", "templateId"] value
    return {
      message := String.ofList (← fields.required "message" Value.text?)
      severity := ← fields.required "severity" decode
      range := ⟨← fields.required "from" Value.nat?, ← fields.required "to" Value.nat?⟩
      category := String.ofList (← fields.required "category" Value.text?)
      template := ← fields.optional "templateId" text?? none }

end Wire

end Sitewright

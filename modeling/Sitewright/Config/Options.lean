import Sitewright.Config.Shape
import Sitewright.Number.Shortest
import Sitewright.Project.Options

/-!
Project options from configuration values. Every option may be left out. A global is a text, a truth
value or a number; the last two are kept as their texts.
-/

namespace Sitewright.Config

/-- The text of an integer: its digits, or those of the nearest double if it has more than 64 bits with
its sign. -/
def integerText (value : Int) : Text :=
  if isSigned 64 value then Text.ofInt value else (Double.ofInt value).toText

def globalText? : Value → Option Text
  | .scalar _ (.text value) => some value
  | .scalar _ (.bool true) => some "true".toList
  | .scalar _ (.bool false) => some "false".toList
  | .scalar _ (.int value) => some (integerText value)
  | .scalar _ (.float value) => some value.toText
  | _ => none

/-- Globals. A repeated name keeps its first place and takes the last value. -/
def globals? (value : Value) : Option (Table Text Text) :=
  match value.untagged with
  | .record fields => do
    let entries ← entries? fields
    let globals ← entries.mapM fun (name, value) => (globalText? value).map fun text => (name, text)
    return Table.ofList globals
  | _ => if value.isBlank then some ∅ else none

/-- A template: the field that names it, and its source. -/
def template? (format : Format) (name : String) (value : Value) : Option (Text × Text) := do
  let fields ← fields? format [name, "html"] value
  return (← fields.required name Value.text?, ← fields.optional "html" Value.text? [])

def environment? (format : Format) (value : Value) : Option Environment :=
  choice? format [.development, .production] Environment.name value

def options? (format : Format) (value : Value) : Option Options := do
  let fields ← fields? format
    ["environment", "globals", "components", "pages", "assets", "css", "js"] value
  return {
    environment := ← fields.optional "environment" (environment? format) .development
    globals := ← fields.optional "globals" globals? ∅
    components := ← fields.optional "components" (each? (template? format "name")) []
    pages := ← fields.optional "pages" (each? (template? format "path")) []
    assets := ← fields.optional "assets" (each? Value.text?) []
    css := ← fields.optional "css" Value.text? []
    js := ← fields.optional "js" Value.text? [] }

end Sitewright.Config

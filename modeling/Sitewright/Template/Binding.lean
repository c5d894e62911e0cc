import Sitewright.Naming
import Sitewright.Markup.Document
import Sitewright.Template.Directive
import Sitewright.Text.Quoted

/-!
Client directives moved from the markup into the script. The states of `x-data` go into one
registration for the template; the other directives of an element, except those of the kept families,
go into one registration for the element. A bare `x-bind` stays, unless the element has a registration;
then it is the first entry of it.
-/

namespace Sitewright.Directive

open Markup

/-- What becomes of the directives of an element. -/
structure Binding where
  /-- The number of the element. -/
  node : Nat
  /-- The states it declares. -/
  states : List Text
  /-- The directives that move into its registration, with their values. -/
  moved : List (Text × Text)
  /-- The places of the attributes that leave the markup. -/
  removed : List Nat
  deriving DecidableEq, Repr

def Binding.suffix (binding : Binding) : Text :=
  'b' :: Text.ofNat binding.node

/-- Where a directive goes. -/
inductive Place where
  /-- Into the state of the template. -/
  | state
  /-- Nowhere, unless the element has a registration. -/
  | bare
  /-- Nowhere. -/
  | stay
  /-- Into the registration of the element. -/
  | move
  deriving DecidableEq, Repr

/-- Where an attribute goes. An attribute that is no directive stays. -/
def place (name : Text) : Place :=
  if Naming.looksLikeDirective name then
    match family name with
    | none => .move
    | some base =>
      if base = "x-data".toList then .state
      else if name = "x-bind".toList then .bare
      else if kept.contains base then .stay
      else .move
  else .stay

def stateText (attr : Attribute) : Text :=
  let state := Text.trim attr.valueOrEmpty
  if state = [] then ['\x7b', '\x7d'] else state

/-- The attributes of an element that go to a place, each with its index. -/
def placed (element : Element) (goal : Place) : List (Attribute × Nat) :=
  element.attributes.zipIdx.filter fun (attr, _) => place attr.name = goal

def binding (node : Nat) (element : Element) : Binding :=
  let states := placed element .state
  let moved := placed element .move
  let bare := if moved = [] then [] else (placed element .bare).getLast?.toList
  let entry := fun ((attr, _) : Attribute × Nat) => (attr.name, attr.valueOrEmpty)
  let leaves := fun ((_, index) : Attribute × Nat) => (states ++ moved ++ bare).any (·.2 == index)
  ⟨node, states.map fun (attr, _) => stateText attr, (bare ++ moved).map entry,
    (element.attributes.zipIdx.filter leaves).map Prod.snd⟩

/-- The elements of a document that lose directives, in document order. -/
def bindings (document : Document) : List Binding :=
  (document.nodes.filterMap fun (id, node) => node.element?.map (binding id)).filter fun binding =>
    binding.states != [] || binding.moved != []

/-- What becomes of the directives of the element with a number. -/
def find? (bindings : List Binding) (node : Nat) : Option Binding :=
  bindings.find? fun binding => binding.node = node

/-! ## The script -/

def stateLine (key : Text) (states : List Text) : Text :=
  let parts := states.map fun state => "...(".toList ++ state ++ [')']
  "Alpine.data(".toList ++ Text.quoted key ++ ", () => (\x7b ".toList
    ++ Text.join ", ".toList parts ++ " \x7d));".toList

def bindingLine (key : Text) (binding : Binding) : Text :=
  let entries := binding.moved.map fun (name, value) =>
    Text.quoted name ++ ": ".toList ++ Text.quoted value
  "Alpine.bind(".toList ++ Text.quoted (key ++ binding.suffix) ++ ", () => (\x7b ".toList
    ++ Text.join ", ".toList entries ++ " \x7d));".toList

/-- The lines of the script that register what left the markup of a template. -/
def registration (key : Text) (bindings : List Binding) : List Text :=
  let states := bindings.flatMap Binding.states
  (if states = [] then [] else [stateLine key states])
    ++ (bindings.filter fun binding => binding.moved != []).map (bindingLine key)

end Sitewright.Directive

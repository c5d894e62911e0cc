import Sitewright.NameSet
import Sitewright.Text.Blank

/-!
Expressions of `if` attributes and mustache tags, and their values. Every value is a text; the empty
text, `false` and `0` count as false. A name without a value counts as the empty text, and evaluation
lists every such name it meets, on both sides of `&&` and `||`.
-/

namespace Sitewright

inductive Expression where
  | global (name : Text)
  | property (name : Text)
  | literal (value : Text)
  | bool (value : Bool)
  | not (inner : Expression)
  | and (left right : Expression)
  | or (left right : Expression)
  | equal (left right : Expression)
  | notEqual (left right : Expression)
  deriving DecidableEq, Repr

/-- The names that have a value. -/
structure Scope where
  global : Text → Option Text
  property : Text → Option Text

/-- A value and the names that had none on the way to it, in the order of reading. -/
structure Evaluation where
  value : Text
  unresolved : List Text
  deriving DecidableEq, Repr

def Text.ofBool : Bool → Text
  | true => "true".toList
  | false => "false".toList

def isTruthy (value : Text) : Bool :=
  let core := Text.trim value
  !(core == [] || core == "false".toList || core == "0".toList)

def Evaluation.isTruthy (evaluation : Evaluation) : Bool :=
  Sitewright.isTruthy evaluation.value

namespace Expression

def looked (name : Text) : Option Text → Evaluation
  | some value => ⟨value, []⟩
  | none => ⟨[], [name]⟩

/-- Both operands, joined by `f`. -/
def joined (f : Text → Text → Bool) (left right : Evaluation) : Evaluation :=
  ⟨Text.ofBool (f left.value right.value), left.unresolved ++ right.unresolved⟩

/-- The value of an expression. Both operands are always evaluated. -/
def evaluate (scope : Scope) : Expression → Evaluation
  | global name => looked name (scope.global name)
  | property name => looked name (scope.property name)
  | literal value => ⟨value, []⟩
  | bool value => ⟨Text.ofBool value, []⟩
  | not inner =>
    let operand := evaluate scope inner
    ⟨Text.ofBool (!isTruthy operand.value), operand.unresolved⟩
  | and left right =>
    joined (fun a b => isTruthy a && isTruthy b) (evaluate scope left) (evaluate scope right)
  | or left right =>
    joined (fun a b => isTruthy a || isTruthy b) (evaluate scope left) (evaluate scope right)
  | equal left right => joined (fun a b => a == b) (evaluate scope left) (evaluate scope right)
  | notEqual left right => joined (fun a b => a != b) (evaluate scope left) (evaluate scope right)

/-- The globals of the expression from left to right, with repetitions. -/
def globals : Expression → List Text
  | global name => [name]
  | property _ | literal _ | bool _ => []
  | not inner => globals inner
  | and left right | or left right | equal left right | notEqual left right =>
    globals left ++ globals right

/-- The properties of the expression from left to right, with repetitions. -/
def properties : Expression → List Text
  | property name => [name]
  | global _ | literal _ | bool _ => []
  | not inner => properties inner
  | and left right | or left right | equal left right | notEqual left right =>
    properties left ++ properties right

def globalSet (expression : Expression) : NameSet :=
  .ofList expression.globals

def propertySet (expression : Expression) : NameSet :=
  .ofList expression.properties

def isLookup : Expression → Bool
  | global _ | property _ => true
  | _ => false

end Expression

end Sitewright

import Sitewright.Expression.Basic

/-!
What evaluation looks up. `lookups` lists the names of an expression in the order of reading. Evaluation looks all of
them up, on both sides of every operator, and lists those without a value (`unresolved_evaluate`); nothing else has a
part in the value (`evaluate_congr`).
-/

namespace Sitewright

/-- A name, as an expression asks for its value. -/
inductive Lookup where
  | global (name : Text)
  | property (name : Text)
  deriving DecidableEq

def Lookup.name : Lookup → Text
  | global name | property name => name

def Scope.value? (scope : Scope) : Lookup → Option Text
  | .global name => scope.global name
  | .property name => scope.property name

namespace Expression

variable {scope other : Scope} {expression : Expression} {name : Text}

/-- The names of the expression from left to right, with repetitions. -/
def lookups : Expression → List Lookup
  | global name => [.global name]
  | property name => [.property name]
  | literal _ | bool _ => []
  | not inner => lookups inner
  | and left right | or left right | equal left right | notEqual left right => lookups left ++ lookups right

theorem mem_lookups : (.global name ∈ expression.lookups ↔ name ∈ expression.globals) ∧
    (.property name ∈ expression.lookups ↔ name ∈ expression.properties) := by
  induction expression with
  | global | property | literal | bool => simp [lookups, globals, properties]
  | not inner ih => exact ih
  | and left right ihl ihr | or left right ihl ihr | equal left right ihl ihr | notEqual left right ihl ihr =>
    simp only [lookups, globals, properties, List.mem_append, ihl, ihr, and_self]

/-! ## Names without a value -/

theorem unresolved_looked (name : Text) (value : Option Text) :
    (looked name value).unresolved = if value.isNone then [name] else [] := by
  cases value <;> rfl

/-- No operand is left out: the names that are missed are all those without a value, in the order of reading. -/
theorem unresolved_evaluate (scope : Scope) (expression : Expression) :
    (expression.evaluate scope).unresolved =
      (expression.lookups.filter fun lookup => (scope.value? lookup).isNone).map Lookup.name := by
  induction expression with
  | global name | property name =>
    rw [evaluate, unresolved_looked, lookups, List.filter_cons, List.filter_nil, Scope.value?]
    split <;> rfl
  | literal | bool => rfl
  | not inner ih => exact ih
  | and left right ihl ihr | or left right ihl ihr | equal left right ihl ihr | notEqual left right ihl ihr =>
    rw [lookups, List.filter_append, List.map_append, ← ihl, ← ihr, evaluate, joined]

/-- A name that evaluation misses stands in the expression and has no value. -/
theorem of_mem_unresolved (h : name ∈ (expression.evaluate scope).unresolved) :
    (name ∈ expression.globals ∧ scope.global name = none) ∨
      (name ∈ expression.properties ∧ scope.property name = none) := by
  rw [unresolved_evaluate] at h
  obtain ⟨lookup, hlookup, rfl⟩ := List.mem_map.mp h
  obtain ⟨hmem, hnone⟩ := List.mem_filter.mp hlookup
  rw [Option.isNone_iff_eq_none] at hnone
  cases lookup with
  | global name => exact .inl ⟨mem_lookups.1.mp hmem, hnone⟩
  | property name => exact .inr ⟨mem_lookups.2.mp hmem, hnone⟩

/-! ## Values -/

theorem evaluate_congr (hglobals : ∀ name ∈ expression.globals, scope.global name = other.global name)
    (hproperties : ∀ name ∈ expression.properties, scope.property name = other.property name) :
    expression.evaluate scope = expression.evaluate other := by
  induction expression with
  | global name => simp only [evaluate, hglobals name List.mem_cons_self]
  | property name => simp only [evaluate, hproperties name List.mem_cons_self]
  | literal | bool => rfl
  | not inner ih => simp only [evaluate, ih hglobals hproperties]
  | and left right ihl ihr | or left right ihl ihr | equal left right ihl ihr | notEqual left right ihl ihr =>
    rw [globals, List.forall_mem_append] at hglobals
    rw [properties, List.forall_mem_append] at hproperties
    simp only [evaluate, ihl hglobals.1 hproperties.1, ihr hglobals.2 hproperties.2]

theorem isTruthy_ofBool (value : Bool) : isTruthy (Text.ofBool value) = value := by
  cases value <;> decide

theorem isTruthy_joined (f : Text → Text → Bool) (left right : Evaluation) :
    (joined f left right).isTruthy = f left.value right.value :=
  isTruthy_ofBool _

/-- **Evaluation reads the names of an expression, all of them and nothing else.** Those without a value are listed in
the order of reading, with repetitions; two scopes that agree on the names give the same evaluation; and what counts as
true follows the connectives, whatever the operands are. -/
theorem evaluation_reads_names (expression : Expression) (scope : Scope) :
    (expression.evaluate scope).unresolved =
        (expression.lookups.filter fun lookup => (scope.value? lookup).isNone).map Lookup.name ∧
      (∀ name, (.global name ∈ expression.lookups ↔ name ∈ expression.globalSet) ∧
        (.property name ∈ expression.lookups ↔ name ∈ expression.propertySet)) ∧
      (∀ other : Scope, (∀ name ∈ expression.globalSet, scope.global name = other.global name) →
        (∀ name ∈ expression.propertySet, scope.property name = other.property name) →
        expression.evaluate scope = expression.evaluate other) ∧
      (expression.not.evaluate scope).isTruthy = !(expression.evaluate scope).isTruthy ∧
      ∀ right : Expression,
        ((expression.and right).evaluate scope).isTruthy =
            ((expression.evaluate scope).isTruthy && (right.evaluate scope).isTruthy) ∧
          ((expression.or right).evaluate scope).isTruthy =
            ((expression.evaluate scope).isTruthy || (right.evaluate scope).isTruthy) ∧
          ((expression.equal right).evaluate scope).isTruthy =
            ((expression.evaluate scope).value == (right.evaluate scope).value) ∧
          ((expression.notEqual right).evaluate scope).isTruthy =
            !((expression.equal right).evaluate scope).isTruthy := by
  have hsets (name : Text) : (.global name ∈ expression.lookups ↔ name ∈ expression.globalSet) ∧
      (.property name ∈ expression.lookups ↔ name ∈ expression.propertySet) := by
    rw [globalSet, propertySet, NameSet.mem_ofList, NameSet.mem_ofList]
    exact mem_lookups
  refine ⟨unresolved_evaluate scope expression, hsets, fun other hglobals hproperties => ?_, isTruthy_ofBool _,
    fun right => ⟨isTruthy_joined _ _ _, isTruthy_joined _ _ _, isTruthy_joined _ _ _, ?_⟩⟩
  · exact evaluate_congr (fun name hname => hglobals name (NameSet.mem_ofList.mpr hname))
      fun name hname => hproperties name (NameSet.mem_ofList.mpr hname)
  · rw [evaluate, evaluate, isTruthy_joined, isTruthy_joined]
    rfl

/-- `true || $a && b != $a` -/
def decided : Expression :=
  .or (.bool true) (.and (.global "$a".toList) (.notEqual (.property "b".toList) (.global "$a".toList)))

/-- What is true already is read to its end, and no name has a say in it but `$a` and `b`. -/
theorem evaluation_reads_names_decided :
    decided.evaluate ⟨fun _ => none, fun _ => some []⟩ = ⟨"true".toList, ["$a".toList, "$a".toList]⟩ ∧
      decided.evaluate ⟨fun name => if name = "$a".toList then none else some [], fun _ => some []⟩ =
        ⟨"true".toList, ["$a".toList, "$a".toList]⟩ := by
  have hvalue : decided.evaluate ⟨fun _ => none, fun _ => some []⟩ =
    ⟨"true".toList, ["$a".toList, "$a".toList]⟩ := by decide
  have hagrees : ∀ name ∈ decided.globalSet.toList,
    (none : Option Text) = if name = "$a".toList then none else some [] := by decide
  obtain ⟨-, -, hsame, -⟩ := evaluation_reads_names decided ⟨fun _ => none, fun _ => some []⟩
  exact ⟨hvalue, (hsame ⟨fun name => if name = "$a".toList then none else some [], fun _ => some []⟩ hagrees
    fun _ _ => rfl).symm.trans hvalue⟩

end Expression

end Sitewright

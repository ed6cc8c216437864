import LoreDB.Library.Doubles
import LoreDB.Query.Cypher.PatternMatching
import Mathlib.Data.Finmap

/-! Constraints in a pattern against conditions in WHERE. The one looks at every property of the name and
compares integers as they are, the other at the first property only and compares integers as doubles. -/
namespace LoreDB.Query.Cypher
open LoreDB.Storage LoreDB.Library

/-- Values without floating-point numbers are equal as integers or else as texts. -/
def EqualValue : PropertyValue → PropertyValue → Prop
  | .integer actual, .integer expected => actual = expected
  | actual, expected => propertyValueToString actual = propertyValueToString expected

/-- Integers that no conversion to doubles keeps apart. -/
def SameDouble : PropertyValue → PropertyValue → Prop
  | .integer actual, .integer expected =>
    (Float.Model.ofInt64 actual).beq (Float.Model.ofInt64 expected) = true
  | _, _ => False

def IsFloat : PropertyValue → Prop
  | .float _ => True
  | _ => False

instance : (value : PropertyValue) → Decidable (IsFloat value)
  | .float _ => .isTrue trivial
  | .string _ | .integer _ | .boolean _ => .isFalse id

/-- Where neither value is a floating-point number, a constraint asks for equal values. -/
theorem sameValue_equal {actual expected : PropertyValue} (one : ¬IsFloat actual) (other : ¬IsFloat expected) :
    sameValue actual expected = true ↔ EqualValue actual expected := by
  cases actual with
  | float bits => exact absurd trivial one
  | string text =>
    cases expected with
    | float bits => exact absurd trivial other
    | _ => simp [sameValue,EqualValue,toDouble,propertyValueToString]
  | integer value =>
    cases expected with
    | float bits => exact absurd trivial other
    | _ => simp [sameValue,EqualValue,toDouble,propertyValueToString]
  | boolean value =>
    cases expected with
    | float bits => exact absurd trivial other
    | boolean expected =>
      have texts : ∀ first second : Bool, (first == second) = true ↔
          propertyValueToString (.boolean first) = propertyValueToString (.boolean second) := by decide
      exact texts value expected
    | _ => simp [sameValue,EqualValue,toDouble,propertyValueToString]

theorem compare_equal {actual expected : PropertyValue} (one : ¬IsFloat actual) (other : ¬IsFloat expected) :
    ComparisonOperator.equal.compare actual expected = true ↔
      EqualValue actual expected ∨ SameDouble actual expected := by
  cases actual with
  | float bits => exact absurd trivial one
  | integer value =>
    cases expected with
    | float bits => exact absurd trivial other
    | integer expected =>
      simp only [ComparisonOperator.compare,toDouble,ComparisonOperator.compareNumbers,EqualValue,SameDouble]
      constructor
      · exact .inr
      · rintro (rfl | same)
        · exact Doubles.beq_ofInt64 value
        · exact same
    | _ => simp [ComparisonOperator.compare,ComparisonOperator.compareTexts,EqualValue,SameDouble,toDouble]
  | _ =>
    cases expected with
    | float bits => exact absurd trivial other
    | _ => simp [ComparisonOperator.compare,ComparisonOperator.compareTexts,EqualValue,SameDouble,toDouble]

/-- The values of the properties of a name, in their order. -/
def valuesOf (key : Bytes) (properties : List Property) : List PropertyValue :=
  (properties.filter fun prop => prop.key == key).map fun prop => fromStorage prop.value

/-- The first value is the one that is asked for; or no value is, unless the first is an integer with the
double of the one that is asked for, and then a later value is. -/
def AgreesOn (expected : PropertyValue) : List PropertyValue → Prop
  | [] => True
  | first :: later =>
    EqualValue first expected ∨ ((∃ value ∈ later, EqualValue value expected) ↔ SameDouble first expected)

theorem constraint_values (key : Bytes) (expected : PropertyValue) (properties : List Property) :
    matchesPropertyConstraints (AList.singleton key expected) properties = true ↔
      ∃ value ∈ valuesOf key properties, sameValue value expected = true := by
  simp [matchesPropertyConstraints,AList.singleton,valuesOf,and_assoc]

theorem condition_values {bindings : VariableMap} {view : View} {nodeId : NodeId}
    {record : NodeRecord} {properties : List Property} (name key : Bytes) (expected : PropertyValue)
    (bound : bindings name = some (.node nodeId)) (stored : view.node nodeId = some (record,properties)) :
    evaluateBooleanExpression bindings view
        (.comparison (.propertyAccess name key) .equal (.literal expected)) = .ok true ↔
      ∃ value, (valuesOf key properties).head? = some value ∧
        ComparisonOperator.equal.compare value expected = true := by
  have found : (valuesOf key properties).head? =
      (properties.find? fun prop => prop.key == key).map fun prop => fromStorage prop.value := by
    rw [valuesOf,List.head?_map,List.head?_filter]
  rw [found]
  simp only [evaluateBooleanExpression,evaluateExpression,bound,stored,Option.bind_some]
  cases properties.find? fun prop => prop.key == key with
  | none => simp
  | some prop => simp

/-- For values without floating-point numbers, constraint and condition agree on a node if and only if its
values of the name are as they have to be. -/
theorem constraint_agrees {bindings : VariableMap} {view : View} {nodeId : NodeId} {record : NodeRecord}
    {properties : List Property} (name key : Bytes) (expected : PropertyValue)
    (bound : bindings name = some (.node nodeId)) (stored : view.node nodeId = some (record,properties))
    (numbers : ∀ value ∈ valuesOf key properties, ¬IsFloat value) (literal : ¬IsFloat expected) :
    (matchesPropertyConstraints (AList.singleton key expected) properties = true ↔
      evaluateBooleanExpression bindings view
        (.comparison (.propertyAccess name key) .equal (.literal expected)) = .ok true) ↔
      AgreesOn expected (valuesOf key properties) := by
  rw [constraint_values,condition_values name key expected bound stored]
  cases values : valuesOf key properties with
  | nil => simp [AgreesOn]
  | cons first later =>
    rw [values] at numbers
    have one := numbers first List.mem_cons_self
    have others : (∃ value ∈ later, sameValue value expected = true) ↔
        ∃ value ∈ later, EqualValue value expected :=
      exists_congr fun value => and_congr_right fun member =>
        sameValue_equal (numbers value (List.mem_cons_of_mem _ member)) literal
    simp only [List.head?_cons,Option.some.injEq,exists_eq_left',List.exists_mem_cons_iff,
      sameValue_equal one literal,compare_equal one literal,others,AgreesOn]
    by_cases here : EqualValue first expected
    · simp [here]
    · simp [here]

/-- A view of one node with two properties of one name. -/
def repeatedKey : View where
  node _ := some ({},[⟨ascii "p",.integer 1⟩,⟨ascii "p",.integer 2⟩])
  edge _ := none
  outgoingEdges _ := []
  incomingEdges _ := []
  nodeCount := 1

def boundNode : VariableMap := fun _ => some (.node 1)

theorem constraint_agrees_first :
    (matchesPropertyConstraints (AList.singleton (ascii "p") (.integer 1))
        [⟨ascii "p",.integer 1⟩,⟨ascii "p",.integer 2⟩] = true ↔
      evaluateBooleanExpression boundNode repeatedKey
        (.comparison (.propertyAccess (ascii "n") (ascii "p")) .equal (.literal (.integer 1))) = .ok true) ↔
      AgreesOn (.integer 1) (valuesOf (ascii "p") [⟨ascii "p",.integer 1⟩,⟨ascii "p",.integer 2⟩]) :=
  constraint_agrees (ascii "n") (ascii "p") (.integer 1) rfl rfl
    (by decide) (by decide)

/-- The second of two values of a name is found by the constraint alone. -/
theorem second_value_apart :
    ¬(matchesPropertyConstraints (AList.singleton (ascii "p") (.integer 2))
        [⟨ascii "p",.integer 1⟩,⟨ascii "p",.integer 2⟩] = true ↔
      evaluateBooleanExpression boundNode repeatedKey
        (.comparison (.propertyAccess (ascii "n") (ascii "p")) .equal (.literal (.integer 2))) = .ok true) := by
  decide +kernel

end LoreDB.Query.Cypher

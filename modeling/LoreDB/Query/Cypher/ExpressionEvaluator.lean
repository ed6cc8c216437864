import LoreDB.Query.QueryTypes

/-! Values of expressions in one row of bindings. Numbers compare as `double`s, by the model of
binary64 that Lean has for its own floats. -/
namespace LoreDB.Query.Cypher
open LoreDB.Storage

def ascii (text : String) : Bytes := text.toUTF8.data.toList

/-- A text as the message of an error shows it, byte by byte. -/
def shown (text : Bytes) : String := String.ofList (text.map fun byte => Char.ofNat byte.toNat)

def toText (number : Nat) : Bytes := ascii (toString number)

/-- The `%f` form: six decimals, the exact value rounded to the nearest, ties to even. -/
def doubleText (bits : UInt64) : Bytes :=
  let sign := if bits.toNat < 2 ^ 63 then "" else "-"
  match (Float.Model.ofBits bits).unpack with
  | .notANumber => ascii (sign ++ "nan")
  | .infinity _ => ascii (sign ++ "inf")
  | .zero _ => ascii (sign ++ "0.000000")
  | .finite _ mantissa exponent _ =>
    let scaled := mantissa * 10 ^ 6 * 2 ^ exponent.toNat
    let unit := 2 ^ (-exponent).toNat
    let down := scaled / unit
    let rest := scaled % unit
    let rounded := if unit < 2 * rest ∨ 2 * rest = unit ∧ down % 2 = 1 then down + 1 else down
    let decimals := toString (rounded % 10 ^ 6)
    ascii (sign ++ toString (rounded / 10 ^ 6) ++ "." ++
      String.ofList (List.replicate (6 - decimals.length) '0') ++ decimals)

def propertyValueToString : PropertyValue → Bytes
  | .string text => text
  | .integer value => ascii (toString value.toInt)
  | .float bits => doubleText bits
  | .boolean value => ascii (if value then "true" else "false")

/-- A stored value in an expression. -/
def fromStorage : Storage.PropertyValue → PropertyValue
  | .string text => .string text
  | .integer value => .integer value
  | .float bits => .float bits
  | .boolean value => .boolean value
  | .bytes _ => .string (ascii "binary_data")

def toStorage : PropertyValue → Storage.PropertyValue
  | .string text => .string text
  | .integer value => .integer value
  | .float bits => .float bits
  | .boolean value => .boolean value

/-- Integers and floating-point numbers are numeric. -/
def toDouble : PropertyValue → Option Float.Model
  | .integer value => some (Float.Model.ofInt64 value)
  | .float bits => some (Float.Model.ofBits bits)
  | _ => none

def evaluateExpression (bindings : VariableMap) (view : View) :
    Expression → Except Error PropertyValue
  | .literal value => .ok value
  | .identifier name =>
    match bindings name with
    | some (.literal value) => .ok value
    | some (.node id) | some (.edge id) => .ok (.string (toText id.toNat))
    | none => .error ⟨.invalidArgument,"Undefined variable: " ++ shown name⟩
  | .propertyAccess entity property =>
    let value := match bindings entity with
      | some (.node id) =>
        (view.node id).bind fun found => found.2.find? fun (prop : Property) => prop.key == property
      | _ => none
    match value with
    | some prop => .ok (fromStorage prop.value)
    | none =>
      .error ⟨.invalidArgument,"Property not found: " ++ shown entity ++ "." ++ shown property⟩
  | _ => .error ⟨.invalidArgument,"Expression type not implemented"⟩

namespace ComparisonOperator

def compareNumbers (left right : Float.Model) : ComparisonOperator → Bool
  | .equal => left.beq right
  | .notEqual => !left.beq right
  | .lessThan => left.lt right
  | .lessEqual => left.le right
  | .greaterThan => right.lt left
  | .greaterEqual => right.le left

/-- Texts compare as their bytes do. -/
def compareTexts (left right : Bytes) : ComparisonOperator → Bool
  | .equal => left == right
  | .notEqual => left != right
  | .lessThan => left < right
  | .lessEqual => left ≤ right
  | .greaterThan => right < left
  | .greaterEqual => right ≤ left

def compare (left right : PropertyValue) (op : ComparisonOperator) : Bool :=
  match toDouble left, toDouble right with
  | some left, some right => op.compareNumbers left right
  | _, _ => op.compareTexts (propertyValueToString left) (propertyValueToString right)

end ComparisonOperator

/-- A condition whose parts fail is false. Only an expression that is no condition at all is an
error, and only on the outside. -/
def evaluateBooleanExpression (bindings : VariableMap) (view : View) :
    Expression → Except Error Bool
  | .comparison left op right =>
    match evaluateExpression bindings view left, evaluateExpression bindings view right with
    | .ok left, .ok right => .ok (op.compare left right)
    | _, _ => .ok false
  | .logicalAnd left right =>
    match evaluateBooleanExpression bindings view left with
    | .ok true =>
      match evaluateBooleanExpression bindings view right with
      | .ok holds => .ok holds
      | .error _ => .ok false
    | _ => .ok false
  | .logicalOr left right =>
    match evaluateBooleanExpression bindings view left with
    | .ok true => .ok true
    | _ =>
      match evaluateBooleanExpression bindings view right with
      | .ok holds => .ok holds
      | .error _ => .ok false
  | _ => .error ⟨.invalidArgument,"Boolean expression type not implemented"⟩

end LoreDB.Query.Cypher

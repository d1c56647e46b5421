import TrackingPlan.Number.Double
/-!
# Value — JSON values as a document holds them

Members of an object keep their order, and a number written with a fraction or an exponent (`float`) is another value
than one written without (`int`), even where the two are numerically equal.
-/
namespace TrackingPlan

inductive Json where
  | null
  | bool (b : Bool)
  | int (n : Int)
  | float (x : Double)
  | str (s : String)
  | arr (items : List Json)
  | obj (members : List (String × Json))

namespace Json

/-- The name of a value's type, as messages give it. -/
def typeName : Json → String
  | .null => "NoneType"
  | .bool _ => "bool"
  | .int _ => "int"
  | .float _ => "float"
  | .str _ => "str"
  | .arr _ => "list"
  | .obj _ => "dict"

/-- Whether a value counts as given: null, false, the zeros and what is empty do not. -/
def isGiven : Json → Bool
  | .null => false
  | .bool b => b
  | .int n => n != 0
  | .float x => !x.isZero
  | .str s => s != ""
  | .arr xs => !xs.isEmpty
  | .obj ms => !ms.isEmpty

def isScalar : Json → Bool
  | .arr _ | .obj _ => false
  | _ => true

def isObject : Json → Bool
  | .obj _ => true
  | _ => false

def isBool : Json → Bool
  | .bool _ => true
  | _ => false

/-- Whether a value is this text. -/
def isText (s : String) : Json → Bool
  | .str t => t == s
  | _ => false

/-- The first of the values that is given, else the empty text. -/
def firstGiven : List Json → Json
  | v :: vs => if v.isGiven then v else firstGiven vs
  | [] => .str ""

/-- A value for an optional field: kept only when given. -/
def given? (v : Option Json) : Option Json := v.filter isGiven

/-- Two scalars of one type and one value.  The zeros of `float` are one value, and so is what is not a number. -/
def sameScalar : Json → Json → Bool
  | .null, .null => true
  | .bool a, .bool b => a == b
  | .int a, .int b => a == b
  | .float a, .float b => a.sameValue b || (a.isNaN && b.isNaN)
  | .str a, .str b => a == b
  | _, _ => false

end Json
end TrackingPlan

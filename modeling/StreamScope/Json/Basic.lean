import StreamScope.Ascending

/-!
JSON values. A number is an integer, or a decimal kept as its sign, coefficient
and power of ten. The fields of an object ascend by key, and of a
repeated key the last value counts; `Json.ofFields` puts them in that form.
-/

namespace StreamScope

inductive Json.Number where
  | integer (value : Int)
  /-- The number `coefficient * 10 ^ exponent`, negated if `negative`. -/
  | decimal (negative : Bool) (coefficient : Nat) (exponent : Int)
deriving DecidableEq, Repr

inductive Json where
  | null
  | bool (value : Bool)
  | number (value : Json.Number)
  | string (value : String)
  | array (items : List Json)
  | object (fields : List (String × Json))

namespace Json

def sortedFields (fields : List (String × Json)) : List (String × Json) :=
  Ascending.ofList Ascending.byKey fields

def ofFields (fields : List (String × Json)) : Json := .object (sortedFields fields)

def ofNat (n : Nat) : Json := .number (.integer n)

def ofStrings (texts : List String) : Json := .array (texts.map .string)

/-- The value under a key. -/
def lookup? (fields : List (String × Json)) (key : String) : Option Json :=
  (fields.find? fun field => field.1 = key).map (·.2)

end Json
end StreamScope

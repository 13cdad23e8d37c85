import QueryTree.Named
import QueryTree.Decimal.Numeral

/-!
# Json/Basic — JSON values that keep their order

Members of an object stay in the order they were written in, and a number remembers whether it was
written as an integer. An integer is kept as long as it fits a signed or an unsigned 64-bit word;
any other number is the nearest finite double.
-/

namespace QueryTree

/-- A JSON number. The integers are those of signed and of unsigned 64-bit words. -/
inductive Json.Number where
  | int (n : Int) (inRange : -0x8000000000000000 ≤ n ∧ n < 0x10000000000000000)
  | float (x : Float) (finite : x.isFinite = true)

/-- A JSON value. -/
inductive Json where
  | null
  | bool (b : Bool)
  | number (n : Json.Number)
  | string (s : String)
  | array (items : List Json)
  | object (members : List (Named Json))

namespace Json

instance : Inhabited Json := ⟨.null⟩

namespace Number

/-- The double, unless it is infinite or not a number. -/
def ofFloat? (x : Float) : Option Number :=
  if h : x.isFinite = true then some (.float x h) else none

/-- The integer if it fits a 64-bit word, else the nearest double. -/
def ofInt? (n : Int) : Option Number :=
  if h : -0x8000000000000000 ≤ n ∧ n < 0x10000000000000000 then some (.int n h)
  else ofFloat? (Double.ofInt n)

/-- The number a numeral stands for, if it is not beyond all doubles. A negative zero is no integer,
for it would lose its sign. -/
def ofNumeral? (n : Numeral) : Option Number :=
  let magnitude := n.toDecimal.coefficient
  if n.isInteger && !(n.negative && magnitude == 0) then
    ofInt? (if n.negative then -magnitude else magnitude)
  else
    ofFloat? n.toFloat

/-- The number as a double. -/
def toFloat : Number → Float
  | .int n _ => Double.ofInt n
  | .float x _ => x

end Number

/-- What kind of value it is, in the words of messages. -/
def typeName : Json → String
  | .null => "null"
  | .bool _ => "boolean"
  | .number _ => "number"
  | .string _ => "string"
  | .array _ => "array"
  | .object _ => "object"

/-- The members of an object; any other value has none. -/
def members : Json → List (Named Json)
  | .object members => members
  | _ => []

/-- The member of that name. -/
def member? (name : String) (json : Json) : Option Json :=
  Named.find? name json.members

/-- The text of a string value. -/
def string? : Json → Option String
  | .string s => some s
  | _ => none

/-- The truth value of a boolean value. -/
def bool? : Json → Option Bool
  | .bool b => some b
  | _ => none

/-- The items of an array. -/
def items? : Json → Option (List Json)
  | .array items => some items
  | _ => none

/-- Whether the value is an object. -/
def isObject : Json → Bool
  | .object _ => true
  | _ => false

end Json

end QueryTree

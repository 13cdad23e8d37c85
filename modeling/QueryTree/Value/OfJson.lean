import QueryTree.Json.Basic
import QueryTree.Value.Basic

/-!
# Value/OfJson — JSON values as input values

JSON has no enum constants and no variables, so every string becomes a string value. An integer that
fits a signed 64-bit word stays one; any other number becomes the nearest double.
-/

namespace QueryTree.Value

/-- The value of a JSON number. -/
def ofNumber : Json.Number → Value
  | .int n _ => if n < 0x8000000000000000 then .int (Int64.ofInt n) else .float (Double.ofInt n)
  | .float x _ => .float x

mutual

/-- The value of a JSON value. -/
def ofJson : Json → Value
  | .null => .null
  | .bool b => .bool b
  | .number n => ofNumber n
  | .string s => .string s
  | .array items => .list (ofItems items)
  | .object members => .object (ofMembers members)

/-- The values of the items of an array. -/
def ofItems : List Json → List Value
  | [] => []
  | item :: items => ofJson item :: ofItems items

/-- The named values of the members of an object. -/
def ofMembers : List (Named Json) → List (Named Value)
  | [] => []
  | ⟨key, json⟩ :: members => ⟨key, ofJson json⟩ :: ofMembers members

end

theorem ofItems_eq_map (items : List Json) : ofItems items = items.map ofJson := by
  induction items with
  | nil => rfl
  | cons item items ih => rw [ofItems, ih, List.map_cons]

end QueryTree.Value

import QueryTree.Json.Basic
import QueryTree.Decimal.Layout
import QueryTree.Text.Quoted

/-!
# Json/Printer — compact JSON text

Members and items in order, without blanks. Doubles always show that they are not integers: they
have a point or an exponent.
-/

namespace QueryTree.Json

/-- Doubles are written out in full from `10 ^ -5` up to `10 ^ 15`, whole ones with `.0`. -/
def floatLayout : Layout := ⟨-5, 15, true⟩

/-- The text of a number. -/
def Number.text : Number → String
  | .int n _ => n.repr
  | .float x _ => floatLayout.text x

/-- The string literal of a text. -/
def quoted (s : String) : String :=
  (Quoted.writes s).text

mutual

/-- The compact text of a value. -/
def text : Json → String
  | .null => "null"
  | .bool b => if b then "true" else "false"
  | .number n => n.text
  | .string s => quoted s
  | .array items => "[" ++ ",".intercalate (itemTexts items) ++ "]"
  | .object members => r"{" ++ ",".intercalate (memberTexts members) ++ r"}"

/-- The texts of the items of an array. -/
def itemTexts : List Json → List String
  | [] => []
  | item :: items => item.text :: itemTexts items

/-- The texts of the members of an object, each with its key. -/
def memberTexts : List (Named Json) → List String
  | [] => []
  | ⟨key, value⟩ :: members => (quoted key ++ ":" ++ value.text) :: memberTexts members

end

end QueryTree.Json

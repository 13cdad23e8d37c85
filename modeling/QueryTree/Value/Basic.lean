import QueryTree.Named

/-!
# Value/Basic — input values

The values that fields and directives take as arguments: the literals of GraphQL, references to
declared variables, and lists and objects of them. Objects keep their fields in order and may repeat
a name. A value also serves as a flag on a leaf of the query tree, where only its truth counts.
-/

namespace QueryTree

/-- An input value. -/
inductive Value where
  /-- A reference to a declared variable. -/
  | var (name : String)
  /-- An enum constant, by its text. -/
  | enum (text : String)
  | string (text : String)
  | int (n : Int64)
  | float (x : Float)
  | bool (b : Bool)
  | list (items : List Value)
  | object (fields : List (Named Value))
  | null

/-- Named values in the order they are passed. -/
abbrev Arguments := List (Named Value)

namespace Value

instance : Inhabited Value := ⟨.null⟩

/-- Whether a value in a field's place selects the field: `null`, `false`, zero, not-a-number and
the empty string do not. -/
def isTruthy : Value → Bool
  | .null => false
  | .bool b => b
  | .int n => n != 0
  | .float x => x != 0.0 && !x.isNaN
  | .string s => !s.isEmpty
  | .list _ | .object _ | .enum _ | .var _ => true

/-! ## Equality

Values are equal if they have the same shape and equal leaves. Doubles are compared as numbers: the
two zeros are equal, and not-a-number differs from itself. -/

mutual

/-- Whether two values are equal. -/
def beq : Value → Value → Bool
  | .var a, .var b => a == b
  | .enum a, .enum b => a == b
  | .string a, .string b => a == b
  | .int a, .int b => a == b
  | .float a, .float b => a == b
  | .bool a, .bool b => a == b
  | .list as, .list bs => beqItems as bs
  | .object as, .object bs => beqFields as bs
  | .null, .null => true
  | _, _ => false

/-- Whether two lists have equal values in the same places. -/
def beqItems : List Value → List Value → Bool
  | [], [] => true
  | a :: as, b :: bs => a.beq b && beqItems as bs
  | _, _ => false

/-- Whether two lists have the same names and equal values in the same places. -/
def beqFields : List (Named Value) → List (Named Value) → Bool
  | [], [] => true
  | ⟨name, a⟩ :: as, ⟨name', b⟩ :: bs => name == name' && a.beq b && beqFields as bs
  | _, _ => false

end

instance : BEq Value := ⟨beq⟩

end Value

end QueryTree

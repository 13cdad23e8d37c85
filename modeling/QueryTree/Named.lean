/-!
# Named — a name and what stands under it

The members of a JSON object, the fields of an object value, the arguments of a field and the
declared variables of an operation are all ordered lists of `Named` entries. Order is kept and names
may repeat; nothing here is a look-up table.
-/

namespace QueryTree

/-- An entry of an ordered list: a name and the thing it names. -/
structure Named (α : Type) where
  name : String
  value : α
deriving BEq, ReflBEq, LawfulBEq, DecidableEq

namespace Named

variable {α : Type}

/-- What stands under the first entry of that name. -/
def find? (name : String) (entries : List (Named α)) : Option α :=
  (entries.find? (·.name = name)).map (·.value)

theorem find?_cons_self (name : String) (value : α) (rest : List (Named α)) :
    find? name (⟨name, value⟩ :: rest) = some value := by
  simp [find?]

theorem find?_cons_of_ne {name : String} {entry : Named α} (h : entry.name ≠ name)
    (rest : List (Named α)) : find? name (entry :: rest) = find? name rest := by
  simp [find?, h]

end Named

end QueryTree

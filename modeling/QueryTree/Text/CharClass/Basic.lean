/-!
# Text/CharClass/Basic — classes of characters

A class of characters is given by the ranges of codes it spans, each by its first and its last code.
`CharClass.holds` asks whether a character belongs to a class.
-/

namespace QueryTree

/-- A class of characters: closed ranges of codes, the first and the last of each. -/
abbrev CharClass := List (Nat × Nat)

namespace CharClass

/-- Whether a character belongs to the class. -/
def holds (ranges : CharClass) (c : Char) : Bool :=
  ranges.any fun (first, last) => first ≤ c.toNat && c.toNat ≤ last

end CharClass

end QueryTree

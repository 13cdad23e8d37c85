/-!
# Text/Name — GraphQL Names

A Name is a letter or an underscore followed by letters, digits and underscores, all of them ASCII:
`[_A-Za-z][_0-9A-Za-z]*`.
-/

namespace QueryTree.Name

/-- Whether a Name may begin with the character. -/
def isStart (c : Char) : Bool :=
  c.isAlpha || c == '_'

/-- Whether a Name may go on with the character. -/
def isRest (c : Char) : Bool :=
  c.isAlphanum || c == '_'

/-- Whether a text is a Name. -/
def isName (s : String) : Bool :=
  match s.toList with
  | [] => false
  | c :: rest => isStart c && rest.all isRest

/-- The longest run of Name characters, and what follows it. -/
def scan (cs : List Char) : List Char × List Char :=
  (cs.takeWhile isRest, cs.dropWhile isRest)

theorem length_scan_le (cs : List Char) : (scan cs).2.length ≤ cs.length :=
  (List.dropWhile_sublist isRest).length_le

end QueryTree.Name

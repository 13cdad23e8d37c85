import QueryTree.Json.Basic

/-!
# Options — how a query is compiled

Options say whether the text is spread over indented lines and which field names are left out. They
can be read from JSON: an object with the members `pretty` and `ignoreFields`, or an array of the
two in that order. What is missing keeps its default; what is there must have the right type.
-/

namespace QueryTree

/-- How a query is compiled. -/
structure Options where
  /-- One line for each field, indented, instead of a single line. -/
  pretty : Bool := false
  /-- The names of fields that are selected nowhere. -/
  ignored : List String := []
deriving DecidableEq

namespace Options

/-- The texts of an array of strings. -/
def namesOfJson? (json : Json) : Option (List String) :=
  json.items?.bind (·.mapM Json.string?)

/-- What a value is read as, or the default where there is none. -/
def orDefault {α : Type} (default : α) (read : Json → Option α) : Option Json → Option α
  | none => some default
  | some json => read json

/-- Options from the values of `pretty` and `ignoreFields`, where present. -/
def ofParts? (pretty ignored : Option Json) : Option Options := do
  return {
    pretty := ← orDefault false Json.bool? pretty
    ignored := ← orDefault [] namesOfJson? ignored }

/-- Options from JSON. Other members of an object do not matter, further items of an array do. -/
def ofJson? : Json → Option Options
  | .object members =>
    ofParts? (Named.find? "pretty" members) (Named.find? "ignoreFields" members)
  | .array [] => some {}
  | .array [pretty] => ofParts? (some pretty) none
  | .array [pretty, ignored] => ofParts? (some pretty) (some ignored)
  | _ => none

end Options

end QueryTree

import QueryTree.Error.Report
import QueryTree.Json.Printer

/-!
# Error/Fault — what can go wrong

One constructor for each cause, with the data that tells where it is. The wording is all in
`Fault.report`.
-/

namespace QueryTree

/-- The cause of a failure. -/
inductive Fault where
  /-- The query is not a JSON object. -/
  | notAnObject
  /-- The query is an object without members, or a root that holds nothing. -/
  | noData
  /-- A field has more than one directive. -/
  | tooManyDirectives (field : String) (count : Nat)
  /-- The one directive of a field is neither a boolean nor an object. -/
  | unsupportedDirective (directive : Named Json)
  /-- Something other than an object stands in a list of fragments. -/
  | fragmentNotAnObject (found : Json)
  /-- A fragment does not say by a string which type it is for. -/
  | unnamedFragment
  /-- A text did not fit the place it was written to. -/
  | sinkFull

namespace Fault

/-- The failure in words. -/
def report : Fault → Report
  | notAnObject => { kind := .invalidInput, message := "query object not specified" }
  | noData => { kind := .invalidInput, message := "query object has no data" }
  | tooManyDirectives field count =>
    { kind := .tooManyDirectives
      message := "Too many directives. The field '" ++ field ++ "' had " ++ count.repr
        ++ " directives, but only 1 directive per field is supported." }
  | unsupportedDirective directive =>
    { kind := .unsupportedDirectiveValue
      message := "Unsupported type for directive: " ++ directive.value.typeName
        ++ ". Types allowed: object, boolean."
      context := some ("Offending object: " ++ (Json.object [directive]).text) }
  | fragmentNotAnObject found =>
    { kind := .invalidInput
      message := "Inline fragments must be objects, got: " ++ found.typeName }
  | unnamedFragment =>
    { kind := .invalidInput, message := "Inline fragments require a __fragmentName string" }
  | sinkFull => { kind := .serialization, message := "Failed to write query output" }

end Fault

end QueryTree

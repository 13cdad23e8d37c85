/-!
# Error/Report — how a failure is told

A report has a kind, a message, and sometimes a second text that shows what was at fault. It is
printed in three lengths: `summary`, `text` with the context below it, and `framed` by line ends.
-/

namespace QueryTree

/-- The kinds of failure. -/
inductive Report.Kind where
  /-- The query itself is malformed or holds nothing. -/
  | invalidInput
  /-- A field has more than one directive. -/
  | tooManyDirectives
  /-- The value of a directive is of the wrong type. -/
  | unsupportedDirectiveValue
  /-- A text could not be written. -/
  | serialization
deriving DecidableEq

/-- A failure in words. -/
structure Report where
  kind : Report.Kind
  message : String
  context : Option String := none
deriving DecidableEq

namespace Report

/-- The words before the message. Both kinds of directive failure share theirs. -/
def Kind.heading : Kind → String
  | .invalidInput => "Invalid Input"
  | .tooManyDirectives | .unsupportedDirectiveValue => "Directive Error"
  | .serialization => "Serialization Error"

/-- The heading and the message. -/
def summary (r : Report) : String :=
  r.kind.heading ++ ": " ++ r.message

/-- The summary and, on lines below it, the context if there is one. -/
def text (r : Report) : String :=
  match r.context with
  | none => r.summary
  | some context => r.summary ++ "\n" ++ context

/-- The text with a line end before and after it. -/
def framed (r : Report) : String :=
  "\n" ++ r.text ++ "\n"

end Report

end QueryTree

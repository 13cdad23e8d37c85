import QueryTree.Value.Printer

/-!
# Node/Head — what stands on a field's own line

Besides its selection, a field may carry aliases, arguments, variable declarations and a directive.
They are its head: all that is printed of it before the opening brace. `Head.token` is that text.
-/

namespace QueryTree

/-- Declared variables and their types, in order. Types are texts, written as they are. -/
abbrev Variables := List (Named String)

/-- An annotation of a field. Without arguments, it is its bare name. -/
structure Directive where
  name : String
  arguments : Option Arguments := none

/-- The data of a field that is printed on its own line. -/
structure Head where
  arguments : Option Arguments := none
  /-- A name put before the whole field. -/
  aliasName : Option String := none
  /-- The field that is meant, if the name of the node is an alias for it. -/
  aliasFor : Option String := none
  /-- The variables that the field, an operation, declares. -/
  declared : Option Variables := none
  directive : Option Directive := none

namespace Variables

/-- The writes of one declaration. -/
def entryWrites (declaration : Named String) : Writes :=
  ["$", declaration.name, ": ", declaration.value]

/-- The writes of declarations, without parentheses around them. -/
def writes (declarations : Variables) : Writes :=
  Writes.commaSeparated (declarations.map entryWrites)

/-- Prints one declaration. -/
def entryTo (declaration : Named String) : Printer := fun sink => do
  let sink ← sink.write "$"
  let sink ← sink.write declaration.name
  let sink ← sink.write ": "
  sink.write declaration.value

/-- Prints declarations, without parentheses around them. -/
def printTo (declarations : Variables) : Printer :=
  Printer.separated true (declarations.map entryTo)

end Variables

namespace Directive

instance : BEq Directive := ⟨fun a b => a.name == b.name && a.arguments == b.arguments⟩

/-- The writes of one argument of a directive. All quotes are dropped from the text of its value. -/
def entryWrites (argument : Named Value) : Writes :=
  [argument.name, ": ", String.ofList (argument.value.text.toList.filter (· ≠ '"'))]

/-- The writes of a directive, without its `@`. -/
def writes (directive : Directive) : Writes :=
  match directive.arguments with
  | none => [directive.name]
  | some arguments =>
    directive.name :: "(" :: Writes.commaSeparated (arguments.map entryWrites) ++ [")"]

/-- Prints the arguments of a directive. Each value is printed to a buffer first, which is cleared
for it, and goes to the sink from there without its quotes. -/
def argumentsTo : (first : Bool) → Arguments → (buffer : Sink) → Printer
  | _, [], _, sink => return sink
  | first, argument :: arguments, buffer, sink => do
    let sink ← if first then pure sink else sink.write ", "
    let buffer ← (argument.value.printTo buffer.clear).mapError fun _ => sink
    let sink ← sink.write argument.name
    let sink ← sink.write ": "
    let sink ← sink.write (String.ofList (buffer.kept.toList.filter (· ≠ '"')))
    argumentsTo false arguments buffer sink

/-- Prints a directive, without its `@`. -/
def printTo (directive : Directive) : Printer := fun sink => do
  let sink ← sink.write directive.name
  match directive.arguments with
  | none => return sink
  | some arguments =>
    let sink ← sink.write "("
    let sink ← argumentsTo true arguments {} sink
    sink.write ")"

end Directive

namespace Head

instance : BEq Head := ⟨fun a b =>
  a.arguments == b.arguments && a.aliasName == b.aliasName && a.aliasFor == b.aliasFor
    && a.declared == b.declared && a.directive == b.directive⟩

/-- Whether the head holds nothing. Empty lists of arguments or variables are something. -/
def isEmpty (head : Head) : Bool :=
  head.arguments.isNone && head.aliasName.isNone && head.aliasFor.isNone
    && head.declared.isNone && head.directive.isNone

/-- A text in parentheses, behind a blank. -/
def parenthesized (writes : Writes) : String :=
  " (" ++ writes.text ++ ")"

/-- What follows the name of the field: its declared variables, or else its directive and its
arguments. -/
def attachment (head : Head) : String :=
  match head.declared with
  | some declarations => parenthesized declarations.writes
  | none =>
    (match head.directive with
      | none => ""
      | some directive => " @" ++ directive.writes.text)
    ++ (match head.arguments with
      | none => ""
      | some arguments => parenthesized arguments.writes)

/-- The text of a field of that name up to its selection. -/
def token (head : Head) (name : String) : String :=
  (match head.aliasName with
    | none => ""
    | some aliasName => aliasName ++ ": ")
  ++ name
  ++ (match head.aliasFor with
    | none => ""
    | some field => ": " ++ field)
  ++ head.attachment

end Head

end QueryTree

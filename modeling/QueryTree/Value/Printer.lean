import QueryTree.Decimal.Layout
import QueryTree.Text.Quoted
import QueryTree.Value.Basic

/-!
# Value/Printer — the text of values

Values are printed as literals of GraphQL: strings quoted, object keys and enum constants bare,
variables behind a `$`. For each printer there are its writes in order (`Text/Writes`) and the
printer itself, as it runs against a sink (`Text/Sink`).
-/

namespace QueryTree

namespace Value

/-- Doubles are written out in full from `10 ^ -6` up to `10 ^ 20`, whole ones without a point. -/
def floatLayout : Layout := ⟨-6, 20, false⟩

/-- The text of a double. Zero has no sign, and what is not finite has no literal. -/
def floatText (x : Float) : String :=
  if !x.isFinite then "null"
  else if x == 0.0 then "0"
  else floatLayout.text x

mutual

/-- The writes of a value. -/
def writes : Value → Writes
  | .var name => ["$", name]
  | .enum text => [text]
  | .string text => Quoted.writes text
  | .int n => [n.toInt.repr]
  | .float x => [floatText x]
  | .bool b => [if b then "true" else "false"]
  | .list items => "[" :: Writes.commaSeparated (itemWrites items) ++ ["]"]
  | .object fields => r"{" :: Writes.commaSeparated (fieldWrites fields) ++ [r"}"]
  | .null => ["null"]

/-- The writes of each value of a list. -/
def itemWrites : List Value → List Writes
  | [] => []
  | item :: items => item.writes :: itemWrites items

/-- The writes of each named value of a list: the name, a colon and a blank, the value. -/
def fieldWrites : List (Named Value) → List Writes
  | [] => []
  | ⟨name, value⟩ :: fields => (name :: ": " :: value.writes) :: fieldWrites fields

end

/-- The text of a value. -/
def text (v : Value) : String :=
  v.writes.text

mutual

/-- Prints a value. -/
def printTo : Value → Printer
  | .var name, sink => do
    let sink ← sink.write "$"
    sink.write name
  | .enum text, sink => sink.write text
  | .string text, sink => Quoted.printTo text sink
  | .int n, sink => sink.write n.toInt.repr
  | .float x, sink => sink.write (floatText x)
  | .bool b, sink => sink.write (if b then "true" else "false")
  | .list items, sink => do
    let sink ← sink.write "["
    let sink ← Printer.separated true (itemPrinters items) sink
    sink.write "]"
  | .object fields, sink => do
    let sink ← sink.write r"{"
    let sink ← Printer.separated true (fieldPrinters fields) sink
    sink.write r"}"
  | .null, sink => sink.write "null"

/-- The printers of the values of a list. -/
def itemPrinters : List Value → List Printer
  | [] => []
  | item :: items => item.printTo :: itemPrinters items

/-- The printers of the named values of a list. -/
def fieldPrinters : List (Named Value) → List Printer
  | [] => []
  | ⟨name, value⟩ :: fields =>
    (fun sink => do
      let sink ← sink.write name
      let sink ← sink.write ": "
      value.printTo sink) :: fieldPrinters fields

end

theorem itemWrites_eq_map (items : List Value) : itemWrites items = items.map writes := by
  induction items with
  | nil => rfl
  | cons item items ih => rw [itemWrites, ih, List.map_cons]

end Value

namespace Arguments

/-- The writes of one argument. A field of an object is written the same way. -/
def entryWrites (argument : Named Value) : Writes :=
  argument.name :: ": " :: argument.value.writes

/-- The writes of arguments, without parentheses around them. -/
def writes (arguments : Arguments) : Writes :=
  Writes.commaSeparated (Value.fieldWrites arguments)

/-- Prints one argument. -/
def entryTo (argument : Named Value) : Printer := fun sink => do
  let sink ← sink.write argument.name
  let sink ← sink.write ": "
  argument.value.printTo sink

/-- Prints arguments, without parentheses around them. -/
def printTo (arguments : Arguments) : Printer :=
  Printer.separated true (arguments.map entryTo)

theorem fieldWrites_eq_map (arguments : Arguments) :
    Value.fieldWrites arguments = arguments.map entryWrites := by
  induction arguments with
  | nil => rfl
  | cons argument arguments ih => rw [Value.fieldWrites, ih, List.map_cons, entryWrites]

end Arguments

end QueryTree

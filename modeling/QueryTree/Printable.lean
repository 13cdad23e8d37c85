import QueryTree.Error.Fault
import QueryTree.Node.Head

/-!
# Printable — everything that can be printed by itself

Values and the lists that are attached to fields, and the parts of both, have a text of their own.
`Printable.writes` gives it as the writes that make it up. `Printable.printTo` is the printer, run
against a buffer (`Printable.print`) or against a sink with limited room (`Printable.printWithin`).
-/

namespace QueryTree

/-- A thing with a text of its own. -/
inductive Printable where
  | value (value : Value)
  /-- A reference to a variable. -/
  | var (name : String)
  | enum (text : String)
  | list (items : List Value)
  | object (fields : List (Named Value))
  | objectField (field : Named Value)
  | argument (argument : Named Value)
  | arguments (arguments : Arguments)
  | declaration (declaration : Named String)
  | declarations (declarations : Variables)
  | directive (directive : Directive)

namespace Printable

/-- The writes of a printable thing. -/
def writes : Printable → Writes
  | .value v => v.writes
  | .var name => (Value.var name).writes
  | .enum constant => (Value.enum constant).writes
  | .list vs => (Value.list vs).writes
  | .object fs => (Value.object fs).writes
  | .objectField f => Arguments.entryWrites f
  | .argument a => Arguments.entryWrites a
  | .arguments as => Arguments.writes as
  | .declaration d => Variables.entryWrites d
  | .declarations ds => Variables.writes ds
  | .directive d => d.writes

/-- The text of a printable thing. -/
def text (p : Printable) : String :=
  p.writes.text

/-- Prints a printable thing. -/
def printTo : Printable → Printer
  | .value v => v.printTo
  | .var name => (Value.var name).printTo
  | .enum constant => (Value.enum constant).printTo
  | .list vs => (Value.list vs).printTo
  | .object fs => (Value.object fs).printTo
  | .objectField f => Arguments.entryTo f
  | .argument a => Arguments.entryTo a
  | .arguments as => Arguments.printTo as
  | .declaration d => Variables.entryTo d
  | .declarations ds => Variables.printTo ds
  | .directive d => d.printTo

/-- What a buffer holds after the printing. It would be nothing after a failure. -/
def print (p : Printable) : String :=
  match p.printTo {} with
  | .ok sink => sink.kept
  | .error _ => ""

/-- What a sink with that much room holds after the printing, and whether all of it was kept. -/
def printWithin (room : Nat) (p : Printable) : String × Except Fault Unit :=
  match p.printTo { room := some room } with
  | .ok sink => (sink.kept, .ok ())
  | .error sink => (sink.kept, .error .sinkFull)

end Printable

end QueryTree

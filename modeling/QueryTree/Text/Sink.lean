import QueryTree.Text.Writes

/-!
# Text/Sink — a place for text that can run full

A sink has room for a number of characters, or for any number. A write that fits is kept whole; one
that does not is kept as far as it fits and fails. A sink also remembers what it has been asked to
write, so that it shows if anything is asked of it after a failure.

A printer (`Printer`) runs against a sink: each of its steps takes the sink that the step before it
has left, and the first failure ends the printing. `Printer.separated` is the loop in which all
lists are printed.
-/

namespace QueryTree

/-- A text under construction. -/
structure Sink where
  /-- The number of characters that may still be added. A buffer that grows has no such bound. -/
  room : Option Nat := none
  kept : String := ""
  /-- The texts it was asked to add, in order, with the one that failed. -/
  asked : Writes := []

namespace Sink

/-- Adds a text. A failure carries the sink as it was left: full, with the part that fitted. -/
def write (sink : Sink) (text : String) : Except Sink Sink :=
  match sink.room with
  | none => .ok ⟨none, sink.kept ++ text, sink.asked ++ [text]⟩
  | some room =>
    if text.length ≤ room then
      .ok ⟨some (room - text.length), sink.kept ++ text, sink.asked ++ [text]⟩
    else
      .error ⟨some 0, sink.kept ++ String.ofList (text.toList.take room), sink.asked ++ [text]⟩

/-- The sink without the text it kept. -/
def clear (sink : Sink) : Sink :=
  { sink with kept := "" }

end Sink

/-- What prints to a sink. A failure carries the sink as the write that failed has left it. -/
abbrev Printer := Sink → Except Sink Sink

namespace Printer

/-- Prints in order, with a comma and a blank between neighbours. The flag says whether the next one
is the first. -/
def separated : (first : Bool) → List Printer → Printer
  | _, [], sink => return sink
  | first, print :: prints, sink => do
    let sink ← if first then pure sink else sink.write ", "
    let sink ← print sink
    separated false prints sink

end Printer

end QueryTree

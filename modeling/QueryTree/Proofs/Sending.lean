import Mathlib.Data.List.Forall2
import QueryTree.Printable

/-!
# Proofs/Sending — what the printers send

A printer runs against a sink, step by step, and each step may be the one that fails. Whatever the
sink, it does what its writes in order do (`Printer.Sends`): it sends them up to the first that
fails, and nothing after. A step followed by a printer keeps to this, and so does the loop of the
separated lists, so every printer does (`Printable.sends`).

A directive is the one printer with a sink of its own, to which it prints a value before it drops
the quotes. That buffer has no bound, and clearing it forgets what other values have left there.
-/

namespace QueryTree

/-! ## Writes in a row -/

namespace Sink

/-- Adds texts in order, up to the first one that fails. -/
def writeAll (sink : Sink) (writes : Writes) : Except Sink Sink :=
  writes.foldlM write sink

theorem writeAll_nil (sink : Sink) : sink.writeAll [] = .ok sink :=
  rfl

theorem writeAll_cons (sink : Sink) (first : String) (rest : Writes) :
    sink.writeAll (first :: rest) = (sink.write first).bind (·.writeAll rest) :=
  rfl

/-- Texts behind others are added to the sink that those have left, if none of them failed. -/
theorem writeAll_append (sink : Sink) (before after : Writes) :
    sink.writeAll (before ++ after) = (sink.writeAll before).bind (·.writeAll after) :=
  List.foldlM_append

/-- A text that fits is kept. In a buffer, every text does. -/
theorem write_of_fits : ∀ {sink : Sink} {text : String},
    (∀ room ∈ sink.room, text.length ≤ room) → sink.write text
      = .ok ⟨sink.room.map (· - text.length), sink.kept ++ text, sink.asked ++ [text]⟩
  | ⟨none, _, _⟩, _, _ => rfl
  | ⟨some room, _, _⟩, _, h => if_pos (h room rfl)

/-- **Texts that fit together are kept**, behind what the sink holds. -/
theorem writeAll_of_fits : ∀ {writes : Writes} {sink : Sink},
    (∀ room ∈ sink.room, writes.text.length ≤ room) → sink.writeAll writes
      = .ok ⟨sink.room.map (· - writes.text.length), sink.kept ++ writes.text,
        sink.asked ++ writes⟩
  | [], ⟨room, kept, asked⟩, _ => by
      rw [writeAll_nil]
      simp [Writes.text]
  | first :: rest, sink, h => by
      rw [Writes.text_cons, String.length_append] at h
      have hfirst : ∀ room ∈ sink.room, first.length ≤ room := fun room hroom =>
        Nat.le_trans (Nat.le_add_right _ _) (h room hroom)
      have hrest : ∀ room ∈ sink.room.map (· - first.length),
          (Writes.text rest).length ≤ room := by
        intro left hleft
        obtain ⟨room, hroom, rfl⟩ := Option.map_eq_some_iff.1 hleft
        have := h room hroom
        omega
      rw [writeAll_cons, write_of_fits hfirst, Except.bind, writeAll_of_fits hrest, Option.map_map,
        Writes.text_cons, String.length_append, String.append_assoc, List.append_assoc]
      simp only [Function.comp_def, Nat.sub_sub, List.singleton_append]

end Sink

/-! ## Printers -/

namespace Printer

/-- The printer sends these writes: to any sink, up to the first that fails. -/
def Sends (print : Printer) (writes : Writes) : Prop :=
  ∀ sink, print sink = sink.writeAll writes

namespace Sends

variable {print rest : Printer} {writes after : Writes}

theorem nothing : Sends .ok [] :=
  Sink.writeAll_nil

/-- One write is a printer that sends it. -/
theorem write (text : String) : Sends (·.write text) [text] := fun sink => by
  show sink.write text = (sink.write text).bind .ok
  cases sink.write text <;> rfl

/-- **One printer after another**: a failure of the first is all there is. -/
theorem append (h : Sends print writes) (hrest : Sends rest after) :
    Sends (fun sink => print sink >>= rest) (writes ++ after) := fun sink => by
  rw [Sink.writeAll_append, ← h sink, ← funext hrest]
  rfl

/-- One write, and then a printer. -/
theorem cons (text : String) (hrest : Sends rest after) :
    Sends (fun sink => sink.write text >>= rest) (text :: after) :=
  (write text).append hrest

end Sends

/-! ### The loop -/

/-- The rounds of the loop after the first begin with the separator. -/
theorem separated_false_sends {prints : List Printer} {parts : List Writes}
    (h : List.Forall₂ Sends prints parts) :
    Sends (separated false prints) (parts.flatMap (", " :: ·)) := by
  induction h with
  | nil => exact .nothing
  | cons hprint _ ih =>
    rw [List.flatMap_cons, List.cons_append]
    exact .cons ", " (hprint.append ih)

/-- **The loop sends its parts with the separator between them**, if each round sends its part. -/
theorem separated_sends {prints : List Printer} {parts : List Writes}
    (h : List.Forall₂ Sends prints parts) :
    Sends (separated true prints) (Writes.commaSeparated parts) := by
  cases h with
  | nil => exact .nothing
  | cons hprint hprints =>
    rw [Writes.commaSeparated, intercalate_cons]
    exact hprint.append (separated_false_sends hprints)

/-- The loop over a list whose members are printed by one printer. -/
theorem separated_map_sends {α : Type} {print : α → Printer} {writes : α → Writes}
    (h : ∀ x, Sends (print x) (writes x)) (xs : List α) :
    Sends (separated true (xs.map print)) (Writes.commaSeparated (xs.map writes)) :=
  separated_sends <| List.forall₂_map_left_iff.2 <| List.forall₂_map_right_iff.2 <|
    List.forall₂_same.2 fun x _ => h x

end Printer

open Printer (Sends)

/-! ## Literals -/

namespace Quoted

theorem charsTo_sends : ∀ cs : List Char, Sends (charsTo cs) (cs.map escape)
  | [] => .nothing
  | c :: cs => .cons (escape c) (charsTo_sends cs)

/-- A literal is sent quote by quote and character by character. -/
theorem sends (s : String) : Sends (printTo s) (writes s) :=
  .cons "\"" ((charsTo_sends s.toList).append (.write "\""))

end Quoted

/-! ## Values -/

namespace Value

mutual

/-- **The printer of a value sends the writes of the value.** -/
theorem sends : ∀ v : Value, Sends v.printTo v.writes
  | .var name => .cons "$" (.write name)
  | .enum text => .write text
  | .string text => Quoted.sends text
  | .int n => .write n.toInt.repr
  | .float x => .write (floatText x)
  | .bool b => .write (if b then "true" else "false")
  | .list items =>
      .cons "[" ((Printer.separated_sends (itemPrinters_sends items)).append (.write "]"))
  | .object fields =>
      .cons r"{" ((Printer.separated_sends (fieldPrinters_sends fields)).append (.write r"}"))
  | .null => .write "null"

/-- The printers of the items send the writes of the items, one by one. -/
theorem itemPrinters_sends : ∀ items : List Value,
    List.Forall₂ Sends (itemPrinters items) (itemWrites items)
  | [] => .nil
  | item :: items => .cons (sends item) (itemPrinters_sends items)

theorem fieldPrinters_sends : ∀ fields : List (Named Value),
    List.Forall₂ Sends (fieldPrinters fields) (fieldWrites fields)
  | [] => .nil
  | ⟨name, value⟩ :: fields =>
      .cons (.cons name (.cons ": " (sends value))) (fieldPrinters_sends fields)

end

end Value

/-! ## What is attached to fields -/

namespace Arguments

/-- An argument is sent as its name, the colon and its value, which has writes of its own. -/
theorem entryTo_sends (argument : Named Value) : Sends (entryTo argument) (entryWrites argument) :=
  .cons argument.name (.cons ": " argument.value.sends)

theorem sends (arguments : Arguments) : Sends (printTo arguments) (writes arguments) := by
  rw [writes, fieldWrites_eq_map]
  exact Printer.separated_map_sends entryTo_sends arguments

end Arguments

namespace Variables

theorem entryTo_sends (declaration : Named String) :
    Sends (entryTo declaration) (entryWrites declaration) :=
  .cons "$" (.cons declaration.name (.cons ": " (.write declaration.value)))

theorem sends (declarations : Variables) : Sends (printTo declarations) (writes declarations) :=
  Printer.separated_map_sends entryTo_sends declarations

end Variables

namespace Directive

/-- **A cleared buffer holds the text of the value printed to it**, and has no bound still. -/
theorem printTo_clear {buffer : Sink} (h : buffer.room = none) (v : Value) :
    ∃ filled : Sink, v.printTo buffer.clear = .ok filled
      ∧ filled.room = none ∧ filled.kept = v.text := by
  have hclear : buffer.clear.room = none := h
  have hfits : ∀ room ∈ buffer.clear.room, v.writes.text.length ≤ room := by
    rw [hclear]
    exact nofun
  refine ⟨_, (v.sends buffer.clear).trans (Sink.writeAll_of_fits hfits), ?_, ?_⟩
  · exact congrArg (Option.map _) hclear
  · exact String.empty_append

/-- **One round of the loop**: the value goes through the buffer, and the entry to the sink. -/
theorem argumentsTo_cons {buffer : Sink} (h : buffer.room = none) (argument : Named Value)
    (arguments : Arguments) : ∃ filled : Sink, filled.room = none
      ∧ ∀ first sink, argumentsTo first (argument :: arguments) buffer sink = (do
        let sink ← if first then pure sink else sink.write ", "
        let sink ← sink.write argument.name
        let sink ← sink.write ": "
        let sink ← sink.write (String.ofList (argument.value.text.toList.filter (· ≠ '"')))
        argumentsTo false arguments filled sink) := by
  obtain ⟨filled, hfilled, hroom, hkept⟩ := printTo_clear h argument.value
  refine ⟨filled, hroom, fun first sink => ?_⟩
  rw [argumentsTo, hfilled, ← hkept]
  rfl

/-- The rounds after the first. The invariant is that the buffer has no bound. -/
theorem argumentsTo_false_sends : ∀ (arguments : Arguments) {buffer : Sink}, buffer.room = none →
    Sends (argumentsTo false arguments buffer)
      ((arguments.map entryWrites).flatMap (", " :: ·))
  | [], _, _ => .nothing
  | argument :: arguments, _, h => by
      obtain ⟨filled, hroom, hround⟩ := argumentsTo_cons h argument arguments
      have hrest := argumentsTo_false_sends arguments hroom
      rw [funext (hround false)]
      exact .cons ", " (.cons argument.name (.cons ": " (.cons _ hrest)))

/-- **The loop of a directive sends what a loop without a buffer would**: its first buffer is empty.
-/
theorem argumentsTo_sends (arguments : Arguments) : Sends (argumentsTo true arguments {})
    (Writes.commaSeparated (arguments.map entryWrites)) := by
  cases arguments with
  | nil => exact .nothing
  | cons argument arguments =>
    have hempty : Sink.room {} = none := rfl
    obtain ⟨filled, hroom, hround⟩ := argumentsTo_cons hempty argument arguments
    have hrest := argumentsTo_false_sends arguments hroom
    rw [funext (hround true), List.map_cons, Writes.commaSeparated, intercalate_cons]
    exact .cons argument.name (.cons ": " (.cons _ hrest))

theorem sends : ∀ directive : Directive, Sends directive.printTo directive.writes
  | ⟨name, none⟩ => .cons name .nothing
  | ⟨name, some arguments⟩ =>
      .cons name (.cons "(" ((argumentsTo_sends arguments).append (.write ")")))

end Directive

namespace Printable

/-- **Every printer stops at its first failure**, and sends its writes up to there. -/
theorem sends : ∀ p : Printable, Sends p.printTo p.writes
  | .value v => v.sends
  | .var name => (Value.var name).sends
  | .enum constant => (Value.enum constant).sends
  | .list vs => (Value.list vs).sends
  | .object fs => (Value.object fs).sends
  | .objectField f => Arguments.entryTo_sends f
  | .argument a => Arguments.entryTo_sends a
  | .arguments as => Arguments.sends as
  | .declaration d => Variables.entryTo_sends d
  | .declarations ds => Variables.sends ds
  | .directive d => d.sends

/-- **Printing to a buffer does not fail**, and gives the text. -/
theorem print_eq_text (p : Printable) : p.print = p.text := by
  have hfits : ∀ room ∈ ({} : Sink).room, p.writes.text.length ≤ room := nofun
  rw [print, p.sends, Sink.writeAll_of_fits hfits]
  exact String.empty_append

end Printable

end QueryTree

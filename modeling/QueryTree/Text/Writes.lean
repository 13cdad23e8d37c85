/-!
# Text/Writes — a text as the writes that make it up

The texts that a printer writes, in order: their concatenation is what it prints. A printer that
runs against a place with limited room (`Text/Sink`) sends just these, up to the first that fails
(`Proofs/Sending`).
-/

namespace QueryTree

/-- A joined list is its first part, and the others behind a separator each. -/
theorem intercalate_cons {α : Type} (sep x : List α) (xs : List (List α)) :
    sep.intercalate (x :: xs) = x ++ xs.flatMap (sep ++ ·) := by
  induction xs generalizing x with
  | nil => simp
  | cons y xs ih =>
    rw [List.intercalate_cons_cons, ih, List.flatMap_cons, List.append_assoc, List.append_assoc]

/-- The texts a printer writes, one after another. -/
abbrev Writes := List String

namespace Writes

/-- All of the writes, joined. -/
def text (writes : Writes) : String :=
  String.join writes

/-- The characters of writes are those of each in order. -/
theorem toList_text (writes : Writes) : writes.text.toList = writes.flatMap String.toList :=
  String.toList_join

theorem text_singleton (s : String) : text [s] = s :=
  String.join_cons.trans String.append_empty

theorem text_cons (first : String) (rest : Writes) : text (first :: rest) = first ++ text rest :=
  String.join_cons

theorem text_append (writes writes' : Writes) :
    text (writes ++ writes') = text writes ++ text writes' :=
  String.join_append

/-- The parts in order, with a comma and a blank between neighbours. -/
def commaSeparated (parts : List Writes) : Writes :=
  List.intercalate [", "] parts

end Writes

end QueryTree

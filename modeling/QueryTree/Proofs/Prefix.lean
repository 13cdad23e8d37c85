import QueryTree.Proofs.Sending

/-!
# Proofs/Prefix — what a sink without enough room keeps

A printer sends its text in many small writes, and the first one that does not fit ends the
printing. Wherever that happens, inside of an escape or between two items, the sink is left with the
text up to its room and nothing else, and nothing more is asked of it (`printWithin_eq_take`).
-/

namespace QueryTree

namespace Sink

/-- A text that does not fit fails, and its beginning is kept. -/
theorem write_of_lt {room : Nat} {kept : String} {asked : Writes} {text : String}
    (h : room < text.length) : write ⟨some room, kept, asked⟩ text
      = .error ⟨some 0, kept ++ String.ofList (text.toList.take room), asked ++ [text]⟩ :=
  if_neg (Nat.not_le.2 h)

/-- The first of the writes that does not fit: those before it do. -/
structure FirstTooLong (room : Nat) (writes before : Writes) (failing : String) : Prop where
  leads : ∃ after, writes = before ++ failing :: after
  fits : before.text.length ≤ room
  tooLong : room < before.text.length + failing.length

/-- Of writes that do not fit together, one is the first that does not. -/
theorem exists_firstTooLong : ∀ {writes : Writes} {room : Nat}, room < writes.text.length →
    ∃ before failing, FirstTooLong room writes before failing
  | [], _, h => absurd h (Nat.not_lt_zero _)
  | first :: rest, room, h => by
      rw [Writes.text_cons, String.length_append] at h
      by_cases hfirst : first.length ≤ room
      · have hrest : room - first.length < (Writes.text rest).length := by omega
        obtain ⟨before, failing, ⟨after, hafter⟩, hfits, htoo⟩ := exists_firstTooLong hrest
        refine ⟨first :: before, failing, ⟨after, congrArg (first :: ·) hafter⟩, ?_, ?_⟩
        all_goals
          rw [Writes.text_cons, String.length_append]
          omega
      · refine ⟨[], first, ⟨rest, rfl⟩, Nat.zero_le _, ?_⟩
        exact Nat.lt_of_lt_of_le (Nat.not_le.1 hfirst) (Nat.le_add_left _ _)

namespace FirstTooLong

variable {room : Nat} {writes before : Writes} {failing : String}

/-- The first characters of all writes are those before the failing one, and some of its own. -/
theorem take_text (h : FirstTooLong room writes before failing) : writes.text.toList.take room
    = before.text.toList ++ failing.toList.take (room - before.text.length) := by
  obtain ⟨⟨after, rfl⟩, hfits, htoo⟩ := h
  have hbefore : before.text.toList.length ≤ room := by rwa [String.length_toList]
  have hfailing : room - before.text.length ≤ failing.toList.length := by
    rw [String.length_toList]
    omega
  rw [Writes.text_append, Writes.text_cons, String.toList_append, String.toList_append,
    List.take_append, List.take_of_length_le hbefore, String.length_toList,
    List.take_append_of_le_length hfailing]

/-- **Of writes that do not fit, the beginning of their text is kept**, the sink is full, and the
first that does not fit is the last that was asked of it. -/
theorem writeAll_eq (h : FirstTooLong room writes before failing) (kept : String)
    (asked : Writes) : writeAll ⟨some room, kept, asked⟩ writes
      = .error ⟨some 0, kept ++ String.ofList (writes.text.toList.take room),
        asked ++ (before ++ [failing])⟩ := by
  have htake := h.take_text
  obtain ⟨⟨after, rfl⟩, hfits, htoo⟩ := h
  have hfailing : room - before.text.length < failing.length := by omega
  rw [htake, writeAll_append, writeAll_of_fits fun _ hroom => Option.some.inj hroom ▸ hfits,
    Except.bind, Option.map_some, writeAll_cons, write_of_lt hfailing, Except.bind,
    String.ofList_append, String.ofList_toList, String.append_assoc, List.append_assoc]

end FirstTooLong

end Sink

namespace Printable

/-- **A sink that runs full keeps exactly a prefix.** Of anything that can be printed, a sink with
room for some characters holds so many of the first characters that are printed, and the printing
fails just if there are more. The failure is that of the first write that does not fit, and it is
the last that the sink was asked for: nothing is written after it. -/
theorem printWithin_eq_take (p : Printable) (room : Nat) :
    p.printWithin room
        = (String.ofList (p.print.toList.take (min room p.print.length)),
          if room < p.print.length then .error .sinkFull else .ok ())
      ∧ (room < p.print.length → ∃ before failing,
        Sink.FirstTooLong room p.writes before failing
          ∧ p.printTo { room := some room }
            = .error ⟨some 0, (p.printWithin room).1, before ++ [failing]⟩) := by
  rw [print_eq_text]
  by_cases hfits : p.text.length ≤ room
  · have hall : p.printTo { room := some room }
        = .ok ⟨some (room - p.text.length), "" ++ p.text, p.writes⟩ :=
      (p.sends _).trans (Sink.writeAll_of_fits fun _ hroom => Option.some.inj hroom ▸ hfits)
    refine ⟨?_, fun hlt => absurd hfits (Nat.not_le.2 hlt)⟩
    rw [printWithin, hall, Nat.min_eq_right hfits, if_neg (Nat.not_lt.2 hfits),
      ← String.length_toList, List.take_length, String.ofList_toList, String.empty_append]
  · have hlt := Nat.not_le.1 hfits
    obtain ⟨before, failing, hfirst⟩ := Sink.exists_firstTooLong hlt
    have hall := hfirst.writeAll_eq "" []
    rw [← p.sends, String.empty_append, List.nil_append] at hall
    have hkept : p.printWithin room
        = (String.ofList (p.text.toList.take room), .error .sinkFull) := by
      rw [printWithin, hall]
      rfl
    refine ⟨?_, fun _ => ⟨before, failing, hfirst, ?_⟩⟩
    · rw [hkept, Nat.min_eq_left (Nat.le_of_lt hlt), if_pos hlt]
    · rw [hkept, hall]
      rfl

/-- An argument with an escape, which stands last before the closing quote. -/
def escapedArgument : Printable :=
  .argument ⟨"by", .string "me\\"⟩

theorem printWithin_eq_take_escapedArgument : 8 < escapedArgument.print.length
    ∧ escapedArgument.printWithin 8 = ("by: \"me\\", .error .sinkFull)
    ∧ ∃ before failing, Sink.FirstTooLong 8 escapedArgument.writes before failing
      ∧ escapedArgument.printTo { room := some 8 }
        = .error ⟨some 0, (escapedArgument.printWithin 8).1, before ++ [failing]⟩ := by
  have hlt : 8 < escapedArgument.print.length := by decide
  exact ⟨hlt, (printWithin_eq_take escapedArgument 8).1,
    (printWithin_eq_take escapedArgument 8).2 hlt⟩

end Printable

end QueryTree

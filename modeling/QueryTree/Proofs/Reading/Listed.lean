import QueryTree.Proofs.Reading.Word
import QueryTree.Proofs.Spelling

/-!
# Proofs/Reading/Listed — lists and optional parts told apart

Printed things are put together in two ways: as a list, with a comma and a blank between neighbours
and a closing mark, or as a part that may be missing, behind a blank and a mark. What is told apart
one by one is told apart in either (`readable_listed`, `readable_optional`).
-/

namespace QueryTree

variable {α : Type}

/-! ## Lists -/

/-- What may follow an entry of a list. -/
def EntryEnds (close : Char) (rest : List Char) : Prop :=
  rest.head? = some ',' ∨ rest.head? = some close

theorem EntryEnds.ends {close : Char} {kind : Char → Bool} (hcomma : kind ',' = false)
    (hclose : kind close = false) {rest : List Char} (h : EntryEnds close rest) :
    Ends kind rest := by
  intro c hc
  rw [Option.mem_def] at hc
  rcases h with h | h
  · rw [h, Option.some.injEq] at hc
    rw [← hc, hcomma]
  · rw [h, Option.some.injEq] at hc
    rw [← hc, hclose]

/-- An entry is followed by the comma of the next one, or by the closing mark. -/
theorem entryEnds_behind (print : α → List Char) (close : Char) (xs : List α) (rest : List Char) :
    EntryEnds close ((xs.flatMap fun y => ',' :: ' ' :: print y) ++ close :: rest) := by
  cases xs with
  | nil => exact .inr rfl
  | cons x xs => exact .inl rfl

section

variable {print : α → List Char} {good : α → Prop} {close : Char}

/-- The entries behind the first. -/
theorem readable_behind (hcomma : close ≠ ',') : ∀ {xs : List α},
    (∀ x ∈ xs, Readable print good (EntryEnds close) x) →
      Readable (fun xs => (xs.flatMap fun y => ',' :: ' ' :: print y) ++ [close])
        (fun xs => ∀ x ∈ xs, good x) (fun _ => True) xs
  | [], _ => by
      intro ys rest rest' _ _ _ heq
      cases ys with
      | nil => simpa using heq
      | cons y ys =>
        simp only [List.flatMap_nil, List.flatMap_cons, List.nil_append, List.cons_append,
          List.cons.injEq] at heq
        exact absurd heq.1 hcomma
  | x :: xs, hxs => by
      intro ys rest rest' hys _ _ heq
      cases ys with
      | nil =>
        simp only [List.flatMap_nil, List.flatMap_cons, List.nil_append, List.cons_append,
          List.cons.injEq] at heq
        exact absurd heq.1.symm hcomma
      | cons y ys =>
        simp only [List.flatMap_cons, List.cons_append, List.append_assoc, List.cons.injEq,
          true_and] at heq
        obtain ⟨rfl, hrest⟩ := hxs x List.mem_cons_self (hys y List.mem_cons_self)
          (entryEnds_behind print close xs rest) (entryEnds_behind print close ys rest') heq
        obtain ⟨hxs, hrest⟩ := readable_behind hcomma
          (fun z hz => hxs z (List.mem_cons_of_mem _ hz))
          (fun z hz => hys z (List.mem_cons_of_mem _ hz)) trivial trivial
          (by simpa only [List.append_assoc, List.singleton_append] using hrest)
        exact ⟨by rw [hxs], hrest⟩

/-- **A list is told apart with its closing mark**, if its entries are and none begins with that
mark. -/
theorem readable_listed (close : Char) (hcomma : close ≠ ',')
    (hlead : ∀ x, good x → ∃ c cs, print x = c :: cs ∧ c ≠ close) {xs : List α}
    (hgood : ∀ x ∈ xs, good x) (hxs : ∀ x ∈ xs, Readable print good (EntryEnds close) x) :
    Readable (fun xs => listed print xs ++ [close]) (fun xs => ∀ x ∈ xs, good x)
      (fun _ => True) xs := by
  have hstart : ∀ {x : α} {rest rest' : List Char}, good x →
      [close] ++ rest ≠ print x ++ rest' := by
    intro x rest rest' hx heq
    obtain ⟨c, cs, hcs, hc⟩ := hlead x hx
    rw [hcs, List.cons_append, List.cons_append, List.cons.injEq] at heq
    exact hc heq.1.symm
  intro ys rest rest' hys _ _ heq
  cases xs with
  | nil =>
    cases ys with
    | nil => simpa [listed] using heq
    | cons y ys =>
      simp only [listed, List.nil_append, List.append_assoc] at heq
      exact absurd heq (hstart (hys y List.mem_cons_self))
  | cons x xs =>
    cases ys with
    | nil =>
      simp only [listed, List.nil_append, List.append_assoc] at heq
      exact absurd heq.symm (hstart (hgood x List.mem_cons_self))
    | cons y ys =>
      -- a comma before the first entries too makes both lists ones behind a first
      exact readable_behind hcomma hxs hys trivial trivial
        (by simpa [listed] using congrArg (',' :: ' ' :: ·) heq)

end

/-! ## Optional parts -/

/-- A text that does not go on with a part behind that mark. -/
def NotBehind (mark : Char) (rest : List Char) : Prop :=
  ∀ rest', rest ≠ ' ' :: mark :: rest'

/-- **A part that may be missing is told apart**, if nothing that follows looks like it. -/
theorem readable_optional {mark : Char} {print : α → List Char} {good : α → Prop}
    {follow : List Char → Prop} {x : Option α}
    (hx : ∀ a ∈ x, Readable print good follow a) :
    Readable (optional mark print) (fun x => ∀ a ∈ x, good a)
      (fun rest => NotBehind mark rest ∧ follow rest) x := by
  intro y rest rest' hy hrest hrest' heq
  cases x with
  | none =>
    cases y with
    | none => exact ⟨rfl, heq⟩
    | some b => exact absurd heq (hrest.1 _)
  | some a =>
    cases y with
    | none => exact absurd heq.symm (hrest'.1 _)
    | some b =>
      simp only [optional, List.cons_append, List.cons.injEq, true_and] at heq
      obtain ⟨rfl, hrest⟩ := hx a rfl (hy b rfl) hrest.2 hrest'.2 heq
      exact ⟨rfl, hrest⟩

end QueryTree

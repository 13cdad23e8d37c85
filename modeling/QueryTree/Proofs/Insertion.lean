import QueryTree.Proofs.Rendering

/-!
# Proofs/Insertion — a piece more on one line

Text that is put into one line of several appears in one place of the rendered text, and nothing
else changes (`exists_render_eq`). The one exception is a line that showed nothing before and has
nothing shown above it: it has no separator behind it until the piece is there
(`render_of_not_shown`). Both together: `exists_render_inserted`.
-/

namespace QueryTree.Line

variable {pretty : Bool}

theorem render_append (lines rest : List Line) :
    render pretty (lines ++ rest) = rest.foldl (add pretty) (render pretty lines) := by
  rw [render, render, List.foldl_append]

theorem render_cons_ne_empty {line : Line} (h : line.shown pretty ≠ "") (rest : List Line) :
    render pretty (line :: rest) ≠ "" := by
  rw [ne_eq, ← String.toList_inj, toList_render_cons h]
  simp [h]

/-- The text is empty if no line shows anything. -/
theorem render_eq_empty_iff {lines : List Line} :
    render pretty lines = "" ↔ ∀ line ∈ lines, line.shown pretty = "" := by
  induction lines with
  | nil => simp [render]
  | cons line rest ih =>
    by_cases h : line.shown pretty = ""
    · rw [render_cons_of_empty h, ih, List.forall_mem_cons]
      simp [h]
    · simp [h, render_cons_ne_empty h]

/-- Where lines come only behind one that shows something, that one decides. -/
theorem render_append_cons_eq_empty_iff {above rest : List Line} {line : Line}
    (h : line.shown pretty = "" → rest = []) :
    render pretty (above ++ line :: rest) = ""
      ↔ render pretty above = "" ∧ line.shown pretty = "" := by
  simp only [render_eq_empty_iff, List.forall_mem_append, List.forall_mem_cons]
  constructor
  · rintro ⟨habove, hline, -⟩
    exact ⟨habove, hline⟩
  · rintro ⟨habove, hline⟩
    refine ⟨habove, hline, ?_⟩
    rw [h hline]
    exact List.forall_mem_nil _

theorem shown_ne_empty {line : Line} (h : line.text ≠ "") : line.shown pretty ≠ "" :=
  fun hempty => h (String.append_eq_empty_iff.1 hempty).2

/-- Lines above that show nothing are as if they were not there. -/
theorem render_append_of_empty {lines : List Line} (h : render pretty lines = "")
    (rest : List Line) : render pretty (lines ++ rest) = render pretty rest := by
  rw [render_append, h, render]

/-- A line with a piece of text in it. -/
def inserted (level : Nat) (left right piece : String) : Line :=
  ⟨level, left ++ (piece ++ right)⟩

variable {level : Nat} {left right : String}

theorem shown_inserted_ne_empty (h : (inserted level left right "").shown pretty ≠ "")
    (piece : String) : (inserted level left right piece).shown pretty ≠ "" := by
  simp only [shown, inserted, ne_eq, String.append_eq_empty_iff] at h ⊢
  rintro ⟨hindent, hleft, -, hright⟩
  exact h ⟨hindent, hleft, trivial, hright⟩

/-- **A piece in a line is a piece in the text**, if the line or what is above it shows anything
without it. -/
theorem exists_render_eq {above : List Line} (below : List Line)
    (h : render pretty above ≠ "" ∨ (inserted level left right "").shown pretty ≠ "") :
    ∃ before after, ∀ piece,
      render pretty (above ++ inserted level left right piece :: below)
        = before ++ (piece ++ after) := by
  by_cases habove : render pretty above = ""
  · have hshown := h.resolve_left fun hne => hne habove
    refine ⟨(if pretty then indent level else "") ++ left,
      right ++ String.ofList (below.flatMap (behind pretty)), fun piece => ?_⟩
    rw [render_append_of_empty habove, ← String.toList_inj,
      toList_render_cons (shown_inserted_ne_empty hshown piece)]
    simp [shown, inserted]
  · refine ⟨render pretty above ++ String.ofList (gap pretty level) ++ left,
      right ++ String.ofList (below.flatMap (behind pretty)), fun piece => ?_⟩
    rw [render_append, ← String.toList_inj, toList_foldl_add habove]
    simp [behind, inserted]

/-- A line that shows nothing, below others that do not, is not in the text. With a piece in it, it
is, and what is below is separated from it. -/
theorem render_of_not_shown {above below : List Line} (habove : render pretty above = "")
    (hshown : (inserted level left right "").shown pretty = "")
    (hbelow : ∀ line ∈ below.head?, line.text ≠ "") :
    render pretty (above ++ inserted level left right "" :: below) = render pretty below
      ∧ (render pretty below = "" ↔ below = [])
      ∧ ∀ piece, piece ≠ "" → render pretty (above ++ inserted level left right piece :: below)
        = piece ++ ((if below = [] then "" else String.singleton (separator pretty))
          ++ render pretty below) := by
  have hempty : render pretty below = "" ↔ below = [] := by
    cases below with
    | nil => simp [render]
    | cons line rest =>
      simp only [List.cons_ne_nil, iff_false]
      exact render_cons_ne_empty (shown_ne_empty (hbelow line rfl)) rest
  refine ⟨?_, hempty, fun piece hpiece => ?_⟩
  · rw [render_append_of_empty habove, render_cons_of_empty hshown]
  · have hpiece' : (inserted level left right piece).shown pretty = piece := by
      simp only [shown, inserted, String.append_eq_empty_iff] at hshown ⊢
      simp [hshown.1, hshown.2.1, hshown.2.2.2]
    have hne : (inserted level left right piece).shown pretty ≠ "" := by rwa [hpiece']
    rw [render_append_of_empty habove, ← String.toList_inj, toList_render_cons hne, hpiece']
    cases below with
    | nil => simp [render]
    | cons line rest =>
      rw [← separator_cons_render (by simp) fun l hl => shown_ne_empty (hbelow l hl)]
      simp

/-- What a piece has behind it that was not there before: a separator, if it `leads` the text and
there is any without it. -/
def ending (pretty leads : Bool) (whole : String) : String :=
  if leads ∧ whole ≠ "" then String.singleton (separator pretty) else ""

/-- **A piece in a line is a piece in the text**, and what it adds besides is its ending. -/
theorem exists_render_inserted {above below : List Line} {leads : Bool}
    (hleads : leads ↔ render pretty above = "" ∧ (inserted level left right "").shown pretty = "")
    (hbelow : leads → ∀ line ∈ below.head?, line.text ≠ "") :
    ∃ before after,
      render pretty (above ++ inserted level left right "" :: below) = before ++ after
      ∧ ∀ piece, piece ≠ "" → render pretty (above ++ inserted level left right piece :: below)
        = before ++ (piece ++ (ending pretty leads
            (render pretty (above ++ inserted level left right "" :: below)) ++ after)) := by
  cases h : leads with
  | true =>
    obtain ⟨habove, hshown⟩ := hleads.1 h
    obtain ⟨hwhole, hempty, hpiece⟩ := render_of_not_shown habove hshown (hbelow h)
    refine ⟨"", render pretty below, by simpa using hwhole, fun piece hne => ?_⟩
    rw [hpiece piece hne, hwhole, ending]
    by_cases hnil : below = []
    · subst hnil
      simp [render]
    · simp [hnil, mt hempty.1 hnil]
  | false =>
    have hshown : render pretty above ≠ "" ∨ (inserted level left right "").shown pretty ≠ "" := by
      by_cases habove : render pretty above = ""
      · exact .inr fun hshown => absurd (hleads.2 ⟨habove, hshown⟩) (by simp [h])
      · exact .inl habove
    obtain ⟨before, after, hrender⟩ := exists_render_eq below hshown
    refine ⟨before, after, by simpa using hrender "", fun piece _ => ?_⟩
    simp [hrender, ending]

end QueryTree.Line

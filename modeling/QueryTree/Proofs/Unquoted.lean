import QueryTree.Proofs.Characters

/-!
# Proofs/Unquoted — directives print their values whole

A directive drops the quotes from the texts of its values. Only strings have quotes, so a value
without a string in it is printed as anywhere else (`Directive.entryChars_eq`).
-/

namespace QueryTree

theorem Name.quote_notMem {s : String} (h : Name.isName s) : '"' ∉ s.toList := by
  unfold Name.isName at h
  split at h
  · cases h
  · next c cs hs =>
    rw [hs, List.mem_cons]
    rintro (rfl | hmem)
    · exact absurd (Bool.and_eq_true_iff.1 h).1 (by decide)
    · have := List.all_eq_true.1 (Bool.and_eq_true_iff.1 h).2 _ hmem
      exact absurd this (by decide)

/-- The bare texts of a value are Names if its names are. -/
theorem Value.isName_of_mem_bareTexts {v : Value} (h : v.wellNamed) :
    ∀ s ∈ v.bareTexts, Name.isName s := by
  intro s hs
  cases v with
  | var name =>
    obtain rfl : s = name := by simpa [bareTexts] using hs
    exact h
  | enum text =>
    obtain rfl : s = text := by simpa [bareTexts] using hs
    exact (Bool.and_eq_true_iff.1 h).1
  | object fields =>
    obtain ⟨field, hf, rfl⟩ := List.mem_map.1 hs
    exact List.all_eq_true.1 h field hf
  | _ => cases hs

/-- **Without strings there are no quotes.** -/
theorem Value.quote_notMem_chars {v : Value} (h : ∀ part ∈ v.parts, part.wellNamed)
    (hstring : ∀ part ∈ v.parts, part.isString = false) : '"' ∉ v.chars := by
  have hmark : ∀ c, isMark c → c ≠ '"' := by
    rintro _ hc rfl
    exact absurd hc (by decide)
  have hbare : ∀ part ∈ v.parts, ∀ s ∈ part.bareTexts, ∀ c ∈ s.toList, c ≠ '"' := by
    rintro part hpart s hs _ hc rfl
    exact Name.quote_notMem (isName_of_mem_bareTexts (h part hpart) s hs) hc
  intro hquote
  exact forall_mem_chars hmark hbare (fun s hs => nomatch hstring _ hs) _ hquote rfl

/-- **An argument of a directive is printed as one of a field** if there is no string in it. -/
theorem Directive.entryChars_eq {argument : Named Value}
    (h : ∀ part ∈ argument.value.parts, part.wellNamed)
    (hstring : ∀ part ∈ argument.value.parts, part.isString = false) :
    Directive.entryChars argument = Arguments.entryChars argument := by
  have hquote := Value.quote_notMem_chars h hstring
  rw [Directive.entryChars, Arguments.entryChars, List.filter_eq_self.2]
  intro c hc
  simpa using fun heq : c = '"' => hquote (heq ▸ hc)

end QueryTree

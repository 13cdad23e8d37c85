import QueryTree.Proofs.Reading.Listed
import QueryTree.Proofs.Reading.Quoted

/-!
# Proofs/Reading/Value — values told apart

The first character of a value tells what it is but for the words: an enum constant begins like
`true`, `false` and `null`. As none of the three is an enum constant, the word itself decides. A
double is left out: an integral one is printed like an integer.
-/

namespace QueryTree

namespace Value

/-- A value whose text is no other value's: its names are Names, and there is no double in it. -/
def Distinct (v : Value) : Prop :=
  ∀ part ∈ v.parts, part.wellNamed ∧ part.isFloat = false

theorem Distinct.item {v : Value} {items : List Value} (h : (list items).Distinct)
    (hv : v ∈ items) : v.Distinct :=
  fun part hpart => h part (parts_subset_list hv hpart)

theorem Distinct.field {field : Named Value} {fields : List (Named Value)}
    (h : (object fields).Distinct) (hf : field ∈ fields) : field.value.Distinct :=
  fun part hpart => h part (parts_subset_object hf hpart)

theorem Distinct.name {field : Named Value} {fields : List (Named Value)}
    (h : (object fields).Distinct) (hf : field ∈ fields) : Name.isName field.name := by
  have := (h _ (self_mem_parts _)).1
  rw [wellNamed, List.all_eq_true] at this
  exact this field hf

/-! ## What the first character tells -/

/-- What a text is, by its first character. -/
inductive Kind where
  | var
  | word
  | string
  | number
  | list
  | object
  /-- No value begins with the character. -/
  | none
deriving DecidableEq

/-- What a text is that begins with the character. -/
def Kind.ofChar (c : Char) : Kind :=
  if c = '$' then .var
  else if c = '"' then .string
  else if c = '[' then .list
  else if c = '{' then .object
  else if Name.isStart c then .word
  else if c.isDigit || c = '-' then .number
  else .none

/-- What the text of a value is. -/
def kind : Value → Kind
  | .var _ => .var
  | .string _ => .string
  | .list _ => .list
  | .object _ => .object
  | .int _ | .float _ => .number
  | .enum _ | .bool _ | .null => .word

theorem Kind.ofChar_of_isStart {c : Char} (h : Name.isStart c) : Kind.ofChar c = .word := by
  have hne : ∀ d : Char, Name.isStart d = false → c ≠ d := by
    rintro d hd rfl
    exact absurd h (by simp [hd])
  rw [ofChar, if_neg (hne _ (by decide)), if_neg (hne _ (by decide)), if_neg (hne _ (by decide)),
    if_neg (hne _ (by decide)), if_pos h]

theorem Kind.ofChar_of_isDigit {c : Char} (h : c.isDigit) : Kind.ofChar c = .number := by
  have hne : ∀ d : Char, d.isDigit = false → c ≠ d := by
    rintro d hd rfl
    exact absurd h (by simp [hd])
  rw [ofChar, if_neg (hne _ (by decide)), if_neg (hne _ (by decide)), if_neg (hne _ (by decide)),
    if_neg (hne _ (by decide)), if_neg (by simp [Name.isStart_of_isDigit h]), if_pos (by simp [h])]

/-- The value that a word is. -/
def ofWord (s : String) : Value :=
  if s = "true" then .bool true
  else if s = "false" then .bool false
  else if s = "null" then .null
  else .enum s

/-- **A word decides its value**, and is a Name. -/
theorem word_eq {v : Value} (h : v.wellNamed) (hkind : v.kind = .word) :
    Name.isName v.text ∧ v = ofWord v.text := by
  cases v with
  | enum s =>
    have htext : (enum s).text = s := String.toList_injective (chars_enum s)
    obtain ⟨hname, hliteral⟩ := Bool.and_eq_true_iff.1 h
    simp only [literals, List.contains_cons, List.contains_nil, Bool.or_false, Bool.not_eq_true',
      Bool.or_eq_false_iff, beq_eq_false_iff_ne] at hliteral
    rw [htext, ofWord, if_neg hliteral.1, if_neg hliteral.2.1, if_neg hliteral.2.2]
    exact ⟨hname, rfl⟩
  | bool b => cases b <;> exact ⟨by decide, rfl⟩
  | null => exact ⟨by decide, rfl⟩
  | _ => cases hkind

/-- An integer begins with a digit or a sign. -/
theorem exists_lead_int (n : Int) : ∃ c cs, n.repr.toList = c :: cs ∧ Kind.ofChar c = .number := by
  obtain ⟨c, cs, hcs, rfl | hc⟩ := exists_cons_repr n
  · exact ⟨'-', cs, hcs, by decide⟩
  · exact ⟨c, cs, hcs, Kind.ofChar_of_isDigit hc⟩

/-- **The first character of a value tells its kind.** -/
theorem exists_lead {v : Value} (h : v.wellNamed) (hfloat : v.isFloat = false) :
    ∃ c cs, v.chars = c :: cs ∧ Kind.ofChar c = v.kind := by
  cases v with
  | var name => exact ⟨'$', _, chars_var name, rfl⟩
  | string s => exact ⟨'"', _, (chars_string s).trans (Quoted.toList_writes s), rfl⟩
  | int n =>
    obtain ⟨c, cs, hcs, hc⟩ := exists_lead_int n.toInt
    exact ⟨c, cs, (chars_int n).trans hcs, hc⟩
  | float x => cases hfloat
  | list items => exact ⟨'[', _, chars_list items, rfl⟩
  | object fields => exact ⟨'{', _, chars_object fields, rfl⟩
  | enum s | bool b | null =>
    obtain ⟨c, cs, hcs, hc, -⟩ := Name.exists_cons_of_isName (word_eq h rfl).1
    exact ⟨c, cs, hcs, Kind.ofChar_of_isStart hc⟩

theorem Distinct.exists_lead {v : Value} (h : v.Distinct) :
    ∃ c cs, v.chars = c :: cs ∧ Kind.ofChar c = v.kind :=
  Value.exists_lead (h v v.self_mem_parts).1 (h v v.self_mem_parts).2

/-- Two values that begin two equal texts are of one kind. -/
theorem kind_eq_of_append {v w : Value} {rest rest' : List Char} (hv : v.Distinct)
    (hw : w.Distinct) (h : v.chars ++ rest = w.chars ++ rest') : v.kind = w.kind := by
  obtain ⟨c, cs, hcs, hc⟩ := hv.exists_lead
  obtain ⟨d, ds, hds, hd⟩ := hw.exists_lead
  rw [hcs, hds, List.cons_append, List.cons_append, List.cons.injEq] at h
  rw [← hc, ← hd, h.1]

/-! ## Values -/

/-- A value in a list is followed by a comma or by the end of the list. -/
theorem entryEnds_ends (close : Char) (hclose : Name.isRest close = false) {rest : List Char}
    (h : EntryEnds close rest) : Ends Name.isRest rest :=
  h.ends (by decide) hclose

theorem ends_isDigit {rest : List Char} (h : Ends Name.isRest rest) : Ends Char.isDigit rest := by
  intro c hc
  have := h c hc
  simp only [Name.isRest, Char.isAlphanum, Bool.or_eq_false_iff] at this
  exact this.1.2

/-- **Words are told apart.** -/
theorem readable_word {v : Value} (hv : v.Distinct) (hkind : v.kind = .word) :
    Readable chars Distinct (Ends Name.isRest) v := by
  intro w rest rest' hw hrest hrest' heq
  have hkind' : w.kind = .word := (kind_eq_of_append hv hw heq).symm.trans hkind
  obtain ⟨hvname, hv⟩ := word_eq (hv v v.self_mem_parts).1 hkind
  obtain ⟨hwname, hw⟩ := word_eq (hw w w.self_mem_parts).1 hkind'
  obtain ⟨htext, hrest⟩ := Name.readable_name hvname hwname hrest hrest' heq
  exact ⟨by rw [hv, hw, htext], hrest⟩

/-- A named value is told apart if its value is. -/
theorem readable_entry {field : Named Value} (hname : Name.isName field.name)
    {follow : List Char → Prop} (h : Readable chars Distinct follow field.value) :
    Readable Arguments.entryChars (fun field => Name.isName field.name ∧ field.value.Distinct)
      follow field := by
  rintro ⟨name', value'⟩ rest rest' ⟨hname', hvalue'⟩ hrest hrest' heq
  have hcolon : ∀ rest : List Char, Ends Name.isRest (':' :: rest) := fun _ =>
    ends_cons.2 (by decide)
  simp only [Arguments.entryChars, List.append_assoc, List.cons_append] at heq
  obtain ⟨hname, heq⟩ := Name.readable_name hname hname' (hcolon _) (hcolon _) heq
  simp only [List.cons.injEq, true_and] at heq
  obtain ⟨hvalue, hrest⟩ := h hvalue' hrest hrest' heq
  cases field
  cases hname
  cases hvalue
  exact ⟨rfl, hrest⟩

/-- A value begins with no mark that could close a list. -/
theorem Distinct.exists_lead_ne {v : Value} (h : v.Distinct) {close : Char}
    (hclose : Kind.ofChar close = .none) : ∃ c cs, v.chars = c :: cs ∧ c ≠ close := by
  obtain ⟨c, cs, hcs, hc⟩ := h.exists_lead
  refine ⟨c, cs, hcs, ?_⟩
  rintro rfl
  rw [hclose] at hc
  cases v <;> cases hc

theorem exists_lead_entryChars {field : Named Value} (h : Name.isName field.name) (close : Char)
    (hclose : Name.isStart close = false) :
    ∃ c cs, Arguments.entryChars field = c :: cs ∧ c ≠ close := by
  obtain ⟨c, cs, hcs, hc, -⟩ := Name.exists_cons_of_isName h
  refine ⟨c, _, by rw [Arguments.entryChars, hcs, List.cons_append], ?_⟩
  rintro rfl
  rw [hclose] at hc
  cases hc

/-- **Values are told apart**, whatever strings are in them, by anything that cannot go on with a
Name or a number. -/
theorem readable {v : Value} (hv : v.Distinct) :
    Readable chars Distinct (Ends Name.isRest) v := by
  induction v using Value.induct with
  | enum s | bool b | null => exact readable_word hv rfl
  | var name =>
    intro w rest rest' hw hrest hrest' heq
    have hkind := kind_eq_of_append hv hw heq
    cases w with
    | var name' =>
      simp only [chars_var, List.cons_append, List.cons.injEq, true_and] at heq
      obtain ⟨hname, hrest⟩ := Name.readable_name (hv _ (self_mem_parts _)).1
        (hw _ (self_mem_parts _)).1 hrest hrest' heq
      exact ⟨by rw [hname], hrest⟩
    | _ => cases hkind
  | string s =>
    intro w rest rest' hw hrest hrest' heq
    have hkind := kind_eq_of_append hv hw heq
    cases w with
    | string s' =>
      simp only [chars_string] at heq
      obtain ⟨hs, hrest⟩ := Quoted.writes_append_inj heq
      exact ⟨by rw [hs], hrest⟩
    | _ => cases hkind
  | int n =>
    intro w rest rest' hw hrest hrest' heq
    have hkind := kind_eq_of_append hv hw heq
    cases w with
    | int n' =>
      simp only [chars_int] at heq
      obtain ⟨hn, hrest⟩ :=
        readable_repr_int n.toInt trivial (ends_isDigit hrest) (ends_isDigit hrest') heq
      exact ⟨by rw [Int64.toInt_inj.1 hn], hrest⟩
    | float x => cases (hw _ (self_mem_parts _)).2
    | _ => cases hkind
  | float x => cases (hv _ (self_mem_parts _)).2
  | list items ih =>
    intro w rest rest' hw _ _ heq
    have hkind := kind_eq_of_append hv hw heq
    cases w with
    | list items' =>
      simp only [chars_list, List.cons_append, List.cons.injEq, true_and] at heq
      obtain ⟨hitems, hrest⟩ := readable_listed ']' (by decide)
        (fun _ hv => Distinct.exists_lead_ne hv (by decide)) (fun v hv' => hv.item hv')
        (fun v hv' => (ih v hv' (hv.item hv')).imp fun _ => entryEnds_ends ']' (by decide))
        (fun v hv => hw.item hv) trivial trivial heq
      exact ⟨by rw [hitems], hrest⟩
    | _ => cases hkind
  | object fields ih =>
    intro w rest rest' hw _ _ heq
    have hkind := kind_eq_of_append hv hw heq
    cases w with
    | object fields' =>
      simp only [chars_object, List.cons_append, List.cons.injEq, true_and] at heq
      obtain ⟨hfields, hrest⟩ := readable_listed '}' (by decide)
        (fun _ hf => exists_lead_entryChars hf.1 '}' (by decide))
        (fun f hf => ⟨hv.name hf, hv.field hf⟩)
        (fun f hf => readable_entry (hv.name hf)
          ((ih f hf (hv.field hf)).imp fun _ => entryEnds_ends '}' (by decide)))
        (fun f hf => ⟨hw.name hf, hw.field hf⟩) trivial trivial heq
      exact ⟨by rw [hfields], hrest⟩
    | _ => cases hkind

end Value

end QueryTree

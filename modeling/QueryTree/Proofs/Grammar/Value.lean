import QueryTree.Proofs.Grammar.Syntax
import QueryTree.Proofs.Unquoted

/-!
# Proofs/Grammar/Value — values and directives are derived

Every well-named value is printed as a Value of the grammar, doubles and texts of any characters
included; arguments and directives follow.
-/

namespace QueryTree

open Grammar

/-! ## Words -/

namespace Quoted

theorem hex?_isSome {n : Nat} (h : n < 0x20) :
    (hex? '0' '0' (Nat.digitChar (n / 16)) (Nat.digitChar (n % 16))).isSome := by
  rw [hex?_digitChar (by omega)]
  rfl

/-- A character is escaped as a string may have it. -/
theorem isBody_escape (c : Char) {cs : List Char} (h : IsBody cs) :
    IsBody ((escape c).toList ++ cs) := by
  fun_cases escape c with
  | case1 | case2 | case3 | case4 | case5 | case6 | case7 => exact .escape (by decide) h
  | case8 c _ _ _ _ _ _ _ hcode =>
    rw [String.toList_ofList]
    exact .code (hex?_isSome hcode) h
  | case9 c hquote hslash _ _ _ _ _ hcode =>
    rw [String.toList_singleton, List.singleton_append]
    exact .plain (by simpa using hquote) (by simpa using hslash) (by omega) h

theorem isBody_flatMap_escape : ∀ s : List Char, IsBody (s.flatMap fun c => (escape c).toList)
  | [] => .nil
  | c :: s => by
      rw [List.flatMap_cons]
      exact isBody_escape c (isBody_flatMap_escape s)

/-- **A literal is a string**, whatever the text. -/
theorem reads_writes (s : String) : Reads .value (writes s).text.toList := by
  rw [toList_writes]
  exact ⟨_, .string _, .string (isBody_flatMap_escape s.toList)⟩

end Quoted

theorem isInteger_repr (n : Int) : IsInteger n.repr.toList := by
  refine ⟨Nat.toDigits 10 n.natAbs, isWhole_toDigits _, ?_⟩
  rw [toList_repr_int]
  split
  · exact .inr rfl
  · exact .inl rfl

namespace Numeral

/-- The characters behind the mark of the exponent. -/
theorem isExponent (e : Int) :
    IsExponent ('e' :: (if e < 0 then '-' else '+') :: Nat.toDigits 10 e.natAbs) := by
  refine ⟨'e', [if e < 0 then '-' else '+'], _, by decide, ?_, all_isDigit_toDigits e.natAbs,
    Nat.toDigits_ne_nil, rfl⟩
  split <;> decide

/-- **A valid numeral is a number**: an integer if it has neither a fraction nor an exponent. -/
theorem Valid.reads {n : Numeral} (h : n.Valid) : Reads .value n.text.toList := by
  have hwhole : IsInteger ((if n.negative then ['-'] else []) ++ n.whole) := by
    refine ⟨n.whole, h.whole, ?_⟩
    cases n.negative
    · exact .inl rfl
    · exact .inr rfl
  rw [toList_text]
  by_cases hfraction : n.fraction = [] ∧ n.exponent = none
  · rw [hfraction.1, hfraction.2, List.isEmpty_nil, if_pos rfl, List.append_nil, List.append_nil]
    exact ⟨_, .int _, .int hwhole⟩
  · refine ⟨_, .float _, .float ⟨_, _, _, hwhole, ?_, ?_, ?_, rfl⟩⟩
    · split
      · exact .inl rfl
      · next hne => exact .inr ⟨_, h.fraction, by simpa using hne, rfl⟩
    · split
      · exact .inl rfl
      · exact .inr (isExponent _)
    · cases hexponent : n.exponent with
      | none => exact .inl (by simpa [hexponent] using hfraction)
      | some e => exact .inr (by simp)

end Numeral

/-! ## Values -/

namespace Value

theorem reads_null : Reads .value "null".toList :=
  ⟨_, .null, Spells.name (by decide)⟩

theorem reads_floatText (x : Float) : Reads .value (floatText x).toList := by
  rcases floatText_cases x with h | h | ⟨n, hn, h⟩
  · rw [h]
    exact reads_null
  · rw [h]
    exact ⟨_, .int ['0'], .int ⟨_, .inl rfl, .inl rfl⟩⟩
  · rw [h]
    exact hn.reads

end Value

/-- An argument is its name, a colon and its value. -/
theorem Arguments.reads_entryChars {argument : Named Value} (hname : Name.isName argument.name)
    (hvalue : Reads .value argument.value.chars) : Reads .argument (entryChars argument) := by
  obtain ⟨tokens, hderives, hspells⟩ := hvalue
  refine ⟨_, .argument argument.name hderives, ?_⟩
  exact .name_append hname (apart_cons (by decide) _)
    (.punctuator (by decide) (.skip (by decide) hspells))

namespace Value

/-- **A well-named value is a value of the grammar.** -/
theorem reads {v : Value} (h : ∀ part ∈ v.parts, part.wellNamed) : Reads .value v.chars := by
  induction v using Value.induct with
  | var name =>
    rw [chars_var]
    exact ⟨_, .variable name, .punctuator (by decide) (Spells.name (h _ (self_mem_parts _)))⟩
  | enum s =>
    obtain ⟨hname, hliteral⟩ := Bool.and_eq_true_iff.1 (h _ (self_mem_parts _))
    rw [chars_enum]
    exact ⟨_, .enum (by simpa [literals] using hliteral), Spells.name hname⟩
  | string s =>
    rw [chars_string]
    exact Quoted.reads_writes s
  | int n =>
    rw [chars_int]
    exact ⟨_, .int _, .int (isInteger_repr n.toInt)⟩
  | float x =>
    rw [chars_float]
    exact reads_floatText x
  | bool b =>
    rw [chars_bool]
    cases b with
    | false => exact ⟨_, .boolean (by decide), Spells.name (by decide)⟩
    | true => exact ⟨_, .boolean (by decide), Spells.name (by decide)⟩
  | null =>
    rw [chars_null]
    exact reads_null
  | list items ih =>
    obtain ⟨tokens, hderives, hspells⟩ := reads_many_listed fun v hv =>
      ih v hv fun part hpart => h part (parts_subset_list hv hpart)
    rw [chars_list]
    exact ⟨_, .list hderives, hspells.enclosed (by decide) (by decide) (by decide)⟩
  | object fields ih =>
    have hnames : ∀ field ∈ fields, Name.isName field.name :=
      List.all_eq_true.1 (h _ (self_mem_parts _))
    obtain ⟨tokens, hderives, hspells⟩ := reads_many_listed fun field hfield =>
      Arguments.reads_entryChars (hnames field hfield)
        (ih field hfield fun part hpart => h part (parts_subset_object hfield hpart))
    rw [chars_object]
    exact ⟨_, .object hderives, hspells.enclosed (by decide) (by decide) (by decide)⟩

end Value

/-! ## Lists in parentheses -/

/-- An argument whose name and value are well named. -/
def Arguments.WellNamed (argument : Named Value) : Prop :=
  Name.isName argument.name ∧ ∀ part ∈ argument.value.parts, part.wellNamed

namespace Arguments

theorem WellNamed.reads {argument : Named Value} (h : WellNamed argument) :
    Reads .argument (entryChars argument) :=
  reads_entryChars h.1 (Value.reads h.2)

/-- Arguments in parentheses, of which there must be one. -/
theorem reads_listed {α : Type} {print : α → List Char} {xs : List α} (hne : xs ≠ [])
    (h : ∀ x ∈ xs, Reads .argument (print x)) :
    Reads .arguments ('(' :: (listed print xs ++ [')'])) := by
  obtain ⟨x, xs, rfl⟩ := List.exists_cons_of_ne_nil hne
  obtain ⟨ts, us, hhead, htail, hspells⟩ := Grammar.reads_listed h
  exact ⟨_, .arguments hhead htail, hspells.enclosed (by decide) (by decide) (by decide)⟩

end Arguments

namespace Variables

/-- A declaration of a variable is its name behind a dollar sign, a colon and its type. -/
theorem reads_declaration {d : Named String} (hname : Name.isName d.name)
    (htype : Sentence .type d.value.toList) :
    Reads .declaration ('$' :: (d.name.toList ++ ':' :: ' ' :: d.value.toList)) := by
  obtain ⟨tokens, hderives, hspells⟩ := htype.reads
  exact ⟨_, .declaration d.name hderives, .punctuator (by decide) <|
    .name_append hname (apart_cons (by decide) _)
      (.punctuator (by decide) (.skip (by decide) hspells))⟩

/-- Declarations in parentheses, of which there must be one. -/
theorem reads_listed {α : Type} {print : α → List Char} {xs : List α} (hne : xs ≠ [])
    (h : ∀ x ∈ xs, Reads .declaration (print x)) :
    Reads .declarations ('(' :: (listed print xs ++ [')'])) := by
  obtain ⟨x, xs, rfl⟩ := List.exists_cons_of_ne_nil hne
  obtain ⟨ts, us, hhead, htail, hspells⟩ := Grammar.reads_listed h
  exact ⟨_, .declarations hhead htail, hspells.enclosed (by decide) (by decide) (by decide)⟩

end Variables

namespace Directive

/-- A directive in the grammar. -/
structure Derived (directive : Directive) : Prop where
  name : Name.isName directive.name
  arguments : ∀ arguments ∈ directive.arguments, arguments ≠ []
    ∧ ∀ argument ∈ arguments, Arguments.WellNamed argument
      ∧ ∀ part ∈ argument.value.parts, part.isString = false

/-- **A directive without strings is a directive of the grammar.** -/
theorem Derived.reads {directive : Directive} (h : directive.Derived) :
    Reads .directive ('@' :: directive.chars) := by
  obtain ⟨name, arguments⟩ := directive
  cases arguments with
  | none =>
    rw [chars, argumentsChars, List.append_nil]
    exact ⟨_, .directive name (.none _), .punctuator (by decide) (Spells.name h.name)⟩
  | some arguments =>
    obtain ⟨hne, harguments⟩ := h.arguments arguments rfl
    obtain ⟨tokens, hderives, hspells⟩ := Arguments.reads_listed hne fun argument hargument =>
      (harguments argument hargument).1.reads
    rw [← listed_congr fun argument hargument => Directive.entryChars_eq
      (harguments argument hargument).1.2 (harguments argument hargument).2] at hspells
    exact ⟨_, .directive name (.some hderives), .punctuator (by decide)
      (.name_append h.name (apart_cons (by decide) _) hspells)⟩

end Directive

end QueryTree

import QueryTree.Proofs.Numeral
import QueryTree.Proofs.Spelling

/-!
# Proofs/Characters — where the characters of a text come from

Whatever is printed consists of marks, of texts that are written as they are, and of string
literals. What holds of the characters of these three holds of all characters of a value
(`Value.forall_mem_chars`), of the line of a field (`Head.forall_mem_token`) and so of all lines
(`Node.forall_mem_lines`).
-/

namespace QueryTree

/-- Whether a character is printed whatever values and names there are: punctuation, the characters
of numerals, and the letters of keywords. -/
def isMark (c : Char) : Bool :=
  c.isDigit || r" $@:,.-+()[]{}".toList.contains c || "null true false on".toList.contains c

theorem isMark_of_isDigit {c : Char} (h : c.isDigit) : isMark c := by
  simp [isMark, h]

section

variable {α : Type} {p : Char → Prop}

/-- What holds of all marks holds of a text of marks. -/
theorem forall_mem_of_all (hmark : ∀ c, isMark c → p c) {cs : List Char} (h : cs.all isMark) :
    ∀ c ∈ cs, p c :=
  fun c hc => hmark c (List.all_eq_true.1 h c hc)

/-- A list adds marks only to what its members print. -/
theorem forall_mem_listed (hmark : ∀ c, isMark c → p c) {print : α → List Char} {xs : List α}
    (h : ∀ x ∈ xs, ∀ c ∈ print x, p c) : ∀ c ∈ listed print xs, p c := by
  intro c hc
  rcases mem_listed hc with rfl | rfl | ⟨x, hx, hc⟩
  · exact hmark _ rfl
  · exact hmark _ rfl
  · exact h x hx c hc

/-- …and so does an optional part, if the one before it is a mark. -/
theorem forall_mem_optional (hmark : ∀ c, isMark c → p c) {mark : Char} {print : α → List Char}
    {x? : Option α} (hchar : isMark mark) (h : ∀ x ∈ x?, ∀ c ∈ print x, p c) :
    ∀ c ∈ optional mark print x?, p c := by
  cases x? with
  | none => simp [optional]
  | some x =>
    rw [optional, List.forall_mem_cons, List.forall_mem_cons]
    exact ⟨hmark _ rfl, hmark _ hchar, h x rfl⟩

end

/-! ## Values -/

namespace Value

/-- The texts that a value itself shows as they are: the name of a variable, the text of an enum
constant, the keys of an object. -/
def bareTexts : Value → List String
  | .var name => [name]
  | .enum text => [text]
  | .object fields => fields.map (·.name)
  | _ => []

section

variable {p : Char → Prop} (hmark : ∀ c, isMark c → p c)

include hmark

/-- An integer is spelled by digits and a minus sign, which are marks. -/
theorem forall_mem_repr (n : Int) : ∀ c ∈ n.repr.toList, p c := by
  have hdigits : ∀ n : Nat, ∀ c ∈ Nat.toDigits 10 n, p c := fun n c hc =>
    hmark c (isMark_of_isDigit (List.all_eq_true.1 (all_isDigit_toDigits n) c hc))
  rw [Int.repr_eq_if]
  split
  · simpa using hdigits _
  · simpa using ⟨hmark '-' rfl, hdigits _⟩

/-- So is a double, with a point and a marked exponent, or by a word. -/
theorem forall_mem_floatText (x : Float) : ∀ c ∈ (floatText x).toList, p c := by
  rcases floatText_cases x with h | h | ⟨n, hn, h⟩
  · rw [h]
    exact forall_mem_of_all hmark (by decide)
  · rw [h]
    exact forall_mem_of_all hmark (by decide)
  · intro c hc
    rcases hn.mem_text (h ▸ hc) with hdigit | rfl | rfl | rfl | rfl
    · exact hmark c (isMark_of_isDigit hdigit)
    all_goals exact hmark _ rfl

/-- **The characters of a value** are marks, those of its bare texts and those of its literals. -/
theorem forall_mem_chars {v : Value}
    (hbare : ∀ part ∈ v.parts, ∀ s ∈ part.bareTexts, ∀ c ∈ s.toList, p c)
    (hstring : ∀ s, .string s ∈ v.parts → ∀ c ∈ (Quoted.writes s).text.toList, p c) :
    ∀ c ∈ v.chars, p c := by
  induction v using Value.induct with
  | var name =>
    rw [chars_var, List.forall_mem_cons]
    exact ⟨hmark _ rfl, hbare _ (self_mem_parts _) name (by simp [bareTexts])⟩
  | enum s =>
    rw [chars_enum]
    exact hbare _ (self_mem_parts _) s (by simp [bareTexts])
  | string s =>
    rw [chars_string]
    exact hstring s (self_mem_parts _)
  | int n =>
    rw [chars_int]
    exact forall_mem_repr hmark n.toInt
  | float x =>
    rw [chars_float]
    exact forall_mem_floatText hmark x
  | bool b =>
    rw [chars_bool]
    exact forall_mem_of_all hmark (by cases b <;> decide)
  | null =>
    rw [chars_null]
    exact forall_mem_of_all hmark (by decide)
  | list items ih =>
    rw [chars_list, List.forall_mem_cons, List.forall_mem_append, List.forall_mem_singleton]
    refine ⟨hmark _ rfl, forall_mem_listed hmark fun v hv => ?_, hmark _ rfl⟩
    exact ih v hv (fun part hpart => hbare part (parts_subset_list hv hpart))
      (fun s hs => hstring s (parts_subset_list hv hs))
  | object fields ih =>
    rw [chars_object, List.forall_mem_cons, List.forall_mem_append, List.forall_mem_singleton]
    refine ⟨hmark _ rfl, forall_mem_listed hmark fun field hf => ?_, hmark _ rfl⟩
    rw [Arguments.entryChars, List.forall_mem_append, List.forall_mem_cons, List.forall_mem_cons]
    refine ⟨hbare _ (self_mem_parts _) field.name (List.mem_map_of_mem hf), hmark _ rfl,
      hmark _ rfl, ?_⟩
    exact ih field hf (fun part hpart => hbare part (parts_subset_object hf hpart))
      (fun s hs => hstring s (parts_subset_object hf hs))

end

end Value

/-! ## The line of a field -/

section

variable {p : Char → Prop} (hmark : ∀ c, isMark c → p c)
  (hliteral : ∀ s : String, ∀ c ∈ (Quoted.writes s).text.toList, p c)

include hmark hliteral

/-- An argument adds a mark to its name and to what is bare in its value. -/
theorem Arguments.forall_mem_entryChars {argument : Named Value}
    (hname : ∀ c ∈ argument.name.toList, p c)
    (hvalue : ∀ part ∈ argument.value.parts, ∀ s ∈ part.bareTexts, ∀ c ∈ s.toList, p c) :
    ∀ c ∈ entryChars argument, p c := by
  rw [entryChars, List.forall_mem_append, List.forall_mem_cons, List.forall_mem_cons]
  exact ⟨hname, hmark _ rfl, hmark _ rfl,
    Value.forall_mem_chars hmark hvalue fun s _ => hliteral s⟩

/-- An argument of a directive has no characters that one of a field would not have. -/
theorem Directive.forall_mem_entryChars {argument : Named Value}
    (hname : ∀ c ∈ argument.name.toList, p c)
    (hvalue : ∀ part ∈ argument.value.parts, ∀ s ∈ part.bareTexts, ∀ c ∈ s.toList, p c) :
    ∀ c ∈ entryChars argument, p c := by
  have hargument := Arguments.forall_mem_entryChars hmark hliteral hname hvalue
  have hsub : (entryChars argument).Sublist (Arguments.entryChars argument) :=
    ((List.filter_sublist.cons_cons _).cons_cons _).append_left _
  exact fun c hc => hargument c (hsub.subset hc)

end

theorem Item.forall_mem_chainChars {p : Char → Prop} (hmark : ∀ c, isMark c → p c)
    {chain : List String} (h : ∀ s ∈ chain, ∀ c ∈ s.toList, p c) : ∀ c ∈ chainChars chain, p c := by
  cases chain with
  | nil => simp [chainChars]
  | cons name names =>
    rw [chainChars, List.forall_mem_append, List.forall_mem_flatMap]
    refine ⟨h name List.mem_cons_self, fun s hs => ?_⟩
    rw [List.forall_mem_cons, List.forall_mem_cons]
    exact ⟨hmark _ rfl, hmark _ rfl, h s (List.mem_cons_of_mem _ hs)⟩

namespace Head

/-- All texts in a head that are printed as they are: its names, the types of its variables, and
those in the values of its arguments. -/
def bareTexts (head : Head) : List String :=
  head.names ++ (head.declared.getD []).map (·.value)
    ++ head.allArguments.flatMap fun argument => argument.value.parts.flatMap Value.bareTexts

variable {head : Head}

/-- The names of a head are printed bare. -/
theorem names_subset_bareTexts : head.names ⊆ head.bareTexts := fun _ hs =>
  List.mem_append_left _ (List.mem_append_left _ hs)

/-- …as are the types of its declared variables… -/
theorem mem_bareTexts_of_declared {declaration : Named String}
    (h : declaration ∈ head.declared.getD []) : declaration.value ∈ head.bareTexts :=
  List.mem_append_left _ (List.mem_append_right _ (List.mem_map_of_mem h))

/-- …and the names, enum constants and keys inside the values of its arguments. -/
theorem mem_bareTexts_of_argument {argument : Named Value} (h : argument ∈ head.allArguments)
    {part : Value} (hpart : part ∈ argument.value.parts) {s : String} (hs : s ∈ part.bareTexts) :
    s ∈ head.bareTexts :=
  List.mem_append_right _ <|
    List.mem_flatMap.2 ⟨argument, h, List.mem_flatMap.2 ⟨part, hpart, hs⟩⟩

section

variable {p : Char → Prop} (hmark : ∀ c, isMark c → p c)
  (hliteral : ∀ s : String, ∀ c ∈ (Quoted.writes s).text.toList, p c)
  (h : ∀ s ∈ head.bareTexts, ∀ c ∈ s.toList, p c)

include hmark hliteral h

/-- The characters of a directive come from what is bare in the head, or from literals. -/
theorem forall_mem_directive {directive : Directive} (hdirective : directive ∈ head.directive) :
    ∀ c ∈ directive.chars, p c := by
  rw [Directive.chars, List.forall_mem_append]
  refine ⟨h _ (names_subset_bareTexts (mem_names_of_directive hdirective)), ?_⟩
  cases harguments : directive.arguments with
  | none => simp [Directive.argumentsChars]
  | some arguments =>
    rw [Directive.argumentsChars, List.forall_mem_cons, List.forall_mem_append,
      List.forall_mem_singleton]
    refine ⟨hmark _ rfl, forall_mem_listed hmark fun argument hargument => ?_, hmark _ rfl⟩
    have hmem : argument ∈ head.allArguments :=
      List.mem_append_right _ (mem_directiveArguments hdirective harguments hargument)
    exact Directive.forall_mem_entryChars hmark hliteral
      (h _ (names_subset_bareTexts (mem_names_of_argument hmem)))
      fun part hpart s hs => h s (mem_bareTexts_of_argument hmem hpart hs)

/-- What is listed behind a field are its declarations or its arguments. -/
theorem forall_mem_entry {entries : List Entry} (hentries : entries ∈ head.attached.entries) :
    ∀ entry ∈ entries, ∀ c ∈ entry.chars, p c := by
  unfold attached at hentries
  split at hentries
  · next declarations hdeclared =>
    obtain rfl := Option.some.inj hentries
    rintro _ hentry
    obtain ⟨declaration, hdeclaration, rfl⟩ := List.mem_map.1 hentry
    have hmem : declaration ∈ head.declared.getD [] := by rwa [hdeclared]
    rw [Entry.chars, List.forall_mem_cons, List.forall_mem_append, List.forall_mem_cons,
      List.forall_mem_cons]
    exact ⟨hmark _ rfl, h _ (names_subset_bareTexts (mem_names_of_declared hmem)), hmark _ rfl,
      hmark _ rfl, h _ (mem_bareTexts_of_declared hmem)⟩
  · obtain ⟨arguments, harguments, rfl⟩ := Option.map_eq_some_iff.1 hentries
    rintro _ hentry
    obtain ⟨argument, hargument, rfl⟩ := List.mem_map.1 hentry
    have hmem := mem_allArguments harguments hargument
    exact Arguments.forall_mem_entryChars hmark hliteral
      (h _ (names_subset_bareTexts (mem_names_of_argument hmem)))
      fun part hpart s hs => h s (mem_bareTexts_of_argument hmem hpart hs)

/-- **What is attached to a field** has no other characters than the head gives it. -/
theorem forall_mem_attached : ∀ c ∈ head.attached.text.toList, p c := by
  rw [Attachment.toList_text, List.forall_mem_append]
  refine ⟨forall_mem_optional hmark rfl fun directive hdirective => ?_,
    forall_mem_optional hmark rfl fun entries hentries => ?_⟩
  · refine forall_mem_directive hmark hliteral h ?_
    unfold attached at hdirective
    split at hdirective
    · cases hdirective
    · exact hdirective
  · rw [List.forall_mem_append, List.forall_mem_singleton]
    exact ⟨forall_mem_listed hmark (forall_mem_entry hmark hliteral h hentries), hmark _ rfl⟩

/-- **The characters of the line of a field** are marks, those of its bare texts and those of
literals. -/
theorem forall_mem_token {name : String} (hname : ∀ c ∈ name.toList, p c) :
    ∀ c ∈ (head.token name).toList, p c := by
  have hchain := forall_mem_chain hname fun s hs => h s (names_subset_bareTexts hs)
  rw [token_eq, Item.toList_token, List.forall_mem_append]
  exact ⟨Item.forall_mem_chainChars hmark hchain, forall_mem_attached hmark hliteral h⟩

end

end Head

/-! ## The lines of a tree -/

namespace Item

variable {p : Char → Prop} {level : Nat}

/-- The lines of items are those of each of them. -/
theorem forall_mem_linesOf {items : List Item}
    (h : ∀ item ∈ items, ∀ line ∈ item.lines level, ∀ c ∈ line.text.toList, p c) :
    ∀ line ∈ linesOf level items, ∀ c ∈ line.text.toList, p c := by
  induction items with
  | nil => simp [linesOf]
  | cons item items ih =>
    rw [linesOf, List.forall_mem_append]
    exact ⟨h item List.mem_cons_self, ih fun item hitem => h item (List.mem_cons_of_mem _ hitem)⟩

/-- Lines in braces. -/
theorem forall_mem_braced (hmark : ∀ c, isMark c → p c) {text : String} {lines : List Line}
    (htext : ∀ c ∈ text.toList, p c) (h : ∀ line ∈ lines, ∀ c ∈ line.text.toList, p c) :
    ∀ line ∈ ⟨level, text ++ r" {"⟩ :: lines ++ [⟨level, r"}"⟩],
      ∀ c ∈ line.text.toList, p c := by
  rw [List.cons_append, List.forall_mem_cons, List.forall_mem_append, List.forall_mem_singleton]
  refine ⟨?_, h, by simpa using hmark '}' rfl⟩
  rw [String.toList_append, List.forall_mem_append]
  exact ⟨htext, by simpa using ⟨hmark ' ' rfl, hmark '{' rfl⟩⟩

end Item

namespace Node

/-- All texts at a node that are printed as they are: those in its head, the names of its fields and
the type conditions of its fragments. -/
def bareTexts (node : Node) : List String :=
  node.head.bareTexts ++ node.fields.map (·.name) ++ (node.fragments.getD []).map (·.typeCondition)

section

variable {node : Node}

theorem head_subset_bareTexts : node.head.bareTexts ⊆ node.bareTexts := fun _ hs =>
  List.mem_append_left _ (List.mem_append_left _ hs)

/-- The names of fields are printed bare. -/
theorem mem_bareTexts_of_field {field : Field} (h : field ∈ node.fields) :
    field.name ∈ node.bareTexts :=
  List.mem_append_left _ (List.mem_append_right _ (List.mem_map_of_mem h))

/-- …and those of the types that fragments are on. -/
theorem mem_bareTexts_of_fragment {fragment : Fragment} (h : fragment ∈ node.fragments.getD []) :
    fragment.typeCondition ∈ node.bareTexts :=
  List.mem_append_right _ (List.mem_map_of_mem h)

end

variable {p : Char → Prop} (hmark : ∀ c, isMark c → p c)
  (hliteral : ∀ s : String, ∀ c ∈ (Quoted.writes s).text.toList, p c) {root : Node}
  (h : ∀ node ∈ root.subnodes, ∀ s ∈ node.bareTexts, ∀ c ∈ s.toList, p c)

include hmark hliteral h

/-- **The characters of what is printed of a node.** -/
theorem forall_mem_selection (ignored : List String) : ∀ item ∈ root.selection ignored,
    ∀ level, ∀ line ∈ item.lines level, ∀ c ∈ line.text.toList, p c := by
  refine @forall_selection ignored _ _ _ ?leaf ?field ?fragment root h fun node hnode =>
    h node (descendants_subset_subnodes _ hnode)
  case leaf =>
    intro node name value hnode hmem level
    have hname := hnode name (mem_bareTexts_of_field hmem)
    rw [Item.lines, List.forall_mem_singleton, Item.toList_token, List.forall_mem_append]
    exact ⟨Item.forall_mem_chainChars hmark (by simpa using hname), by simp [Attachment.text]⟩
  case field =>
    intro node name child hnode hchild hmem ih level
    have hname := hnode name (mem_bareTexts_of_field hmem)
    have htoken := Head.forall_mem_token hmark hliteral
      (fun s hs => hchild s (head_subset_bareTexts hs)) hname
    rw [Head.token_eq] at htoken
    rw [fieldItem_eq]
    split
    · exact Item.forall_mem_braced hmark htoken (Item.forall_mem_linesOf fun item hitem =>
        ih item hitem (level + 1))
    · rwa [Item.lines, List.forall_mem_singleton]
  case fragment =>
    intro node condition child hnode hchild hmem ih level
    have hcondition := hnode condition (mem_bareTexts_of_fragment hmem)
    refine Item.forall_mem_braced hmark ?_ (Item.forall_mem_linesOf fun item hitem =>
      ih item hitem (level + 1))
    rw [String.toList_append, List.forall_mem_append]
    exact ⟨forall_mem_of_all hmark (by decide), hcondition⟩

/-- **The characters of the lines of a tree** are marks, those of its bare texts and those of
literals. -/
theorem forall_mem_lines (ignored : List String) :
    ∀ line ∈ root.lines ignored, ∀ c ∈ line.text.toList, p c := by
  rw [lines_eq_linesOf]
  exact Item.forall_mem_linesOf fun item hitem =>
    forall_mem_selection hmark hliteral h ignored item (List.mem_append_left _ hitem) 0

end Node

end QueryTree

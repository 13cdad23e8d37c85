import QueryTree.Proofs.Reading.Value
import QueryTree.Proofs.Rendering
import QueryTree.Proofs.Unquoted

/-!
# Proofs/Reading/Item — fields and fragments told apart

On a single line every part of a field but its names stands behind a blank, and the character after
the blank tells which part it is: `@` a directive, `(` a list of entries, a brace a selection or the
end of one, anything else the next field or fragment. `NotBehind` states what must not come next for
a part to be known as missing.
-/

namespace QueryTree

/-- A text that is at its end or goes on with a blank. -/
def Gapped (rest : List Char) : Prop :=
  Ends (· != ' ') rest

theorem gapped_cons (rest : List Char) : Gapped (' ' :: rest) :=
  ends_cons.2 (by decide)

theorem Gapped.ends {kind : Char → Bool} (hkind : kind ' ' = false) {rest : List Char}
    (h : Gapped rest) : Ends kind rest := by
  intro c hc
  have hblank : c = ' ' := by simpa using h c hc
  rw [hblank, hkind]

/-! ## Entries -/

/-- A type that cannot run into what follows it. One of letters, digits, `_`, `[`, `]` and `!` is
such a type. -/
def isTypeText (type : String) : Bool :=
  type.toList.all fun c => c != ',' && c != ')'

namespace Entry

/-- An entry whose text is no other's. -/
def Distinct : Entry → Prop
  | declaration d => Name.isName d.name ∧ isTypeText d.value
  | argument a => Name.isName a.name ∧ a.value.Distinct

theorem Distinct.exists_lead_ne {entry : Entry} (h : entry.Distinct) :
    ∃ c cs, entry.chars = c :: cs ∧ c ≠ ')' := by
  cases entry with
  | declaration d => exact ⟨'$', _, rfl, by decide⟩
  | argument a => exact Value.exists_lead_entryChars h.1 ')' (by decide)

/-- A declaration begins with a dollar sign and an argument does not. -/
theorem chars_declaration_ne {d : Named String} {a : Named Value} (h : Name.isName a.name)
    (rest rest' : List Char) :
    (declaration d).chars ++ rest ≠ (argument a).chars ++ rest' := by
  obtain ⟨c, cs, hcs, hc⟩ := Value.exists_lead_entryChars h '$' (by decide)
  rw [chars, chars, hcs, List.cons_append, List.cons_append, ne_eq, List.cons.injEq]
  exact fun heq => hc heq.1.symm

theorem readable {entry : Entry} (h : entry.Distinct) :
    Readable chars Distinct (EntryEnds ')') entry := by
  intro entry' rest rest' h' hrest hrest' heq
  cases entry with
  | declaration d =>
    cases entry' with
    | argument a => exact absurd heq (chars_declaration_ne h'.1 _ _)
    | declaration d' =>
      have hcolon : ∀ rest : List Char, Ends Name.isRest (':' :: rest) := fun _ =>
        ends_cons.2 (by decide)
      simp only [chars, List.cons_append, List.append_assoc, List.cons.injEq, true_and] at heq
      obtain ⟨hname, heq⟩ := Name.readable_name h.1 h'.1 (hcolon _) (hcolon _) heq
      simp only [List.cons.injEq, true_and] at heq
      obtain ⟨hvalue, hrest⟩ := readable_word h.2 h'.2 (hrest.ends (by decide) (by decide))
        (hrest'.ends (by decide) (by decide)) heq
      cases d
      cases hname
      cases String.toList_injective hvalue
      exact ⟨rfl, hrest⟩
  | argument a =>
    cases entry' with
    | declaration d => exact absurd heq.symm (chars_declaration_ne h.1 _ _)
    | argument a' =>
      have hvalue := (Value.readable h.2).imp fun _ => Value.entryEnds_ends ')' (by decide)
      obtain ⟨rfl, hrest⟩ := Value.readable_entry h.1 hvalue h' hrest hrest' heq
      exact ⟨rfl, hrest⟩

/-- **What stands in parentheses is told apart.** -/
theorem readable_entries {entries : List Entry} (h : ∀ entry ∈ entries, entry.Distinct) :
    Readable (fun entries => listed chars entries ++ [')'])
      (fun entries => ∀ entry ∈ entries, entry.Distinct) (fun _ => True) entries :=
  readable_listed ')' (by decide) (fun _ => Distinct.exists_lead_ne) h fun entry hentry =>
    readable (h entry hentry)

end Entry

/-! ## Directives -/

namespace Directive

/-- An argument that is printed in a directive as anywhere else, and whose text is no other's. -/
structure DistinctArgument (argument : Named Value) : Prop where
  name : Name.isName argument.name
  value : argument.value.Distinct
  unquoted : ∀ part ∈ argument.value.parts, part.isString = false

/-- A directive whose text is no other's. -/
structure Distinct (directive : Directive) : Prop where
  name : Name.isName directive.name
  arguments : ∀ arguments ∈ directive.arguments, ∀ argument ∈ arguments, DistinctArgument argument

theorem DistinctArgument.entryChars_eq {argument : Named Value} (h : DistinctArgument argument) :
    Directive.entryChars argument = Arguments.entryChars argument :=
  Directive.entryChars_eq (fun part hpart => (h.value part hpart).1) h.unquoted

theorem readable_arguments {arguments : Arguments}
    (h : ∀ argument ∈ arguments, DistinctArgument argument) :
    Readable (fun arguments => listed entryChars arguments ++ [')'])
      (fun arguments => ∀ argument ∈ arguments, DistinctArgument argument) (fun _ => True)
      arguments := by
  intro arguments' rest rest' h' hrest hrest' heq
  change listed entryChars arguments ++ [')'] ++ rest
    = listed entryChars arguments' ++ [')'] ++ rest' at heq
  rw [listed_congr fun argument hargument => (h argument hargument).entryChars_eq,
    listed_congr fun argument hargument => (h' argument hargument).entryChars_eq] at heq
  refine readable_listed ')' (by decide)
    (fun a (ha : Name.isName a.name ∧ a.value.Distinct) =>
      Value.exists_lead_entryChars ha.1 ')' (by decide))
    (fun a ha => ⟨(h a ha).name, (h a ha).value⟩) (fun a ha => ?_)
    (fun a ha => ⟨(h' a ha).name, (h' a ha).value⟩) hrest hrest' heq
  exact Value.readable_entry (h a ha).name
    ((Value.readable (h a ha).value).imp fun _ => Value.entryEnds_ends ')' (by decide))

/-- **Directives are told apart.** -/
theorem readable {directive : Directive} (h : directive.Distinct) :
    Readable chars Distinct Gapped directive := by
  rintro ⟨name', arguments'⟩ rest rest' h' hrest hrest' heq
  obtain ⟨name, arguments⟩ := directive
  have hends : ∀ {arguments : Option Arguments} {rest : List Char}, Gapped rest →
      Ends Name.isRest (argumentsChars arguments ++ rest) := by
    intro arguments rest hrest
    cases arguments with
    | none => exact hrest.ends (by decide)
    | some arguments => exact ends_cons.2 (by decide)
  have hparen : ∀ {rest rest' : List Char}, Gapped rest → rest ≠ '(' :: rest' := by
    rintro rest rest' hrest rfl
    exact absurd (ends_cons.1 hrest) (by decide)
  simp only [chars, List.append_assoc] at heq
  obtain ⟨hname, htail⟩ := Name.readable_name h.name h'.name (hends hrest) (hends hrest') heq
  cases hname
  cases arguments with
  | none =>
    cases arguments' with
    | none => exact ⟨rfl, htail⟩
    | some arguments' => exact absurd htail (hparen hrest)
  | some arguments =>
    cases arguments' with
    | none => exact absurd htail.symm (hparen hrest')
    | some arguments' =>
      simp only [argumentsChars, List.cons_append, List.cons.injEq, true_and] at htail
      obtain ⟨harguments, hrest⟩ := readable_arguments (h.arguments _ rfl) (h'.arguments _ rfl)
        trivial trivial htail
      cases harguments
      exact ⟨rfl, hrest⟩

end Directive

/-! ## Fields and fragments -/

/-- An attachment whose text is no other's. -/
structure Attachment.Distinct (attachment : Attachment) : Prop where
  directive : ∀ directive ∈ attachment.directive, directive.Distinct
  entries : ∀ entries ∈ attachment.entries, ∀ entry ∈ entries, entry.Distinct

namespace Item

/-- An item whose text is no other's. -/
inductive Distinct : Item → Prop where
  | field {chain : List String} {attachment : Attachment} {selection : Option (List Item)}
    (ne_nil : chain ≠ []) (names : ∀ name ∈ chain, Name.isName name)
    (attachment_distinct : attachment.Distinct)
    (items : ∀ items, selection = some items → ∀ item ∈ items, Distinct item) :
    Distinct (.field chain attachment selection)
  | fragment {condition : String} {items : List Item} (name : Name.isName condition)
    (items_distinct : ∀ item ∈ items, Distinct item) : Distinct (.fragment condition items)

/-- What may follow an item: no part of a field, the next item or a closing brace. -/
def Follows (rest : List Char) : Prop :=
  NotBehind '@' rest ∧ NotBehind '(' rest ∧ NotBehind '{' rest ∧ Gapped rest

/-- The end of a selection, or of the whole text. -/
def Closes (rest : List Char) : Prop :=
  rest = [] ∨ ∃ rest', rest = ' ' :: '}' :: rest'

theorem notBehind_cons {mark c : Char} (h : c ≠ mark) (rest : List Char) :
    NotBehind mark (' ' :: c :: rest) := by
  intro rest' heq
  simp only [List.cons.injEq, true_and] at heq
  exact h heq.1

theorem follows_cons {c : Char} (hat : c ≠ '@') (hparen : c ≠ '(') (hbrace : c ≠ '{')
    (rest : List Char) : Follows (' ' :: c :: rest) :=
  ⟨notBehind_cons hat rest, notBehind_cons hparen rest, notBehind_cons hbrace rest,
    gapped_cons _⟩

theorem Closes.follows {rest : List Char} (h : Closes rest) : Follows rest := by
  rcases h with rfl | ⟨rest', rfl⟩
  · exact ⟨by simp [NotBehind], by simp [NotBehind], by simp [NotBehind], ends_nil _⟩
  · exact follows_cons (by decide) (by decide) (by decide) rest'

/-! ### Names -/

theorem readable_names : ∀ {names : List String}, (∀ name ∈ names, Name.isName name) →
    Readable (fun names : List String => names.flatMap fun name => ':' :: ' ' :: name.toList)
      (fun names => ∀ name ∈ names, Name.isName name) Gapped names
  | [], _ => by
      intro names' rest rest' _ hrest _ heq
      cases names' with
      | nil => exact ⟨rfl, heq⟩
      | cons name' names' =>
        simp only [List.flatMap_nil, List.flatMap_cons, List.nil_append, List.cons_append] at heq
        rw [heq] at hrest
        exact absurd (ends_cons.1 hrest) (by decide)
  | name :: names, h => by
      intro names' rest rest' h' hrest hrest' heq
      have hends : ∀ (names : List String) {rest : List Char}, Gapped rest →
          Ends Name.isRest
            ((names.flatMap fun name : String => ':' :: ' ' :: name.toList) ++ rest) := by
        intro names rest hrest
        cases names with
        | nil => exact hrest.ends (by decide)
        | cons name names => exact ends_cons.2 (by decide)
      cases names' with
      | nil =>
        simp only [List.flatMap_nil, List.flatMap_cons, List.nil_append, List.cons_append] at heq
        rw [← heq] at hrest'
        exact absurd (ends_cons.1 hrest') (by decide)
      | cons name' names' =>
        simp only [List.flatMap_cons, List.cons_append, List.append_assoc, List.cons.injEq,
          true_and] at heq
        obtain ⟨rfl, htail⟩ := Name.readable_name (h name List.mem_cons_self)
          (h' name' List.mem_cons_self) (hends names hrest) (hends names' hrest') heq
        obtain ⟨rfl, hrest⟩ := readable_names (fun n hn => h n (List.mem_cons_of_mem _ hn))
          (fun n hn => h' n (List.mem_cons_of_mem _ hn)) hrest hrest' htail
        exact ⟨rfl, hrest⟩

/-- **The names of a field are told apart**: all but the first stand behind a colon. -/
theorem readable_chain {chain : List String} (hne : chain ≠ [])
    (h : ∀ name ∈ chain, Name.isName name) :
    Readable chainChars (fun chain => chain ≠ [] ∧ ∀ name ∈ chain, Name.isName name) Gapped
      chain := by
  rintro chain' rest rest' ⟨hne', h'⟩ hrest hrest' heq
  obtain ⟨name, names, rfl⟩ := List.exists_cons_of_ne_nil hne
  obtain ⟨name', names', rfl⟩ := List.exists_cons_of_ne_nil hne'
  -- a colon before the first name too makes both chains ones of further names
  exact readable_names h h' hrest hrest' (by
    simpa [chainChars] using congrArg (':' :: ' ' :: ·) heq)

/-! ### Attachments -/

/-- **An attachment is told apart**, by the marks of its two parts. -/
theorem readable_attachment {attachment : Attachment} (h : attachment.Distinct) :
    Readable (fun attachment => attachment.text.toList) Attachment.Distinct
      (fun rest => NotBehind '@' rest ∧ NotBehind '(' rest ∧ Gapped rest) attachment := by
  rintro ⟨directive', entries'⟩ rest rest' h' hrest hrest' heq
  obtain ⟨directive, entries⟩ := attachment
  have hentries : ∀ {entries : Option (List Entry)} {rest : List Char},
      NotBehind '@' rest ∧ NotBehind '(' rest ∧ Gapped rest →
        NotBehind '@' (optional '(' (fun entries => listed Entry.chars entries ++ [')']) entries
          ++ rest) ∧
        Gapped (optional '(' (fun entries => listed Entry.chars entries ++ [')']) entries
          ++ rest) := by
    intro entries rest hrest
    cases entries with
    | none => exact ⟨hrest.1, hrest.2.2⟩
    | some entries => exact ⟨notBehind_cons (by decide) _, gapped_cons _⟩
  simp only [Attachment.toList_text, List.append_assoc] at heq
  obtain ⟨hdirective, htail⟩ :=
    readable_optional (fun d hd => Directive.readable (h.directive d hd)) h'.directive
      (hentries hrest) (hentries hrest') heq
  obtain ⟨hentries, hrest⟩ :=
    readable_optional (fun es hes => Entry.readable_entries (h.entries es hes)) h'.entries
      ⟨hrest.2.1, trivial⟩ ⟨hrest'.2.1, trivial⟩ htail
  cases hdirective
  cases hentries
  exact ⟨rfl, hrest⟩

/-! ### Items -/

variable (level : Nat)

theorem spelling_field_compact (chain : List String) (attachment : Attachment)
    (selection : Option (List Item)) :
    spelling false level (.field chain attachment selection)
      = ' ' :: (chainChars chain ++ (attachment.text.toList
          ++ optional '{' (bracedChars false level) selection)) :=
  spelling_field false level chain attachment selection

theorem spelling_fragment_compact (condition : String) (items : List Item) :
    spelling false level (.fragment condition items)
      = ' ' :: '.' :: '.' :: '.' :: ' ' :: 'o' :: 'n' :: ' ' :: (condition.toList
          ++ ' ' :: '{' :: bracedChars false level items) :=
  spelling_fragment false level condition items

/-- An item begins, behind a blank, with a Name or with dots. -/
theorem Distinct.exists_lead {item : Item} (h : item.Distinct) :
    ∃ c cs, spelling false level item = ' ' :: c :: cs ∧ (Name.isStart c ∨ c = '.') := by
  cases h with
  | field hne hnames _ _ =>
    obtain ⟨name, names, rfl⟩ := List.exists_cons_of_ne_nil hne
    obtain ⟨c, cs, hcs, hc, -⟩ := Name.exists_cons_of_isName (hnames name List.mem_cons_self)
    rw [spelling_field_compact, chainChars, hcs, List.cons_append, List.cons_append]
    exact ⟨c, _, rfl, .inl hc⟩
  | fragment _ _ => exact ⟨'.', _, spelling_fragment_compact level _ _, .inr rfl⟩

/-- Items followed by the end of a selection are followed as an item may be. -/
theorem follows_spellings {items : List Item} (h : ∀ item ∈ items, item.Distinct)
    {rest : List Char} (hrest : Closes rest) : Follows (spellings false level items ++ rest) := by
  cases items with
  | nil => exact hrest.follows
  | cons item items =>
    obtain ⟨c, cs, hcs, hc⟩ := (h item List.mem_cons_self).exists_lead level
    have hne : ∀ mark : Char, Name.isStart mark = false → mark ≠ '.' → c ≠ mark := by
      rintro mark hstart hdot rfl
      rcases hc with hc | hc
      · rw [hstart] at hc
        cases hc
      · exact hdot hc
    rw [spellings, List.flatMap_cons, hcs]
    exact follows_cons (hne _ (by decide) (by decide)) (hne _ (by decide) (by decide))
      (hne _ (by decide) (by decide)) _

/-- No item is the end of a selection. -/
theorem Distinct.append_ne {item : Item} (h : item.Distinct) {rest : List Char}
    (hrest : Closes rest) (rest' : List Char) : spelling false level item ++ rest' ≠ rest := by
  obtain ⟨c, cs, hcs, hc⟩ := h.exists_lead level
  rw [hcs]
  rcases hrest with rfl | ⟨rest, rfl⟩
  · simp
  · simp only [List.cons_append, ne_eq, List.cons.injEq, true_and]
    rintro ⟨rfl, -⟩
    exact absurd hc (by decide)

/-- **Items are told apart one after another**, if each of them is. -/
theorem readable_spellings : ∀ {items : List Item}, (∀ item ∈ items, item.Distinct) →
    (∀ item ∈ items, Readable (spelling false level) Distinct Follows item) →
      Readable (spellings false level) (fun items => ∀ item ∈ items, item.Distinct) Closes items
  | [], _, _ => by
      intro items' rest rest' h' hrest hrest' heq
      cases items' with
      | nil => exact ⟨rfl, heq⟩
      | cons item' items' =>
        rw [spellings, spellings, List.flatMap_cons, List.append_assoc] at heq
        exact absurd heq.symm ((h' item' List.mem_cons_self).append_ne level hrest _)
  | item :: items, h, hitems => by
      intro items' rest rest' h' hrest hrest' heq
      rw [spellings, List.flatMap_cons, List.append_assoc] at heq
      cases items' with
      | nil => exact absurd heq ((h item List.mem_cons_self).append_ne level hrest' _)
      | cons item' items' =>
        have htail : ∀ item ∈ items, item.Distinct := fun i hi => h i (List.mem_cons_of_mem _ hi)
        have htail' : ∀ item ∈ items', item.Distinct := fun i hi => h' i (List.mem_cons_of_mem _ hi)
        rw [spellings, List.flatMap_cons, List.append_assoc] at heq
        obtain ⟨rfl, heqtail⟩ := hitems item List.mem_cons_self (h' item' List.mem_cons_self)
          (follows_spellings level htail hrest) (follows_spellings level htail' hrest') heq
        obtain ⟨rfl, hrest⟩ := readable_spellings htail
          (fun i hi => hitems i (List.mem_cons_of_mem _ hi)) htail' hrest hrest' heqtail
        exact ⟨rfl, hrest⟩

/-- A selection is told apart with its closing brace. -/
theorem readable_braced {items : List Item} (h : ∀ item ∈ items, item.Distinct)
    (hitems : ∀ item ∈ items, Readable (spelling false (level + 1)) Distinct Follows item) :
    Readable (bracedChars false level) (fun items => ∀ item ∈ items, item.Distinct) (fun _ => True)
      items := by
  intro items' rest rest' h' _ _ heq
  simp only [bracedChars, List.append_assoc] at heq
  obtain ⟨hitems, hrest⟩ :=
    readable_spellings (level + 1) h hitems h' (.inr ⟨rest, rfl⟩) (.inr ⟨rest', rfl⟩) heq
  exact ⟨hitems, by simpa using hrest⟩

/-- A field begins with a Name and a fragment does not. -/
theorem spelling_field_ne {chain : List String} {attachment : Attachment}
    {selection : Option (List Item)} (h : Distinct (.field chain attachment selection))
    (condition : String) (items : List Item) (rest rest' : List Char) :
    spelling false level (.field chain attachment selection) ++ rest
      ≠ spelling false level (.fragment condition items) ++ rest' := by
  cases h with
  | field hne hnames _ _ =>
    obtain ⟨name, names, rfl⟩ := List.exists_cons_of_ne_nil hne
    obtain ⟨c, cs, hcs, hc, -⟩ := Name.exists_cons_of_isName (hnames name List.mem_cons_self)
    rw [spelling_field_compact, chainChars, hcs, spelling_fragment_compact]
    simp only [List.cons_append, ne_eq, List.cons.injEq, true_and]
    rintro ⟨rfl, -⟩
    exact absurd hc (by decide)

/-- A field is told apart if its selection is. -/
theorem readable_field {chain : List String} {attachment : Attachment}
    {selection : Option (List Item)} (h : Distinct (.field chain attachment selection))
    (hselection : ∀ items ∈ selection, Readable (bracedChars false level)
      (fun items => ∀ item ∈ items, item.Distinct) (fun _ => True) items) :
    Readable (spelling false level) Distinct Follows (.field chain attachment selection) := by
  intro item' rest rest' h' hrest hrest' heq
  cases item' with
  | fragment condition items => exact absurd heq (spelling_field_ne level h condition items _ _)
  | field chain' attachment' selection' =>
    have hafter : ∀ {selection : Option (List Item)} {rest : List Char}, Follows rest →
        NotBehind '@' (optional '{' (bracedChars false level) selection ++ rest) ∧
        NotBehind '(' (optional '{' (bracedChars false level) selection ++ rest) ∧
        Gapped (optional '{' (bracedChars false level) selection ++ rest) := by
      intro selection rest hrest
      cases selection with
      | none => exact ⟨hrest.1, hrest.2.1, hrest.2.2.2⟩
      | some items =>
        exact ⟨notBehind_cons (by decide) _, notBehind_cons (by decide) _, gapped_cons _⟩
    have hgap : ∀ {attachment : Attachment} {rest : List Char}, Gapped rest →
        Gapped (attachment.text.toList ++ rest) := by
      rintro ⟨directive, entries⟩ rest hrest
      rw [Attachment.toList_text]
      cases directive with
      | some directive => exact gapped_cons _
      | none =>
        cases entries with
        | some entries => exact gapped_cons _
        | none => exact hrest
    obtain ⟨hne, hnames, hattachment, hitems⟩ := h
    obtain ⟨hne', hnames', hattachment', hitems'⟩ := h'
    simp only [spelling_field_compact, List.cons_append, List.append_assoc, List.cons.injEq,
      true_and] at heq
    obtain ⟨rfl, heq₁⟩ := readable_chain hne hnames ⟨hne', hnames'⟩ (hgap (hafter hrest).2.2)
      (hgap (hafter hrest').2.2) heq
    obtain ⟨rfl, heq₂⟩ := readable_attachment hattachment hattachment' (hafter hrest)
      (hafter hrest') heq₁
    obtain ⟨rfl, hrest⟩ := readable_optional hselection hitems' ⟨hrest.2.2.1, trivial⟩
      ⟨hrest'.2.2.1, trivial⟩ heq₂
    exact ⟨rfl, hrest⟩

/-- **A field or a fragment is told apart**, with all that is in it. -/
theorem readable {item : Item} (h : item.Distinct) :
    Readable (spelling false level) Distinct Follows item := by
  induction item using Item.induct generalizing level with
  | bare chain attachment => exact readable_field level h (by simp)
  | braced chain attachment items ih =>
    have hitems : ∀ item ∈ items, item.Distinct := by
      obtain ⟨_, _, _, hitems⟩ := h
      exact hitems items rfl
    refine readable_field level h fun items' hitems' => ?_
    obtain rfl := Option.some.inj hitems'
    exact readable_braced level hitems fun item hitem =>
      ih item hitem (level + 1) (hitems item hitem)
  | fragment condition items ih =>
    intro item' rest rest' h' hrest hrest' heq
    cases item' with
    | field chain attachment selection =>
      exact absurd heq.symm (spelling_field_ne level h' condition items _ _)
    | fragment condition' items' =>
      obtain _ | ⟨hname, hitems⟩ := h
      obtain _ | ⟨hname', hitems'⟩ := h'
      simp only [spelling_fragment_compact, List.cons_append, List.append_assoc, List.cons.injEq,
        true_and] at heq
      obtain ⟨rfl, heq₁⟩ := Name.readable_name hname hname' ((gapped_cons _).ends (by decide))
        ((gapped_cons _).ends (by decide)) heq
      simp only [List.cons.injEq, true_and] at heq₁
      obtain ⟨rfl, hrest⟩ := readable_braced level hitems
        (fun item hitem => ih item hitem (level + 1) (hitems item hitem)) hitems' trivial trivial
        heq₁
      exact ⟨rfl, hrest⟩

end Item

end QueryTree

import QueryTree.Proofs.Grammar.Value
import QueryTree.Proofs.Rendering

/-!
# Proofs/Grammar/Selection — fields and fragments are derived

A field of the grammar has at most an alias before its name, and its arguments stand before its
directives; a field that is printed may have names on both sides and its directive comes first.
`Item.Derived` is what is left when both are kept out. Lines may be joined either way, since nothing
but what is skipped stands between them.
-/

namespace QueryTree

open Grammar

/-! ## Attachments -/

namespace Attachment

/-- What may stand behind the name of a field: a directive, or arguments. -/
inductive OfField : Attachment → Prop where
  | bare : OfField ⟨none, none⟩
  | directive {directive : Directive} (derived : directive.Derived) : OfField ⟨some directive, none⟩
  | arguments {arguments : Arguments} (ne_nil : arguments ≠ [])
    (wellNamed : ∀ argument ∈ arguments, Arguments.WellNamed argument) :
    OfField ⟨none, some (arguments.map .argument)⟩

/-- What may stand behind the kind of an operation: a directive, or declared variables. -/
inductive OfOperation : Attachment → Prop where
  | bare : OfOperation ⟨none, none⟩
  | directive {directive : Directive} (derived : directive.Derived) :
    OfOperation ⟨some directive, none⟩
  | declarations {declarations : Variables} (ne_nil : declarations ≠ [])
    (names : ∀ declaration ∈ declarations, Name.isName declaration.name)
    (types : ∀ declaration ∈ declarations, Sentence .type declaration.value.toList) :
    OfOperation ⟨none, some (declarations.map .declaration)⟩

theorem reads_bare (n : Nonterminal) : ∃ us vs, Derives (.option n) us
    ∧ Derives (.many .directive) vs ∧ Spells (text ⟨none, none⟩).toList (us ++ vs) :=
  ⟨[], [], .none n, .nil _, .nil⟩

theorem reads_directive (n : Nonterminal) {directive : Directive} (h : directive.Derived) :
    ∃ us vs, Derives (.option n) us ∧ Derives (.many .directive) vs
      ∧ Spells (text ⟨some directive, none⟩).toList (us ++ vs) := by
  obtain ⟨tokens, hderives, hspells⟩ := h.reads
  have hmany : Derives (.many .directive) (tokens ++ []) := .cons hderives (.nil _)
  rw [List.append_nil] at hmany
  refine ⟨[], tokens, .none n, hmany, ?_⟩
  rw [toList_text, optional, optional, List.append_nil]
  exact .skip (by decide) hspells

/-- Nothing that stands behind a name runs into it. -/
theorem apart_text (attachment : Attachment) : Apart attachment.text.toList := by
  have hoptional : ∀ {α : Type} {mark : Char} {print : α → List Char} (x : Option α),
      Apart (optional mark print x) := by
    intro α mark print x
    cases x with
    | none => exact apart_nil
    | some x => exact apart_cons (by decide) _
  rw [toList_text]
  exact (hoptional _).append (hoptional _)

theorem OfField.reads {attachment : Attachment} (h : attachment.OfField) :
    ∃ us vs, Derives (.option .arguments) us ∧ Derives (.many .directive) vs
      ∧ Spells attachment.text.toList (us ++ vs) := by
  cases h with
  | bare => exact reads_bare _
  | directive derived => exact reads_directive _ derived
  | arguments hne hargs =>
    obtain ⟨tokens, hderives, hspells⟩ := Arguments.reads_listed hne fun a ha => (hargs a ha).reads
    refine ⟨tokens, [], .some hderives, .nil _, ?_⟩
    rw [toList_text, optional, optional, listed_map, List.append_nil]
    exact .skip (by decide) hspells

theorem OfOperation.reads {attachment : Attachment} (h : attachment.OfOperation) :
    ∃ us vs, Derives (.option .declarations) us ∧ Derives (.many .directive) vs
      ∧ Spells attachment.text.toList (us ++ vs) := by
  cases h with
  | bare => exact reads_bare _
  | directive derived => exact reads_directive _ derived
  | declarations hne hnames htypes =>
    obtain ⟨tokens, hderives, hspells⟩ := Variables.reads_listed hne fun d hd =>
      Variables.reads_declaration (hnames d hd) (htypes d hd)
    refine ⟨tokens, [], .some hderives, .nil _, ?_⟩
    rw [toList_text, optional, optional, listed_map, List.append_nil]
    exact .skip (by decide) hspells

end Attachment

/-! ## Items -/

theorem Line.all_isIgnored_gap (pretty : Bool) (level : Nat) :
    (gap pretty level).all isIgnored := by
  cases pretty with
  | false => rfl
  | true =>
    rw [gap, List.all_cons, if_pos rfl, List.all_replicate]
    split <;> rfl

namespace Item

variable (pretty : Bool) (level : Nat)

/-- A line behind others does not run into them. -/
theorem apart_gap_append (text : List Char) : Apart (Line.gap pretty level ++ text) := by
  cases pretty <;> exact apart_cons (by decide) _

theorem apart_spelling (item : Item) : Apart (spelling pretty level item) := by
  cases item with
  | field chain attachment selection =>
    rw [spelling_field]
    exact apart_gap_append _ _ _
  | fragment condition items =>
    rw [spelling_fragment]
    exact apart_gap_append _ _ _

/-- The names of a field in the grammar: its own, and an alias before it. -/
theorem reads_chain {aliasName : Option String} {name : String}
    (halias : ∀ a ∈ aliasName, Name.isName a) (hname : Name.isName name) :
    ∃ ts, Derives (.option .aliasName) ts
      ∧ Spells (chainChars (aliasName.toList ++ [name])) (ts ++ [.name name]) := by
  cases aliasName with
  | none =>
    refine ⟨[], .none _, ?_⟩
    simpa [chainChars] using Spells.name hname
  | some a =>
    refine ⟨_, .some (.aliasName a), ?_⟩
    simpa [chainChars] using Spells.name_append (halias a rfl) (apart_cons (by decide) _)
      (.punctuator (by decide) (.skip (by decide) (.name hname)))

/-- A selection in braces, if there is anything in it. -/
theorem reads_braced {items : List Item} (hne : items ≠ [])
    (h : ∀ item ∈ items, Reads .selection (spelling pretty (level + 1) item)) :
    Reads .selectionSet (' ' :: '{' :: bracedChars pretty level items) := by
  obtain ⟨item, items, rfl⟩ := List.exists_cons_of_ne_nil hne
  obtain ⟨ts, hitem, hspells⟩ := h item List.mem_cons_self
  obtain ⟨htail, us, hitems, hspells'⟩ := reads_flatMap (apart_spelling pretty (level + 1))
    fun i hi => h i (List.mem_cons_of_mem _ hi)
  have hclosing : Spells (Line.gap pretty level ++ ['}']) [.punctuator '}'] :=
    Spells.skips (.punctuator (by decide) .nil) (Line.all_isIgnored_gap pretty level)
  rw [bracedChars, spellings, List.flatMap_cons]
  exact ⟨_, .selectionSet hitem hitems, .skip (by decide) <| .punctuator (by decide) <|
    (hspells.append htail hspells').append (apart_gap_append pretty level _) hclosing⟩

/-- **An item of the grammar.** -/
inductive Derived : Item → Prop where
  | field {aliasName : Option String} {name : String} {attachment : Attachment}
    {selection : Option (List Item)} (aliasName_isName : ∀ a ∈ aliasName, Name.isName a)
    (name_isName : Name.isName name) (ofField : attachment.OfField)
    (ne_nil : ∀ items, selection = some items → items ≠ [])
    (items : ∀ items, selection = some items → ∀ item ∈ items, Derived item) :
    Derived (.field (aliasName.toList ++ [name]) attachment selection)
  | fragment {condition : String} {items : List Item} (isName : Name.isName condition)
    (ne_nil : items ≠ []) (items_derived : ∀ item ∈ items, Derived item) :
    Derived (.fragment condition items)

/-- The selection of a field, if it has one. -/
theorem reads_selection {selection : Option (List Item)}
    (h : ∀ items, selection = some items →
      Reads .selectionSet (' ' :: '{' :: bracedChars pretty level items)) :
    Reads (.option .selectionSet) (optional '{' (bracedChars pretty level) selection) := by
  cases selection with
  | none => exact ⟨[], .none _, .nil⟩
  | some items =>
    obtain ⟨tokens, hderives, hspells⟩ := h items rfl
    exact ⟨tokens, .some hderives, hspells⟩

theorem apart_optional (selection : Option (List Item)) :
    Apart (optional '{' (bracedChars pretty level) selection) := by
  cases selection with
  | none => exact apart_nil
  | some items => exact apart_cons (by decide) _

variable {pretty level}

/-- **Items of the grammar are derived**, however their lines are joined. -/
theorem Derived.reads {item : Item} (h : item.Derived) :
    Reads .selection (spelling pretty level item) := by
  induction h generalizing level with
  | @field aliasName name attachment selection halias hname hattachment hne _ ih =>
    obtain ⟨ts, hts, hchain⟩ := reads_chain halias hname
    obtain ⟨us, vs, hus, hvs, hattached⟩ := hattachment.reads
    obtain ⟨ws, hws, hselection⟩ := reads_selection pretty level fun items hitems =>
      reads_braced pretty level (hne items hitems) fun item hitem =>
        ih items hitems item hitem
    have hspells := hchain.append (attachment.apart_text.append (apart_optional pretty level _))
      (hattached.append (apart_optional pretty level _) hselection)
    rw [spelling_field]
    refine ⟨_, .field name hts hus hvs hws, Spells.skips ?_ (Line.all_isIgnored_gap pretty level)⟩
    simpa using hspells
  | @fragment condition items hname hne _ ih =>
    obtain ⟨ws, hws, hselection⟩ := reads_braced pretty level hne fun item hitem => ih item hitem
    have hcondition : Spells ("on".toList ++ ' ' :: (condition.toList
        ++ ' ' :: '{' :: bracedChars pretty level items))
        (.name "on" :: .name condition :: ws) :=
      .name_append (by decide) (apart_cons (by decide) _) <| .skip (by decide) <|
        .name_append hname (apart_cons (by decide) _) hselection
    rw [spelling_fragment]
    refine ⟨_, .fragment (.some (.condition condition)) (.nil _) hws,
      Spells.skips ?_ (Line.all_isIgnored_gap pretty level)⟩
    exact .spread (.skip (by decide) (by simpa using hcondition))

end Item

end QueryTree

import QueryTree.Compile
import QueryTree.Proofs.Reading.Item

/-!
# Proofs/Unambiguous — the text of a tree tells what is printed of it

If all names are Names, the single-line text of a tree can be read back: no text of an argument can
pass for a part of the query around it. Doubles are left out, since `-0.0` and `0` or `1.0` and `1`
print alike, and so are texts in directives, which lose their quotes. Main result:
`compile_compact_inj`.
-/

namespace QueryTree

/-! ## Trees to items -/

/-- A head whose text is no other's. -/
structure Head.Distinct (head : Head) : Prop where
  names : ∀ name ∈ head.names, Name.isName name
  types : ∀ declaration ∈ head.declared.getD [], isTypeText declaration.value
  values : ∀ argument ∈ head.allArguments, argument.value.Distinct
  unquoted : ∀ argument ∈ head.directiveArguments, ∀ part ∈ argument.value.parts,
    part.isString = false

namespace Head

namespace Distinct

variable {head : Head}

theorem chain (h : head.Distinct) {name : String} (hname : Name.isName name) :
    ∀ n ∈ head.chain name, Name.isName n :=
  forall_mem_chain hname h.names

theorem directive (h : head.Distinct) :
    ∀ directive ∈ head.directive, directive.Distinct := by
  intro directive hdirective
  refine ⟨h.names _ (mem_names_of_directive hdirective),
    fun arguments harguments argument hargument => ?_⟩
  have hmem := mem_directiveArguments hdirective harguments hargument
  have hall : argument ∈ head.allArguments := List.mem_append_right _ hmem
  exact ⟨h.names _ (mem_names_of_argument hall), h.values _ hall, h.unquoted _ hmem⟩

theorem attached (h : head.Distinct) : head.attached.Distinct := by
  unfold Head.attached
  split
  · rename_i declarations hdeclared
    refine ⟨by simp, fun entries hentries entry hentry => ?_⟩
    obtain rfl := Option.some.inj hentries
    obtain ⟨declaration, hdeclaration, rfl⟩ := List.mem_map.1 hentry
    have hmem : declaration ∈ head.declared.getD [] := by
      rw [hdeclared]
      exact hdeclaration
    exact ⟨h.names _ (mem_names_of_declared hmem), h.types _ hmem⟩
  · refine ⟨h.directive, fun entries hentries entry hentry => ?_⟩
    obtain ⟨arguments, harguments, rfl⟩ := Option.map_eq_some_iff.1 hentries
    obtain ⟨argument, hargument, rfl⟩ := List.mem_map.1 hentry
    have hall := mem_allArguments harguments hargument
    exact ⟨h.names _ (mem_names_of_argument hall), h.values _ hall⟩

end Distinct

end Head

namespace Node

/-- A node whose own names and head are no others'. -/
structure DistinctLevel (node : Node) : Prop where
  head : node.head.Distinct
  fields : ∀ field ∈ node.fields, Name.isName field.name
  fragments : ∀ fragment ∈ node.fragments.getD [], Name.isName fragment.typeCondition

/-- **What is printed of good nodes is no other's.** -/
theorem selection_distinct (ignored : List String) (node : Node)
    (h : ∀ n ∈ node.subnodes, n.DistinctLevel) :
    ∀ item ∈ node.selection ignored, item.Distinct := by
  refine forall_selection (fun node name value hnode hmem => ?_)
    (fun node name child hnode hchild hmem ih => ?_)
    (fun node condition child hnode _ hmem ih => ?_) node h
    fun n hn => h n (descendants_subset_subnodes node hn)
  · have hname : Name.isName name := hnode.fields _ hmem
    exact .field (by simp) (by simpa using hname) ⟨by simp, by simp⟩ (by simp)
  · rw [fieldItem_eq]
    refine .field (by simp [Head.chain]) (hchild.head.chain (hnode.fields _ hmem))
      hchild.head.attached fun items hitems => ?_
    obtain ⟨-, heq⟩ := Option.ite_none_right_eq_some.1 hitems
    rwa [← Option.some.inj heq]
  · exact .fragment (hnode.fragments _ hmem) ih

end Node

/-! ## Items to text -/

namespace Item

/-- The first line of an item holds a name, or the mark of a fragment. -/
theorem Distinct.text_ne_empty {item : Item} (h : item.Distinct) (level : Nat) :
    ∀ line ∈ (item.lines level).head?, line.text ≠ "" := by
  intro line hline
  cases h with
  | @field chain attachment selection hne hnames =>
    have htoken : token chain attachment ≠ "" := by
      obtain ⟨name, names, rfl⟩ := List.exists_cons_of_ne_nil hne
      obtain ⟨c, cs, hcs⟩ := Name.exists_cons_of_isName (hnames name List.mem_cons_self)
      rw [ne_eq, ← String.toList_inj, toList_token, chainChars, hcs.1]
      simp
    cases selection with
    | none =>
      obtain rfl : _ = line := by simpa [lines] using hline
      exact htoken
    | some items =>
      obtain rfl : _ = line := by simpa [lines] using hline
      simp
  | fragment =>
    obtain rfl : _ = line := by simpa [lines] using hline
    simp

end Item

namespace Node

/-- **A tree whose text is no other's.** Its names are Names, its types stay clear of commas and
parentheses, and it has neither a double in an argument nor a text in a directive. -/
structure Distinct (root : Node) : Prop where
  wellNamed : root.WellNamed
  types : ∀ node ∈ root.subnodes, ∀ declaration ∈ node.head.declared.getD [],
    isTypeText declaration.value
  floatFree : ∀ node ∈ root.subnodes, ∀ argument ∈ node.head.allArguments,
    ∀ part ∈ argument.value.parts, part.isFloat = false
  unquoted : root.DirectivesUnquoted

namespace Distinct

variable {root : Node}

theorem level (h : root.Distinct) : ∀ node ∈ root.subnodes, node.DistinctLevel := by
  intro node hnode
  have hnames := h.wellNamed.names node hnode
  refine ⟨⟨fun name hname => hnames name (mem_names_of_head hname), h.types node hnode,
    fun argument hargument part hpart => ?_, h.unquoted node hnode⟩,
    fun field hfield => hnames _ (mem_names_of_field hfield),
    fun fragment hfragment => hnames _ (mem_names_of_fragment hfragment)⟩
  exact ⟨h.wellNamed.values node hnode argument hargument part hpart,
    h.floatFree node hnode argument hargument part hpart⟩

theorem items (h : root.Distinct) (ignored : List String) :
    ∀ item ∈ root.items ignored, item.Distinct :=
  fun item hitem => selection_distinct ignored root h.level item (List.mem_append_left _ hitem)

/-- The first line of each item shows something. -/
theorem text_ne_empty (h : root.Distinct) (ignored : List String) :
    ∀ item ∈ root.items ignored, ∀ line ∈ (item.lines 0).head?, line.text ≠ "" :=
  fun item hitem => (h.items ignored item hitem).text_ne_empty 0

end Distinct

/-- The text on a single line is that of the items. -/
theorem Distinct.separator_cons_text {root : Node} (h : root.Distinct) {ignored : List String}
    (hne : root.items ignored ≠ []) :
    Line.separator false :: (root.text ⟨false, ignored⟩).toList
      = Item.spellings false 0 (root.items ignored) :=
  Node.separator_cons_text hne (h.text_ne_empty ignored)

/-- The text is empty just if nothing is printed. -/
theorem Distinct.text_eq_empty_iff {root : Node} (h : root.Distinct) {ignored : List String} :
    root.text ⟨false, ignored⟩ = "" ↔ root.items ignored = [] := by
  refine ⟨fun hempty => ?_, text_of_items_eq_nil⟩
  by_cases hne : root.items ignored = []
  · exact hne
  · exact absurd hempty (Node.text_ne_empty hne (h.text_ne_empty ignored))

/-- **The text on a single line tells what is printed of a tree.** -/
theorem items_eq_of_text_eq {t₁ t₂ : Node} (h₁ : t₁.Distinct) (h₂ : t₂.Distinct)
    {ignored₁ ignored₂ : List String}
    (heq : t₁.text ⟨false, ignored₁⟩ = t₂.text ⟨false, ignored₂⟩) :
    t₁.items ignored₁ = t₂.items ignored₂ := by
  by_cases hne₁ : t₁.items ignored₁ = []
  · have hempty : t₂.text ⟨false, ignored₂⟩ = "" := heq ▸ h₁.text_eq_empty_iff.2 hne₁
    rw [hne₁, h₂.text_eq_empty_iff.1 hempty]
  · have hne₂ : t₂.items ignored₂ ≠ [] := fun hnil =>
      hne₁ (h₁.text_eq_empty_iff.1 (heq ▸ h₂.text_eq_empty_iff.2 hnil))
    have hspellings : Item.spellings false 0 (t₁.items ignored₁) ++ []
        = Item.spellings false 0 (t₂.items ignored₂) ++ [] := by
      rw [← h₁.separator_cons_text hne₁, ← h₂.separator_cons_text hne₂, heq]
    exact (Item.readable_spellings 0 (h₁.items ignored₁)
      (fun item hitem => Item.readable 0 (h₁.items ignored₁ item hitem)) (h₂.items ignored₂)
      (.inl rfl) (.inl rfl) hspellings).1

/-- What is printed of a tree makes its text. -/
theorem text_eq_of_items_eq {t₁ t₂ : Node} {pretty : Bool} {ignored₁ ignored₂ : List String}
    (heq : t₁.items ignored₁ = t₂.items ignored₂) :
    t₁.text ⟨pretty, ignored₁⟩ = t₂.text ⟨pretty, ignored₂⟩ := by
  rw [text, text, lines_eq_linesOf, lines_eq_linesOf, heq]

end Node

theorem text_of_compile_eq_ok {root : Node} {options : Options} {text : String}
    (h : compile root options = .ok text) : text = root.text options := by
  unfold compile at h
  split at h
  · cases h
  · cases h
    rfl

/-- **The compiled text is unambiguous.** Two trees compile to the same single line just if the same
is printed of both: no text of an argument, whatever its characters, changes the shape of a
query. -/
theorem compile_compact_inj {t₁ t₂ : Node} (h₁ : t₁.Distinct) (h₂ : t₂.Distinct)
    {ignored₁ ignored₂ : List String} {s₁ s₂ : String}
    (hs₁ : compile t₁ ⟨false, ignored₁⟩ = .ok s₁) (hs₂ : compile t₂ ⟨false, ignored₂⟩ = .ok s₂) :
    s₁ = s₂ ↔ t₁.items ignored₁ = t₂.items ignored₂ := by
  rw [text_of_compile_eq_ok hs₁, text_of_compile_eq_ok hs₂]
  exact ⟨Node.items_eq_of_text_eq h₁ h₂, Node.text_eq_of_items_eq⟩

/-- A field with a text for an argument, and two fields below it. -/
def namedUser (name : String) : Node :=
  { fields := [.node "user"
      { head := { arguments := some [⟨"name", .string name⟩] },
        fields := [.leaf "id" (.bool true), .leaf "secret" (.bool true)] }] }

theorem distinct_namedUser (name : String) : (namedUser name).Distinct := by
  have hnames : ∀ n ∈ ["user", "name", "id", "secret"], Name.isName n := by decide
  refine ⟨⟨fun node hnode n hn => hnames n ?_, ?_⟩, ?_, ?_, ?_⟩
  · simp only [namedUser, Node.subnodes, Node.fieldSubnodes, List.append_nil, List.mem_cons,
      List.not_mem_nil, or_false] at hnode
    rcases hnode with rfl | rfl <;>
      simp_all [Node.names, Head.names, Head.allArguments, Head.directiveArguments, Field.name]
  all_goals
    simp [namedUser, Node.DirectivesUnquoted, Node.subnodes, Node.fieldSubnodes,
      Head.allArguments, Head.directiveArguments, Value.parts, Value.wellNamed, Value.isFloat]

/-- A text that tries to end the arguments does not. -/
theorem compile_compact_inj_namedUser :
    r#"user (name: "a\") { id } #") { id }"# = r#"user (name: "a") { id }"#
      ↔ (namedUser r#"a") { id } #"#).items ["secret"] = (namedUser "a").items ["secret"] :=
  compile_compact_inj (distinct_namedUser _) (distinct_namedUser _) (by rfl) (by rfl)

end QueryTree

import QueryTree.Proofs.Printed

/-!
# Proofs/Hollow — braces around nothing

A field opens a brace for any field of its node that is not ignored and for any list of fragments,
before it is known what they print. A falsy leaf prints nothing and an empty list has no fragment, so
braces can stand around nothing. `not_hollow_iff` says exactly when: if a printed node has nothing to
print but still has a leaf that is not ignored, or a list. Where that does not happen, falsy leaves
can be left out of a tree (`Node.Trimmed`) without a change to its lines.
-/

namespace QueryTree

/-! ## Items inside of items -/

namespace Item

mutual

/-- An item and all items inside it. -/
def parts : Item → List Item
  | .field chain attachment none => [.field chain attachment none]
  | .field chain attachment (some items) => .field chain attachment (some items) :: partsOf items
  | .fragment condition items => .fragment condition items :: partsOf items

/-- The parts of items. -/
def partsOf : List Item → List Item
  | [] => []
  | item :: items => item.parts ++ partsOf items

end

/-- The parts of items in a row, those of the first before those of the second. -/
theorem partsOf_append : ∀ items items' : List Item,
    partsOf (items ++ items') = partsOf items ++ partsOf items'
  | [], _ => rfl
  | item :: items, items' => by
      rw [List.cons_append, partsOf, partsOf, partsOf_append items items', List.append_assoc]

/-- A part of items is a part of one of them. -/
theorem mem_partsOf {part : Item} : ∀ {items : List Item},
    part ∈ partsOf items ↔ ∃ item ∈ items, part ∈ item.parts
  | [] => by simp [partsOf]
  | item :: items => by simp [partsOf, @mem_partsOf part items]

theorem self_mem_parts (item : Item) : item ∈ item.parts := by
  cases item with
  | field chain attachment selection => cases selection <;> simp [parts]
  | fragment condition items => simp [parts]

/-- A part of a part is a part. -/
theorem parts_subset_of_mem {part item : Item} (h : part ∈ item.parts) :
    part.parts ⊆ item.parts := by
  induction item using induct with
  | bare chain attachment =>
    rw [parts, List.mem_singleton] at h
    rw [h]
    exact List.Subset.refl _
  | braced chain attachment items ih =>
    rw [parts, List.mem_cons] at h
    rcases h with rfl | h
    · exact List.Subset.refl _
    · obtain ⟨item, hitem, hpart⟩ := mem_partsOf.1 h
      exact fun p hp => List.mem_cons_of_mem _ (mem_partsOf.2 ⟨item, hitem, ih item hitem hpart hp⟩)
  | fragment condition items ih =>
    rw [parts, List.mem_cons] at h
    rcases h with rfl | h
    · exact List.Subset.refl _
    · obtain ⟨item, hitem, hpart⟩ := mem_partsOf.1 h
      exact fun p hp => List.mem_cons_of_mem _ (mem_partsOf.2 ⟨item, hitem, ih item hitem hpart hp⟩)

/-- A pair of braces with nothing between them: the line that opens the item is followed at once by
the line that closes it. -/
def IsHollow (item : Item) : Prop :=
  ∃ level text, item.lines level = [⟨level, text ++ r" {"⟩, ⟨level, r"}"⟩]

/-- A field is hollow just if it has braces and nothing between them. -/
theorem isHollow_field {chain : List String} {attachment : Attachment}
    {selection : Option (List Item)} :
    (field chain attachment selection).IsHollow ↔ selection = some [] := by
  cases selection with
  | none => simp [IsHollow, lines]
  | some items =>
    refine ⟨fun ⟨level, text, hlines⟩ => ?_, fun h => ⟨0, token chain attachment, ?_⟩⟩
    · have hnil : linesOf (level + 1) items = [] := by
        have hlength := congrArg List.length hlines
        simpa [lines] using hlength
      rw [eq_nil_of_linesOf_eq_nil hnil]
    · obtain rfl := Option.some.inj h
      rfl

/-- A fragment, which always has braces, is hollow just if nothing is between them. -/
theorem isHollow_fragment {condition : String} {items : List Item} :
    (fragment condition items).IsHollow ↔ items = [] := by
  refine ⟨fun ⟨level, text, hlines⟩ => ?_, fun h => ⟨0, "... on " ++ condition, ?_⟩⟩
  · have hnil : linesOf (level + 1) items = [] := by
      have hlength := congrArg List.length hlines
      simpa [lines] using hlength
    exact eq_nil_of_linesOf_eq_nil hnil
  · rw [h]
    rfl

end Item

/-! ## Printed nodes -/

/-- Whether a field prints nothing: its name is ignored, or it is a leaf with a falsy value. -/
def Field.isSilent (ignored : List String) : Field → Bool
  | .leaf name value => ignored.contains name || !value.isTruthy
  | .node name _ => ignored.contains name

namespace Node

/-- A node whose fields are all ignored or falsy, and which has no fragment. -/
def IsIdle (ignored : List String) (node : Node) : Prop :=
  (∀ field ∈ node.fields, field.isSilent ignored) ∧ node.fragments.getD [] = []

instance (ignored : List String) (node : Node) : Decidable (node.IsIdle ignored) :=
  inferInstanceAs (Decidable ((∀ field ∈ node.fields, _) ∧ node.fragments.getD [] = []))

/-- A node stands under a name among printed fields: as the node of one of them, or among the
fields of such a node or of one of its fragments. -/
inductive Printed (ignored : List String) : List Field → String → Node → Prop
  | here {fields : List Field} {name : String} {child : Node} (hmem : .node name child ∈ fields)
      (hkept : name ∉ ignored) : Printed ignored fields name child
  | inField {fields : List Field} {name name' : String} {child node : Node}
      (hchild : Printed ignored fields name child)
      (hnode : Printed ignored child.fields name' node) : Printed ignored fields name' node
  | inFragment {fields : List Field} {name name' : String} {child node : Node}
      {fragment : Fragment} (hchild : Printed ignored fields name child)
      (hmem : fragment ∈ child.fragments.getD [])
      (hnode : Printed ignored fragment.selection.fields name' node) :
      Printed ignored fields name' node

variable {ignored : List String} {fields : List Field} {name : String} {node : Node}

/-- A node that is printed below some fields is so below more of them. -/
theorem Printed.mono {fields' : List Field} (h : Printed ignored fields name node)
    (hsub : fields ⊆ fields') : Printed ignored fields' name node := by
  induction h with
  | here hmem hkept => exact .here (hsub hmem) hkept
  | inField _ hnode ih _ => exact .inField (ih hsub) hnode
  | inFragment _ hmem hnode ih _ => exact .inFragment (ih hsub) hmem hnode

/-- A printed node is a node of the tree. -/
theorem Printed.subnodes_subset (h : Printed ignored fields name node) :
    node.subnodes ⊆ fieldSubnodes fields := by
  induction h with
  | here hmem _ => exact subnodes_subset_fieldSubnodes hmem
  | inField _ _ ihchild ihnode =>
    exact fun n hn => ihchild (descendants_subset_subnodes _ (List.mem_append_left _ (ihnode hn)))
  | inFragment _ hmem _ ihchild ihnode =>
    refine fun n hn => ihchild (descendants_subset_subnodes _ (subnodes_subset_of_fragment hmem ?_))
    exact descendants_subset_subnodes _ (List.mem_append_left _ (ihnode hn))

/-! ## Nodes with nothing to print -/

/-- Fields print nothing just if each of them is silent. -/
theorem selectionItems_eq_nil_iff {fields : List Field} :
    selectionItems ignored fields = [] ↔ ∀ field ∈ fields, field.isSilent ignored := by
  induction fields with
  | nil => simp [selectionItems]
  | cons field rest ih =>
    cases field with
    | leaf name value =>
      rw [selectionItems, List.append_eq_nil_iff, ih, List.forall_mem_cons]
      refine and_congr_left' ?_
      rw [Field.isSilent]
      split <;> simp_all
    | node name child =>
      rw [selectionItems, List.append_eq_nil_iff, ih, List.forall_mem_cons]
      refine and_congr_left' ?_
      rw [Field.isSilent]
      split <;> simp_all

/-- The item of a fragment that the node of a field has. -/
def fragmentItem (ignored : List String) (fragment : Fragment) : Item :=
  .fragment fragment.typeCondition (selectionItems ignored fragment.selection.fields)

theorem fragmentItems_eq_map (fragments : List Fragment) :
    fragmentItems ignored fragments = fragments.map (fragmentItem ignored) := by
  induction fragments with
  | nil => rw [fragmentItems, List.map_nil]
  | cons fragment rest ih =>
    obtain ⟨condition, ⟨head, fields, fragments⟩⟩ := fragment
    rw [fragmentItems, ih, List.map_cons, fragmentItem]

/-- Nothing stands between the braces of a node just if it is idle. -/
theorem selection_eq_nil_iff : node.selection ignored = [] ↔ node.IsIdle ignored := by
  rw [selection, List.append_eq_nil_iff, selectionItems_eq_nil_iff, fragmentItems_eq_map,
    List.map_eq_nil_iff, IsIdle]

/-- A node opens no brace just if all of its fields are ignored and no list of fragments is there,
not even an empty one. -/
theorem opens_eq_false_iff : node.opens ignored = false
    ↔ (∀ field ∈ node.fields, field.name ∈ ignored) ∧ node.fragments = none := by
  simp [opens]

/-- **A field is a pair of braces around nothing** if its node is idle and opens a brace anyway. -/
theorem isHollow_fieldItem :
    (fieldItem ignored name node).IsHollow ↔ node.IsIdle ignored ∧ node.opens ignored = true := by
  rw [fieldItem_eq, Item.isHollow_field, ← selection_eq_nil_iff]
  cases node.opens ignored <;> simp

/-! ## Printed items -/

/-- The parts of a field are the field and what stands between its braces. -/
theorem parts_fieldItem (name : String) (node : Node) : (fieldItem ignored name node).parts
    = fieldItem ignored name node :: Item.partsOf (node.selection ignored) := by
  rw [fieldItem_eq]
  cases hopens : node.opens ignored with
  | true => rw [if_pos rfl, Item.parts]
  | false => rw [if_neg Bool.false_ne_true, Item.parts, selection_of_not_opens hopens, Item.partsOf]

/-- The node of a field that is not ignored is printed among its fields. -/
theorem fieldItem_mem_selectionItems (hkept : name ∉ ignored) : ∀ {fields : List Field},
    .node name node ∈ fields → fieldItem ignored name node ∈ selectionItems ignored fields
  | .leaf _ _ :: rest, h => by
      rw [selectionItems]
      exact List.mem_append_right _ (fieldItem_mem_selectionItems hkept (by simpa using h))
  | .node _ _ :: rest, h => by
      rw [selectionItems]
      rcases List.mem_cons.1 h with h | h
      · cases h
        exact List.mem_append_left _ (by simp [hkept])
      · exact List.mem_append_right _ (fieldItem_mem_selectionItems hkept h)

/-- The fragments of a node are printed inside of its field. -/
theorem fragmentItem_mem_parts {fragment : Fragment} (h : fragment ∈ node.fragments.getD []) :
    fragmentItem ignored fragment ∈ (fieldItem ignored name node).parts := by
  rw [parts_fieldItem, selection, Item.partsOf_append, fragmentItems_eq_map]
  refine List.mem_cons_of_mem _ (List.mem_append_right _ (Item.mem_partsOf.2 ?_))
  exact ⟨_, List.mem_map_of_mem h, Item.self_mem_parts _⟩

/-- **A printed node has its item** among the parts of what is printed. -/
theorem Printed.fieldItem_mem_partsOf (h : Printed ignored fields name node) :
    fieldItem ignored name node ∈ Item.partsOf (selectionItems ignored fields) := by
  induction h with
  | here hmem hkept =>
    exact Item.mem_partsOf.2 ⟨_, fieldItem_mem_selectionItems hkept hmem, Item.self_mem_parts _⟩
  | @inField fields name name' child node _ _ ihchild ihnode =>
    obtain ⟨item, hitem, hchild⟩ := Item.mem_partsOf.1 ihchild
    refine Item.mem_partsOf.2 ⟨item, hitem, Item.parts_subset_of_mem hchild ?_⟩
    rw [parts_fieldItem, selection, Item.partsOf_append]
    exact List.mem_cons_of_mem _ (List.mem_append_left _ ihnode)
  | @inFragment fields name name' child node fragment _ hmem _ ihchild ihnode =>
    obtain ⟨item, hitem, hchild⟩ := Item.mem_partsOf.1 ihchild
    refine Item.mem_partsOf.2 ⟨item, hitem, Item.parts_subset_of_mem hchild ?_⟩
    refine Item.parts_subset_of_mem (fragmentItem_mem_parts hmem) ?_
    rw [fragmentItem, Item.parts]
    exact List.mem_cons_of_mem _ ihnode

/-! ## Braces around nothing -/

/-- Every node among printed fields is of some kind. -/
def AllPrinted (ignored : List String) (fields : List Field) (kind : Node → Prop) : Prop :=
  ∀ name node, Printed ignored fields name node → kind node

namespace AllPrinted

variable {kind : Node → Prop} {first : Field} {rest : List Field} {child : Node}

/-- What holds of all nodes printed below fields holds below fewer of them… -/
theorem tail (h : AllPrinted ignored (first :: rest) kind) : AllPrinted ignored rest kind :=
  fun name node hnode => h name node (hnode.mono (List.subset_cons_self first rest))

section

variable (h : AllPrinted ignored (.node name child :: rest) kind) (hkept : name ∉ ignored)

include h hkept

/-- …of the node of the first field… -/
theorem here : kind child :=
  h name child (.here List.mem_cons_self hkept)

/-- …and below it, in its fields… -/
theorem inField : AllPrinted ignored child.fields kind :=
  fun name' node hnode => h name' node (.inField (.here List.mem_cons_self hkept) hnode)

/-- …as in its fragments. -/
theorem inFragment {fragment : Fragment} (hmem : fragment ∈ child.fragments.getD []) :
    AllPrinted ignored fragment.selection.fields kind :=
  fun name' node hnode => h name' node (.inFragment (.here List.mem_cons_self hkept) hmem hnode)

end

end AllPrinted

/-- A node that opens no brace if it is idle: what it has are ignored fields and no list of
fragments (`opens_eq_false_iff`). -/
def IsTidy (ignored : List String) (node : Node) : Prop :=
  node.IsIdle ignored → node.opens ignored = false

instance (ignored : List String) (node : Node) : Decidable (node.IsTidy ignored) :=
  inferInstanceAs (Decidable (node.IsIdle ignored → _))

/-- A tidy node whose fragments all print something. -/
structure IsFilled (ignored : List String) (node : Node) : Prop where
  tidy : node.IsTidy ignored
  fragments : ∀ fragment ∈ node.fragments.getD [],
    selectionItems ignored fragment.selection.fields ≠ []

mutual

/-- **A node that is filled has no hollow part**, if the printed nodes below it are filled… -/
theorem not_isHollow_field (name : String) : ∀ node : Node, node.IsFilled ignored →
    AllPrinted ignored node.fields (IsFilled ignored) →
    (∀ fragment ∈ node.fragments.getD [],
      AllPrinted ignored fragment.selection.fields (IsFilled ignored)) →
    ∀ part ∈ (fieldItem ignored name node).parts, ¬ part.IsHollow
  | ⟨head, fields, fragments⟩, hself, hfields, hfragments, part, hpart => by
      rw [parts_fieldItem, List.mem_cons, selection, Item.partsOf_append, List.mem_append] at hpart
      rcases hpart with rfl | hpart | hpart
      · rw [isHollow_fieldItem]
        exact fun ⟨hidle, hopens⟩ => Bool.false_ne_true ((hself.tidy hidle).symm.trans hopens)
      · exact not_isHollow_selection fields hfields part hpart
      · cases fragments with
        | none => simp [fragmentItems, Item.partsOf] at hpart
        | some fragments =>
          exact not_isHollow_fragments fragments hself.fragments hfragments part hpart

/-- …nor have fields whose printed nodes are… -/
theorem not_isHollow_selection : ∀ fields : List Field,
    AllPrinted ignored fields (IsFilled ignored) →
    ∀ part ∈ Item.partsOf (selectionItems ignored fields), ¬ part.IsHollow
  | [], _, part, hpart => by simp [selectionItems, Item.partsOf] at hpart
  | .leaf name value :: rest, h, part, hpart => by
      rw [selectionItems, Item.partsOf_append, List.mem_append] at hpart
      rcases hpart with hpart | hpart
      · split at hpart
        · simp [Item.partsOf] at hpart
        · obtain rfl : part = .field [name] ⟨none, none⟩ none := by
            simpa [Item.partsOf, Item.parts] using hpart
          simp [Item.isHollow_field]
      · exact not_isHollow_selection rest h.tail part hpart
  | .node name child :: rest, h, part, hpart => by
      rw [selectionItems, Item.partsOf_append, List.mem_append] at hpart
      rcases hpart with hpart | hpart
      · split at hpart
        · simp [Item.partsOf] at hpart
        · next hcontains =>
          have hkept : name ∉ ignored := by simpa using hcontains
          refine not_isHollow_field name child (h.here hkept) (h.inField hkept)
            (fun fragment hmem => h.inFragment hkept hmem) part ?_
          simpa [Item.partsOf] using hpart
      · exact not_isHollow_selection rest h.tail part hpart

/-- …nor fragments, if each of them prints something besides. -/
theorem not_isHollow_fragments : ∀ fragments : List Fragment,
    (∀ fragment ∈ fragments, selectionItems ignored fragment.selection.fields ≠ []) →
    (∀ fragment ∈ fragments, AllPrinted ignored fragment.selection.fields (IsFilled ignored)) →
    ∀ part ∈ Item.partsOf (fragmentItems ignored fragments), ¬ part.IsHollow
  | [], _, _, part, hpart => by simp [fragmentItems, Item.partsOf] at hpart
  | ⟨condition, ⟨_, fields, _⟩⟩ :: rest, hfilled, h, part, hpart => by
      rw [fragmentItems, Item.partsOf, Item.parts, List.mem_append, List.mem_cons] at hpart
      rcases hpart with (rfl | hpart) | hpart
      · rw [Item.isHollow_fragment]
        exact hfilled _ List.mem_cons_self
      · exact not_isHollow_selection fields (h _ List.mem_cons_self) part hpart
      · exact not_isHollow_fragments rest
          (fun fragment hmem => hfilled fragment (List.mem_cons_of_mem _ hmem))
          (fun fragment hmem => h fragment (List.mem_cons_of_mem _ hmem)) part hpart

end

/-- **No braces stand around nothing** just if every printed node is filled. -/
theorem not_isHollow_iff {fields : List Field} :
    (∀ item ∈ Item.partsOf (selectionItems ignored fields), ¬ item.IsHollow)
      ↔ AllPrinted ignored fields (IsFilled ignored) := by
  refine ⟨fun h name node hnode => ⟨fun hidle => ?_, fun fragment hmem hnil => ?_⟩,
    fun h => not_isHollow_selection fields h⟩
  · cases hopens : node.opens ignored with
    | false => rfl
    | true =>
      exact absurd (isHollow_fieldItem.2 ⟨hidle, hopens⟩) (h _ hnode.fieldItem_mem_partsOf)
  · obtain ⟨item, hitem, hfield⟩ := Item.mem_partsOf.1 hnode.fieldItem_mem_partsOf
    have hpart := Item.parts_subset_of_mem hfield (fragmentItem_mem_parts hmem)
    exact h _ (Item.mem_partsOf.2 ⟨item, hitem, hpart⟩) (Item.isHollow_fragment.2 hnil)

/-! ## Leaving out falsy leaves -/

mutual

/-- A node with some falsy leaves left out, at any depth. -/
inductive Trimmed : Node → Node → Prop
  | plain {head : Head} {fields fields' : List Field} (hfields : FieldsTrimmed fields fields') :
      Trimmed ⟨head, fields, none⟩ ⟨head, fields', none⟩
  | listed {head : Head} {fields fields' : List Field} {fragments fragments' : List Fragment}
      (hfields : FieldsTrimmed fields fields')
      (hfragments : FragmentsTrimmed fragments fragments') :
      Trimmed ⟨head, fields, some fragments⟩ ⟨head, fields', some fragments'⟩

/-- Fields with some falsy leaves left out. -/
inductive FieldsTrimmed : List Field → List Field → Prop
  | nil : FieldsTrimmed [] []
  | left {name : String} {value : Value} {fields fields' : List Field}
      (hfalsy : value.isTruthy = false) (hrest : FieldsTrimmed fields fields') :
      FieldsTrimmed (.leaf name value :: fields) fields'
  | leaf {name : String} {value : Value} {fields fields' : List Field}
      (hrest : FieldsTrimmed fields fields') :
      FieldsTrimmed (.leaf name value :: fields) (.leaf name value :: fields')
  | node {name : String} {child child' : Node} {fields fields' : List Field}
      (hchild : Trimmed child child') (hrest : FieldsTrimmed fields fields') :
      FieldsTrimmed (.node name child :: fields) (.node name child' :: fields')

/-- Fragments with some falsy leaves left out of their selections. -/
inductive FragmentsTrimmed : List Fragment → List Fragment → Prop
  | nil : FragmentsTrimmed [] []
  | cons {condition : String} {selection selection' : Node} {fragments fragments' : List Fragment}
      (hselection : Trimmed selection selection') (hrest : FragmentsTrimmed fragments fragments') :
      FragmentsTrimmed (⟨condition, selection⟩ :: fragments) (⟨condition, selection'⟩ :: fragments')

end

/-- What is left was there before. -/
theorem FieldsTrimmed.names_subset : ∀ {fields fields' : List Field},
    FieldsTrimmed fields fields' → fields'.map (·.name) ⊆ fields.map (·.name)
  | _, _, .nil => List.Subset.refl _
  | _, _, .left _ hrest => List.subset_cons_of_subset _ hrest.names_subset
  | _, _, .leaf hrest => List.cons_subset_cons _ hrest.names_subset
  | _, _, .node _ hrest => List.cons_subset_cons _ hrest.names_subset

/-- What prints something is left. -/
theorem FieldsTrimmed.mem_names : ∀ {fields fields' : List Field}, FieldsTrimmed fields fields' →
    ∀ field ∈ fields, field.isSilent ignored = false → field.name ∈ fields'.map (·.name)
  | _, _, .nil, _, hfield, _ => absurd hfield List.not_mem_nil
  | _, _, .left hfalsy hrest, field, hfield, hsilent => by
      rcases List.mem_cons.1 hfield with rfl | hfield
      · simp [Field.isSilent, hfalsy] at hsilent
      · exact hrest.mem_names field hfield hsilent
  | _, _, .leaf hrest, field, hfield, hsilent => by
      rcases List.mem_cons.1 hfield with rfl | hfield
      · exact List.mem_cons_self
      · exact List.mem_cons_of_mem _ (hrest.mem_names field hfield hsilent)
  | _, _, .node _ hrest, field, hfield, hsilent => by
      rcases List.mem_cons.1 hfield with rfl | hfield
      · exact List.mem_cons_self
      · exact List.mem_cons_of_mem _ (hrest.mem_names field hfield hsilent)

/-- An ignored field is silent. -/
theorem isSilent_of_mem {field : Field} (h : field.name ∈ ignored) :
    field.isSilent ignored = true := by
  cases field <;> simp_all [Field.isSilent, Field.name]

/-- A node opens a brace as before, unless it opened one around nothing. -/
theorem FieldsTrimmed.opens_eq {fields fields' : List Field} (h : FieldsTrimmed fields fields')
    {head : Head} (htidy : IsTidy ignored ⟨head, fields, none⟩) :
    opens ignored ⟨head, fields', none⟩ = opens ignored ⟨head, fields, none⟩ := by
  cases hopens : opens ignored ⟨head, fields, none⟩ with
  | false =>
    rw [opens_eq_false_iff] at hopens ⊢
    refine ⟨fun field' hfield' => ?_, rfl⟩
    obtain ⟨field, hfield, hname⟩ := List.mem_map.1 (h.names_subset (List.mem_map_of_mem hfield'))
    exact hname ▸ hopens.1 field hfield
  | true =>
    have hbusy : ¬ IsIdle ignored ⟨head, fields, none⟩ := fun hidle =>
      Bool.false_ne_true ((htidy hidle).symm.trans hopens)
    obtain ⟨field, hfield, hsilent⟩ : ∃ field ∈ fields, field.isSilent ignored = false := by
      simpa [IsIdle] using hbusy
    obtain ⟨field', hfield', hname⟩ := List.mem_map.1 (h.mem_names field hfield hsilent)
    have hkept : field'.name ∉ ignored := fun hmem =>
      Bool.false_ne_true (hsilent.symm.trans (isSilent_of_mem (hname ▸ hmem)))
    exact opens_of_mem hfield' hkept

mutual

/-- **Without falsy leaves a tidy node prints the same lines**: it opens a brace for what is left.
-/
theorem fieldLines_of_trimmed (level : Nat) (name : String) : ∀ {node node' : Node},
    Trimmed node node' → node.IsTidy ignored → AllPrinted ignored node.fields (IsTidy ignored) →
      (∀ fragment ∈ node.fragments.getD [],
        AllPrinted ignored fragment.selection.fields (IsTidy ignored)) →
      fieldLines ignored level name node' = fieldLines ignored level name node
  | _, _, .plain hfields, hself, htidy, _ => by
      rw [fieldLines_eq, fieldLines_eq, hfields.opens_eq hself,
        selectionLines_of_trimmed (level + 1) hfields htidy]
  | _, _, .listed hfields hfragments, hself, htidy, hfragmentsTidy => by
      rw [fieldLines_eq, fieldLines_eq]
      simp only [opens, Option.isSome_some, Bool.or_true, if_true, Option.getD_some,
        selectionLines_of_trimmed (level + 1) hfields htidy,
        fragmentLines_of_trimmed (level + 1) hfragments hfragmentsTidy]

/-- …and so do fields: a leaf that is left out was not printed… -/
theorem selectionLines_of_trimmed (level : Nat) : ∀ {fields fields' : List Field},
    FieldsTrimmed fields fields' → AllPrinted ignored fields (IsTidy ignored) →
      selectionLines ignored level fields' = selectionLines ignored level fields
  | _, _, .nil, _ => rfl
  | _, _, .left hfalsy hrest, htidy => by
      rw [selectionLines_of_trimmed level hrest htidy.tail, selectionLines]
      simp [hfalsy]
  | _, _, .leaf hrest, htidy => by
      rw [selectionLines, selectionLines, selectionLines_of_trimmed level hrest htidy.tail]
  | .node name _ :: _, _, .node hchild hrest, htidy => by
      rw [selectionLines, selectionLines, selectionLines_of_trimmed level hrest htidy.tail]
      by_cases hkept : name ∈ ignored
      · simp [hkept]
      · rw [fieldLines_of_trimmed level name hchild (htidy.here hkept) (htidy.inField hkept)
          fun fragment hmem => htidy.inFragment hkept hmem]

/-- …and fragments, all of which stay. -/
theorem fragmentLines_of_trimmed (level : Nat) : ∀ {fragments fragments' : List Fragment},
    FragmentsTrimmed fragments fragments' →
      (∀ fragment ∈ fragments, AllPrinted ignored fragment.selection.fields (IsTidy ignored)) →
      fragmentLines ignored level fragments' = fragmentLines ignored level fragments
  | _, _, .nil, _ => rfl
  | _, _, .cons (.plain hfields) hrest, htidy => by
      rw [fragmentLines, fragmentLines,
        selectionLines_of_trimmed (level + 1) hfields (htidy _ List.mem_cons_self),
        fragmentLines_of_trimmed level hrest
          fun fragment hmem => htidy fragment (List.mem_cons_of_mem _ hmem)]
  | _, _, .cons (.listed hfields _) hrest, htidy => by
      rw [fragmentLines, fragmentLines,
        selectionLines_of_trimmed (level + 1) hfields (htidy _ List.mem_cons_self),
        fragmentLines_of_trimmed level hrest
          fun fragment hmem => htidy fragment (List.mem_cons_of_mem _ hmem)]

end

/-! ## The condition -/

/-- What holds of all nodes of a tree holds of those that are printed. -/
theorem AllPrinted.of_subnodes {fields : List Field} {kind : Node → Prop}
    (h : ∀ node ∈ fieldSubnodes fields, kind node) : AllPrinted ignored fields kind :=
  fun _ node hnode => h node (hnode.subnodes_subset node.self_mem_subnodes)

/-- **Braces stand around something just in a tidy tree.** If every printed fragment prints a line,
then no printed brace is closed right behind its opening exactly if every printed node is tidy. In
such a tree an idle node is the line of its field alone, and leaving out falsy leaves changes no
line. -/
theorem not_hollow_iff (ignored : List String) (root : Node)
    (hfragments : AllPrinted ignored root.fields fun node =>
      ∀ fragment ∈ node.fragments.getD [], fragment.selection.lines ignored ≠ []) :
    ((∀ item ∈ Item.partsOf (root.items ignored), ¬ item.IsHollow)
        ↔ AllPrinted ignored root.fields (IsTidy ignored))
      ∧ (AllPrinted ignored root.fields (IsTidy ignored) →
        (∀ name node, Printed ignored root.fields name node → node.IsIdle ignored →
          ∀ level, fieldLines ignored level name node = [⟨level, node.head.token name⟩])
        ∧ ∀ root', Trimmed root root' → root'.lines ignored = root.lines ignored) := by
  refine ⟨?_, fun htidy => ⟨fun name node hnode hidle level => ?_, fun root' htrimmed => ?_⟩⟩
  · rw [items, not_isHollow_iff]
    refine ⟨fun h name node hnode => (h name node hnode).tidy,
      fun h name node hnode => ⟨h name node hnode, fun fragment hmem hnil => ?_⟩⟩
    refine hfragments name node hnode fragment hmem ?_
    rw [lines_eq_linesOf, items, hnil, Item.linesOf]
  · exact fieldLines_of_not_opens level name (htidy name node hnode hidle)
  · cases htrimmed with
    | plain hfields => exact selectionLines_of_trimmed 0 hfields htidy
    | listed hfields _ => exact selectionLines_of_trimmed 0 hfields htidy

/-- A field with a falsy leaf, a field with arguments alone, and a fragment. -/
def tidyTree : Node :=
  { fields := [.node "user"
      { fields := [.leaf "id" (.bool true), .leaf "name" (.bool false),
          .node "avatar" { head := { arguments := some [⟨"size", .int 64⟩] } }]
        fragments := some [⟨"Admin",
          { fields := [.leaf "since" (.int 1), .leaf "role" .null] }⟩] }] }

theorem not_hollow_iff_tidyTree :
    (∀ item ∈ Item.partsOf (tidyTree.items []), ¬ item.IsHollow)
      ∧ tidyTree.lines [] = [⟨0, r"user {"⟩, ⟨1, "id"⟩, ⟨1, "avatar (size: 64)"⟩,
        ⟨1, r"... on Admin {"⟩, ⟨2, "since"⟩, ⟨1, r"}"⟩, ⟨0, r"}"⟩] := by
  have hfragments : AllPrinted [] tidyTree.fields fun node =>
      ∀ fragment ∈ node.fragments.getD [], fragment.selection.lines [] ≠ [] :=
    .of_subnodes (by decide)
  have htidy : AllPrinted [] tidyTree.fields (IsTidy []) := .of_subnodes (by decide)
  exact ⟨(not_hollow_iff [] tidyTree hfragments).1.2 htidy, rfl⟩

/-- A field all of whose leaves are falsy. -/
def idleTree : Node :=
  { fields := [.node "user" { fields := [.leaf "name" (.bool false)] }] }

/-- Tidiness cannot be left out: a falsy leaf by itself opens a brace, and the lines change with
it. -/
theorem hollow_idleTree :
    (AllPrinted [] idleTree.fields fun node =>
      ∀ fragment ∈ node.fragments.getD [], fragment.selection.lines [] ≠ [])
    ∧ idleTree.lines [] = [⟨0, r"user {"⟩, ⟨0, r"}"⟩]
    ∧ (∃ item ∈ Item.partsOf (idleTree.items []), item.IsHollow)
    ∧ Trimmed idleTree { fields := [.node "user" {}] }
    ∧ lines [] { fields := [.node "user" {}] } = [⟨0, "user"⟩] := by
  refine ⟨.of_subnodes (by decide), rfl, ⟨_, List.mem_cons_self, 0, "user", rfl⟩, ?_, rfl⟩
  exact .plain (.node (.plain (.left rfl .nil)) .nil)

end Node

end QueryTree

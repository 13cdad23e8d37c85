import QueryTree.Node.Lines
import QueryTree.Proofs.Parts

/-!
# Proofs/Printed — what is printed of a tree

A tree holds more than its lines show: ignored fields, falsy leaves, the head of the root, the
arguments of a field that declares variables. `Node.items` keeps what is shown and nothing else, and
`Item.lines` spells it out again; `lines_eq_linesOf` says that nothing is lost on the way. A
statement about lines is then an induction on items, where every part is printed.
-/

namespace QueryTree

/-- What stands in the parentheses of a field. -/
inductive Entry where
  | declaration (declaration : Named String)
  | argument (argument : Named Value)

/-- What follows the names of a field on its line: a directive, and a list in parentheses. Empty
parentheses are the same whether they would hold declarations or arguments. -/
structure Attachment where
  directive : Option Directive
  entries : Option (List Entry)

/-- What is printed of a field or of a fragment. -/
inductive Item where
  /-- A field, by its names in the order they are printed. Without a selection it has no braces. -/
  | field (chain : List String) (attachment : Attachment) (selection : Option (List Item))
  | fragment (condition : String) (selection : List Item)

namespace Entry

/-- The writes of an entry. -/
def writes : Entry → Writes
  | declaration d => Variables.entryWrites d
  | argument a => Arguments.entryWrites a

end Entry

namespace Attachment

/-- The text of an attachment, behind a blank if there is any. -/
def text (attachment : Attachment) : String :=
  (match attachment.directive with
    | none => ""
    | some directive => " @" ++ directive.writes.text)
  ++ (match attachment.entries with
    | none => ""
    | some entries => Head.parenthesized (Writes.commaSeparated (entries.map Entry.writes)))

end Attachment

namespace Item

/-- The line of a field up to its brace. -/
def token (chain : List String) (attachment : Attachment) : String :=
  ": ".intercalate chain ++ attachment.text

mutual

/-- The lines of an item. -/
def lines (level : Nat) : Item → List Line
  | .field chain attachment none => [⟨level, token chain attachment⟩]
  | .field chain attachment (some items) =>
    ⟨level, token chain attachment ++ r" {"⟩ :: linesOf (level + 1) items ++ [⟨level, r"}"⟩]
  | .fragment condition items =>
    ⟨level, "... on " ++ condition ++ r" {"⟩ :: linesOf (level + 1) items ++ [⟨level, r"}"⟩]

/-- The lines of items, one after another. -/
def linesOf (level : Nat) : List Item → List Line
  | [] => []
  | item :: items => item.lines level ++ linesOf level items

end

theorem linesOf_append (level : Nat) : ∀ items items' : List Item,
    linesOf level (items ++ items') = linesOf level items ++ linesOf level items'
  | [], _ => rfl
  | item :: items, items' => by
      rw [List.cons_append, linesOf, linesOf, linesOf_append level items items', List.append_assoc]

/-- Every item has a line. -/
theorem lines_ne_nil (level : Nat) (item : Item) : item.lines level ≠ [] := by
  cases item with
  | field chain attachment selection => cases selection <;> simp [lines]
  | fragment condition items => simp [lines]

theorem eq_nil_of_linesOf_eq_nil {level : Nat} {items : List Item}
    (h : linesOf level items = []) : items = [] := by
  cases items with
  | nil => rfl
  | cons item items => exact absurd (List.append_eq_nil_iff.1 h).1 (item.lines_ne_nil level)

section Induction

variable {motive : Item → Prop}
  (bare : ∀ chain attachment, motive (.field chain attachment none))
  (braced : ∀ chain attachment items, (∀ item ∈ items, motive item) →
    motive (.field chain attachment (some items)))
  (fragment : ∀ condition items, (∀ item ∈ items, motive item) →
    motive (.fragment condition items))

include bare braced fragment

/-- **Induction on an item**, which comes after all items of its selection. -/
@[elab_as_elim] theorem induct : ∀ item : Item, motive item
  | .field chain attachment none => bare chain attachment
  | .field chain attachment (some items) => braced chain attachment items fun item _ => induct item
  | .fragment condition items => fragment condition items fun item _ => induct item
termination_by item => sizeOf item
decreasing_by
  all_goals
    have := List.sizeOf_lt_of_mem ‹item ∈ items›
    simp
    omega

end Induction

end Item

namespace Head

/-- The names on the line of a field: its alias, its own name, and the field it is an alias for. -/
def chain (head : Head) (name : String) : List String :=
  head.aliasName.toList ++ name :: head.aliasFor.toList

/-- The names on the line of a field are its own and those of its head. -/
theorem forall_mem_chain {head : Head} {q : String → Prop} {name : String} (hname : q name)
    (h : ∀ s ∈ head.names, q s) : ∀ s ∈ head.chain name, q s := by
  intro s hs
  simp only [chain, List.mem_append, List.mem_cons, Option.mem_toList] at hs
  rcases hs with hs | rfl | hs
  · exact h s (mem_names_of_aliasName hs)
  · exact hname
  · exact h s (mem_names_of_aliasFor hs)

/-- What is printed behind the names. Declared variables displace the directive and the
arguments. -/
def attached (head : Head) : Attachment :=
  match head.declared with
  | some declarations => ⟨none, some (declarations.map .declaration)⟩
  | none => ⟨head.directive, head.arguments.map (·.map .argument)⟩

/-- What follows the name of a field is the text of what is attached to it. -/
theorem attachment_eq (head : Head) : head.attachment = head.attached.text := by
  unfold attachment attached
  cases head.declared with
  | some declarations =>
    simp [Attachment.text, Variables.writes, Function.comp_def, Entry.writes]
  | none =>
    cases head.directive <;> cases head.arguments <;>
      simp [Attachment.text, Arguments.writes, Arguments.fieldWrites_eq_map, Function.comp_def,
        Entry.writes]

/-- **The line of a field is its names and its attachment.** -/
theorem token_eq (head : Head) (name : String) :
    head.token name = Item.token (head.chain name) head.attached := by
  rw [token, Item.token, attachment_eq, chain]
  cases head.aliasName <;> cases head.aliasFor <;>
    simp [String.intercalate_cons_of_ne_nil, String.append_assoc]

end Head

namespace Node

mutual

/-- What is printed of a field with a node of its own. -/
def fieldItem (ignored : List String) (name : String) : Node → Item
  | ⟨head, fields, fragments⟩ =>
    .field (head.chain name) head.attached <|
      if opens ignored ⟨head, fields, fragments⟩ then
        some (selectionItems ignored fields
          ++ match fragments with
            | none => []
            | some fragments => fragmentItems ignored fragments)
      else none

/-- What is printed of the fields of a selection. -/
def selectionItems (ignored : List String) : List Field → List Item
  | [] => []
  | .leaf name value :: rest =>
    (if ignored.contains name || !value.isTruthy then [] else [.field [name] ⟨none, none⟩ none])
      ++ selectionItems ignored rest
  | .node name child :: rest =>
    (if ignored.contains name then [] else [fieldItem ignored name child])
      ++ selectionItems ignored rest

/-- What is printed of fragments. -/
def fragmentItems (ignored : List String) : List Fragment → List Item
  | [] => []
  | ⟨condition, ⟨_, fields, _⟩⟩ :: rest =>
    .fragment condition (selectionItems ignored fields) :: fragmentItems ignored rest

end

/-- What is printed between the braces of a node. -/
def selection (ignored : List String) (node : Node) : List Item :=
  selectionItems ignored node.fields ++ fragmentItems ignored (node.fragments.getD [])

/-- What is printed of a tree. -/
def items (ignored : List String) (root : Node) : List Item :=
  selectionItems ignored root.fields

/-! ## Nothing is lost -/

/-- No fragments and an empty list of them select the same. -/
theorem fieldItem_eq (ignored : List String) (name : String) : ∀ node : Node,
    fieldItem ignored name node
      = .field (node.head.chain name) node.head.attached
          (if node.opens ignored then some (node.selection ignored) else none)
  | ⟨_, _, none⟩ => by simp [fieldItem, selection, fragmentItems]
  | ⟨_, _, some _⟩ => by simp [fieldItem, selection]

/-- **The lines of the node of a field**, a list of fragments being printed like none if it is
empty. -/
theorem fieldLines_eq (ignored : List String) (level : Nat) (name : String) : ∀ node : Node,
    fieldLines ignored level name node
      = if node.opens ignored then
          ⟨level, node.head.token name ++ r" {"⟩
            :: (selectionLines ignored (level + 1) node.fields
              ++ fragmentLines ignored (level + 1) (node.fragments.getD []))
            ++ [⟨level, r"}"⟩]
        else
          ⟨level, node.head.token name⟩
            :: (selectionLines ignored (level + 1) node.fields
              ++ fragmentLines ignored (level + 1) (node.fragments.getD []))
  | ⟨_, _, none⟩ => by simp [fieldLines, fragmentLines]
  | ⟨_, _, some _⟩ => by simp [fieldLines]

/-- Ignored fields alone make no lines. -/
theorem selectionLines_of_ignored {ignored : List String} (level : Nat) : ∀ {fields : List Field},
    fields.any (fun field => !ignored.contains field.name) = false →
      selectionLines ignored level fields = []
  | [], _ => by rw [selectionLines]
  | .leaf name value :: rest, h => by
      simp only [List.any_cons, Bool.or_eq_false_iff, Bool.not_eq_false', Field.name] at h
      rw [selectionLines, selectionLines_of_ignored level h.2, h.1]
      rfl
  | .node name child :: rest, h => by
      simp only [List.any_cons, Bool.or_eq_false_iff, Bool.not_eq_false', Field.name] at h
      rw [selectionLines, selectionLines_of_ignored level h.2, h.1]
      rfl

theorem selectionLines_node {ignored : List String} (level : Nat) {name : String}
    (h : name ∉ ignored) (child : Node) :
    selectionLines ignored level [.node name child] = fieldLines ignored level name child := by
  simp [selectionLines, h]

/-- A node opens a brace for a field that is not ignored. -/
theorem opens_of_mem {ignored : List String} {node : Node} {field : Field}
    (hmem : field ∈ node.fields) (hkept : field.name ∉ ignored) : node.opens ignored = true := by
  have hany : node.fields.any (fun field => !ignored.contains field.name) = true :=
    List.any_eq_true.2 ⟨field, hmem, by simpa using hkept⟩
  rw [opens, hany, Bool.true_or]

/-- A node that opens a brace closes it behind its fields and fragments. -/
theorem fieldLines_of_opens {ignored : List String} (level : Nat) (name : String) {node : Node}
    (h : node.opens ignored = true) :
    fieldLines ignored level name node = ⟨level, node.head.token name ++ r" {"⟩
      :: (selectionLines ignored (level + 1) node.fields
        ++ fragmentLines ignored (level + 1) (node.fragments.getD []))
      ++ [⟨level, r"}"⟩] := by
  rw [fieldLines_eq, h, if_pos rfl]

/-- A field that opens no brace is a single line. -/
theorem fieldLines_of_not_opens {ignored : List String} (level : Nat) (name : String) {node : Node}
    (h : node.opens ignored = false) :
    fieldLines ignored level name node = [⟨level, node.head.token name⟩] := by
  obtain ⟨hfields, hfragments⟩ := Bool.or_eq_false_iff.1 h
  have hnone : node.fragments = none := by simpa using hfragments
  rw [fieldLines_eq, h, selectionLines_of_ignored (level + 1) hfields, hnone]
  rfl

mutual

/-- **What is printed of a field is its item**, with braces just if the node opens them… -/
theorem fieldLines_eq_lines (ignored : List String) (level : Nat) (name : String) : ∀ node : Node,
    fieldLines ignored level name node = (fieldItem ignored name node).lines level
  | ⟨head, fields, fragments⟩ => by
      rw [fieldItem_eq]
      cases h : opens ignored ⟨head, fields, fragments⟩ with
      | false =>
        rw [fieldLines_of_not_opens level name h, Head.token_eq]
        rfl
      | true =>
        have hfields := selectionLines_eq_linesOf ignored (level + 1) fields
        have hfragments : fragmentLines ignored (level + 1) (fragments.getD [])
            = Item.linesOf (level + 1) (fragmentItems ignored (fragments.getD [])) := by
          cases fragments with
          | none => rfl
          | some fragments => exact fragmentLines_eq_linesOf ignored (level + 1) fragments
        rw [fieldLines_eq, h, hfields, hfragments, Head.token_eq, ← Item.linesOf_append]
        rfl

/-- …of fields the items of those that are shown… -/
theorem selectionLines_eq_linesOf (ignored : List String) (level : Nat) : ∀ fields : List Field,
    selectionLines ignored level fields = Item.linesOf level (selectionItems ignored fields)
  | [] => rfl
  | .leaf name value :: rest => by
      rw [selectionLines, selectionItems, selectionLines_eq_linesOf ignored level rest,
        Item.linesOf_append]
      split <;> simp [Item.linesOf, Item.lines, Item.token, Attachment.text]
  | .node name child :: rest => by
      rw [selectionLines, selectionItems, selectionLines_eq_linesOf ignored level rest,
        Item.linesOf_append, fieldLines_eq_lines ignored level name child]
      split <;> simp [Item.linesOf]

/-- …and of fragments the item of each. -/
theorem fragmentLines_eq_linesOf (ignored : List String) (level : Nat) :
    ∀ fragments : List Fragment, fragmentLines ignored level fragments
      = Item.linesOf level (fragmentItems ignored fragments)
  | [] => rfl
  | ⟨condition, ⟨_, fields, _⟩⟩ :: rest => by
      rw [fragmentLines, fragmentItems, Item.linesOf, Item.lines,
        selectionLines_eq_linesOf ignored (level + 1) fields,
        fragmentLines_eq_linesOf ignored level rest]
      simp

end

/-- **The lines of a tree are those of what is printed of it.** -/
theorem lines_eq_linesOf (ignored : List String) (root : Node) :
    root.lines ignored = Item.linesOf 0 (root.items ignored) :=
  selectionLines_eq_linesOf ignored 0 root.fields

/-- A node that opens no brace has no selection. -/
theorem selection_of_not_opens {ignored : List String} {node : Node}
    (h : node.opens ignored = false) : node.selection ignored = [] := by
  obtain ⟨hfields, hfragments⟩ := Bool.or_eq_false_iff.1 h
  have hnone : node.fragments = none := by simpa using hfragments
  have hlines : Item.linesOf 0 (selectionItems ignored node.fields) = [] := by
    rw [← selectionLines_eq_linesOf]
    exact selectionLines_of_ignored 0 hfields
  rw [selection, hnone, Item.eq_nil_of_linesOf_eq_nil hlines]
  rfl

/-! ## Lines of lists -/

theorem selectionLines_append (ignored : List String) (level : Nat) : ∀ fields rest : List Field,
    selectionLines ignored level (fields ++ rest)
      = selectionLines ignored level fields ++ selectionLines ignored level rest
  | [], _ => rfl
  | .leaf _ _ :: fields, rest => by
      rw [List.cons_append, selectionLines, selectionLines, selectionLines_append _ _ fields,
        List.append_assoc]
  | .node _ _ :: fields, rest => by
      rw [List.cons_append, selectionLines, selectionLines, selectionLines_append _ _ fields,
        List.append_assoc]

theorem fragmentLines_append (ignored : List String) (level : Nat) :
    ∀ fragments rest : List Fragment, fragmentLines ignored level (fragments ++ rest)
      = fragmentLines ignored level fragments ++ fragmentLines ignored level rest
  | [], _ => rfl
  | ⟨_, ⟨_, _, _⟩⟩ :: fragments, rest => by
      rw [List.cons_append, fragmentLines, fragmentLines, fragmentLines_append _ _ fragments]
      simp

/-- The lines of one field stand between those of the fields around it. -/
theorem selectionLines_around {ignored : List String} (level : Nat) (before after : List Field)
    (field : Field) : selectionLines ignored level (before ++ field :: after)
      = selectionLines ignored level before ++ (selectionLines ignored level [field]
        ++ selectionLines ignored level after) := by
  rw [selectionLines_append, ← selectionLines_append _ _ [field], List.singleton_append]

theorem fragmentLines_around {ignored : List String} (level : Nat) (before after : List Fragment)
    (fragment : Fragment) : fragmentLines ignored level (before ++ fragment :: after)
      = fragmentLines ignored level before ++ (fragmentLines ignored level [fragment]
        ++ fragmentLines ignored level after) := by
  rw [fragmentLines_append, ← fragmentLines_append _ _ [fragment], List.singleton_append]

/-! ## Where items come from -/

/-- An item of fields is that of a leaf, which is a bare name, or that of a node. -/
theorem mem_selectionItems {ignored : List String} {item : Item} : ∀ {fields : List Field},
    item ∈ selectionItems ignored fields →
      (∃ name value, .leaf name value ∈ fields ∧ item = .field [name] ⟨none, none⟩ none)
        ∨ ∃ name child, .node name child ∈ fields ∧ item = fieldItem ignored name child
  | [], h => by simp [selectionItems] at h
  | .leaf name value :: rest, h => by
      rw [selectionItems, List.mem_append] at h
      rcases h with h | h
      · split at h
        · simp at h
        · exact .inl ⟨name, value, List.mem_cons_self, by simpa using h⟩
      · exact (mem_selectionItems h).imp
          (fun ⟨name, value, hmem, heq⟩ => ⟨name, value, List.mem_cons_of_mem _ hmem, heq⟩)
          fun ⟨name, child, hmem, heq⟩ => ⟨name, child, List.mem_cons_of_mem _ hmem, heq⟩
  | .node name child :: rest, h => by
      rw [selectionItems, List.mem_append] at h
      rcases h with h | h
      · split at h
        · simp at h
        · exact .inr ⟨name, child, List.mem_cons_self, by simpa using h⟩
      · exact (mem_selectionItems h).imp
          (fun ⟨name, value, hmem, heq⟩ => ⟨name, value, List.mem_cons_of_mem _ hmem, heq⟩)
          fun ⟨name, child, hmem, heq⟩ => ⟨name, child, List.mem_cons_of_mem _ hmem, heq⟩

theorem mem_fragmentItems {ignored : List String} {item : Item} : ∀ {fragments : List Fragment},
    item ∈ fragmentItems ignored fragments → ∃ fragment ∈ fragments,
      item = .fragment fragment.typeCondition (selectionItems ignored fragment.selection.fields)
  | [], h => by simp [fragmentItems] at h
  | ⟨condition, ⟨_, fields, _⟩⟩ :: rest, h => by
      rw [fragmentItems, List.mem_cons] at h
      rcases h with h | h
      · exact ⟨_, List.mem_cons_self, h⟩
      · obtain ⟨fragment, hmem, heq⟩ := mem_fragmentItems h
        exact ⟨fragment, List.mem_cons_of_mem _ hmem, heq⟩

section Induction

variable {ignored : List String} {level good : Node → Prop} {motive : Item → Prop}
  (leaf : ∀ node name value, level node → .leaf name value ∈ node.fields →
    motive (.field [name] ⟨none, none⟩ none))
  (field : ∀ node name child, level node → good child → .node name child ∈ node.fields →
    (∀ item ∈ child.selection ignored, motive item) → motive (fieldItem ignored name child))
  (fragment : ∀ node condition child, level node → good child →
    ⟨condition, child⟩ ∈ node.fragments.getD [] →
    (∀ item ∈ selectionItems ignored child.fields, motive item) →
    motive (.fragment condition (selectionItems ignored child.fields)))

include leaf field fragment

/-- **What holds of all that is printed of a node**, by induction on the tree: an item is a leaf, a
field or a fragment of some level, and comes after all items of its own selection. -/
theorem forall_selection : ∀ node : Node, (∀ n ∈ node.subnodes, level n) →
    (∀ n ∈ node.descendants, good n) → ∀ item ∈ node.selection ignored, motive item
  | ⟨head, fields, fragments⟩, hlevel, hgood => by
      have hself := hlevel _ (self_mem_subnodes _)
      -- what is below a child is below the node
      have hbelow : ∀ child : Node, child.subnodes ⊆ descendants ⟨head, fields, fragments⟩ →
          good child ∧ (∀ n ∈ child.subnodes, level n) ∧ ∀ n ∈ child.descendants, good n :=
        fun child hchild => ⟨hgood _ (hchild (self_mem_subnodes _)),
          fun n hn => hlevel n (descendants_subset_subnodes _ (hchild hn)),
          fun n hn => hgood n (hchild (descendants_subset_subnodes _ hn))⟩
      intro item hitem
      rcases List.mem_append.1 hitem with hitem | hitem
      · rcases mem_selectionItems hitem with ⟨name, value, hmem, rfl⟩ | ⟨name, child, hmem, rfl⟩
        · exact leaf _ name value hself hmem
        · obtain ⟨hchild, hlevels, hgoods⟩ := hbelow child (subnodes_subset_of_field hmem)
          exact field _ name child hself hchild hmem (forall_selection child hlevels hgoods)
      · obtain ⟨⟨condition, child⟩, hmem, rfl⟩ := mem_fragmentItems hitem
        obtain ⟨hchild, hlevels, hgoods⟩ := hbelow child (subnodes_subset_of_fragment hmem)
        exact fragment _ condition child hself hchild hmem fun item hitem =>
          forall_selection child hlevels hgoods item (List.mem_append_left _ hitem)
termination_by node => sizeOf node
decreasing_by
  · have := List.sizeOf_lt_of_mem hmem
    simp at this ⊢
    omega
  · cases fragments with
    | none => exact absurd hmem List.not_mem_nil
    | some fragments =>
      have := List.sizeOf_lt_of_mem hmem
      simp at this ⊢
      omega

end Induction

end Node

end QueryTree

import Mathlib.Logic.Relation
import QueryTree.Proofs.Printed

/-!
# Proofs/Unshown — changes that do not show

Much of a tree is never printed: all but the fields of the root and of a fragment's node, what an
ignored name stands for, the value of a leaf but for its truth, and the arguments and the directive
of a field that declares variables. One change to any of this is a `SelectionChange` of the root;
it may lie at any depth. However many there are, the lines stay as they are
(`lines_eq_of_changes`).
-/

namespace QueryTree.Node

/-! ## One change -/

mutual

/-- One change somewhere in a node of which only the fields are shown, as the root and the nodes of
fragments are. -/
inductive SelectionChange (ignored : List String) : Node → Node → Prop
  /-- Anything but the fields. -/
  | data (fields : List Field) (head head' : Head) (fragments fragments' : Option (List Fragment)) :
      SelectionChange ignored ⟨head, fields, fragments⟩ ⟨head', fields, fragments'⟩
  | field {head : Head} (before after : List Field) {field field' : Field}
      {fragments : Option (List Fragment)} (h : FieldChange ignored field field') :
      SelectionChange ignored ⟨head, before ++ field :: after, fragments⟩
        ⟨head, before ++ field' :: after, fragments⟩

/-- One change somewhere in a field, under the same name. -/
inductive FieldChange (ignored : List String) : Field → Field → Prop
  /-- Anything, if the name is ignored. -/
  | ignored (field field' : Field) (hname : field.name = field'.name)
      (hignored : field.name ∈ ignored) : FieldChange ignored field field'
  /-- The value of a leaf, but for its truth. -/
  | value {name : String} (v v' : Value) (h : v.isTruthy = v'.isTruthy) :
      FieldChange ignored (.leaf name v) (.leaf name v')
  /-- A leaf that is shown, for a node that holds nothing. -/
  | emptied {name : String} {v : Value} (h : v.isTruthy) :
      FieldChange ignored (.leaf name v) (.node name {})
  | child {name : String} {node node' : Node} (h : NodeChange ignored node node') :
      FieldChange ignored (.node name node) (.node name node')

/-- One change somewhere in the node of a field. -/
inductive NodeChange (ignored : List String) : Node → Node → Prop
  /-- The arguments and the directive, if declared variables are shown in their place. -/
  | displaced {node : Node} (arguments : Option Arguments) (directive : Option Directive)
      (h : node.head.declared.isSome) :
      NodeChange ignored node { node with head := { node.head with arguments, directive } }
  | field {head : Head} (before after : List Field) {field field' : Field}
      {fragments : Option (List Fragment)} (h : FieldChange ignored field field') :
      NodeChange ignored ⟨head, before ++ field :: after, fragments⟩
        ⟨head, before ++ field' :: after, fragments⟩
  | fragment {head : Head} {fields : List Field} (before after : List Fragment)
      {condition : String} {selection selection' : Node}
      (h : SelectionChange ignored selection selection') :
      NodeChange ignored ⟨head, fields, some (before ++ ⟨condition, selection⟩ :: after)⟩
        ⟨head, fields, some (before ++ ⟨condition, selection'⟩ :: after)⟩

end

variable {ignored : List String}

theorem FieldChange.name_eq : ∀ {field field' : Field}, FieldChange ignored field field' →
    field.name = field'.name
  | _, _, .ignored _ _ hname _ => hname
  | _, _, .value _ _ _ | _, _, .emptied _ | _, _, .child _ => rfl

/-! ## Lines around a change -/

section

variable (level : Nat)

/-- A leaf alone is a line with its name. -/
theorem selectionLines_leaf (name : String) (v : Value) :
    selectionLines ignored level [.leaf name v]
      = if ignored.contains name || !v.isTruthy then [] else [⟨level, name⟩] := by
  rw [selectionLines, selectionLines, List.append_nil]

/-- A field with an ignored name has no lines. -/
theorem selectionLines_singleton (name : String) (node : Node) :
    selectionLines ignored level [.node name node]
      = if ignored.contains name then [] else fieldLines ignored level name node := by
  rw [selectionLines, selectionLines, List.append_nil]

/-- A field whose node holds nothing is a line with its name, as a leaf is. -/
theorem fieldLines_empty (name : String) : fieldLines ignored level name {} = [⟨level, name⟩] := by
  rw [fieldLines_of_not_opens level name rfl, Head.token]
  simp [Head.attachment]

end

/-- A brace is opened for the names of fields, whatever stands under them. -/
theorem opens_around {head : Head} {before after : List Field} {field field' : Field}
    (hname : field.name = field'.name) (fragments : Option (List Fragment)) :
    opens ignored ⟨head, before ++ field :: after, fragments⟩
      = opens ignored ⟨head, before ++ field' :: after, fragments⟩ := by
  simp only [opens, List.any_append, List.any_cons, hname]

/-- Declared variables are shown instead of arguments and a directive. -/
theorem token_displaced {head : Head} (h : head.declared.isSome) (arguments : Option Arguments)
    (directive : Option Directive) (name : String) :
    ({ head with arguments, directive } : Head).token name = head.token name := by
  obtain ⟨declarations, hdeclared⟩ := Option.isSome_iff_exists.1 h
  simp only [Head.token, Head.attachment, hdeclared]

/-! ## Lines after a change -/

mutual

theorem SelectionChange.lines_eq (level : Nat) : ∀ {node node' : Node},
    SelectionChange ignored node node' →
      selectionLines ignored level node.fields = selectionLines ignored level node'.fields
  | _, _, .data _ _ _ _ _ => rfl
  | _, _, .field _ _ h => by rw [selectionLines_around, selectionLines_around, h.lines_eq level]

theorem FieldChange.lines_eq (level : Nat) : ∀ {field field' : Field},
    FieldChange ignored field field' →
      selectionLines ignored level [field] = selectionLines ignored level [field']
  | _, _, .ignored _ _ hname hignored => by
      rw [selectionLines_of_ignored level (by simpa using hignored),
        selectionLines_of_ignored level (by simpa using hname ▸ hignored)]
  | .leaf _ v, .leaf _ v', .value _ _ h => by
      rw [selectionLines_leaf, selectionLines_leaf, h]
  | .leaf _ _, _, .emptied h => by
      rw [selectionLines_leaf, selectionLines_singleton, fieldLines_empty, h, Bool.not_true,
        Bool.or_false]
  | .node name _, .node _ _, .child h => by
      rw [selectionLines_singleton, selectionLines_singleton, h.lines_eq level name]

theorem NodeChange.lines_eq (level : Nat) (name : String) : ∀ {node node' : Node},
    NodeChange ignored node node' →
      fieldLines ignored level name node = fieldLines ignored level name node'
  | _, _, .displaced arguments directive h => by
      rw [fieldLines_eq, fieldLines_eq, token_displaced h arguments directive name]
      rfl
  | _, _, .field _ _ h => by
      rw [fieldLines_eq, fieldLines_eq, opens_around h.name_eq, selectionLines_around,
        selectionLines_around, h.lines_eq (level + 1)]
  | _, _, @NodeChange.fragment _ _ _ _ _ _ ⟨_, _, _⟩ ⟨_, _, _⟩ h => by
      -- the selection of a fragment stands two levels below the field
      have hlines := h.lines_eq (level + 2)
      rw [fieldLines_eq, fieldLines_eq]
      simp only [Option.getD_some, fragmentLines_around, fragmentLines]
      rw [hlines]
      rfl

end

/-- **What is not shown does not matter.** Trees that differ by such changes alone, any number of
them, have the same lines. -/
theorem lines_eq_of_changes {root root' : Node}
    (h : Relation.EqvGen (SelectionChange ignored) root root') :
    root.lines ignored = root'.lines ignored := by
  induction h with
  | rel root root' hchange => exact hchange.lines_eq 0
  | refl root => rfl
  | symm root root' _ ih => exact ih.symm
  | trans root middle root' _ _ ih ih' => exact ih.trans ih'

/-- A tree with much that is not shown where `secret` is ignored. -/
def ladenTree : Node :=
  { head := { aliasName := some "unused" }
    fields := [.node "query"
      { head := { declared := some [], arguments := some [⟨"first", .int 1⟩] }
        fields := [.leaf "id" (.int 7), .leaf "secret" (.bool true)]
        fragments := some [⟨"User",
          { head := { directive := some ⟨"skip", none⟩ }
            fields := [.leaf "name" (.string "me"), .leaf "age" .null]
            fragments := some [] }⟩] }] }

/-- A tree that shows the same. -/
def lightTree : Node :=
  { fields := [.node "query"
      { head := { declared := some [] }
        fields := [.node "id" {}, .node "secret" {}]
        fragments := some [⟨"User",
          { fields := [.leaf "name" (.bool true), .leaf "age" (.int 0)] }⟩] }] }

theorem lines_eq_of_changes_ladenTree :
    Relation.EqvGen (SelectionChange ["secret"]) ladenTree lightTree
      ∧ ladenTree.lines ["secret"] = lightTree.lines ["secret"]
      ∧ lightTree.lines ["secret"] = [⟨0, r"query () {"⟩, ⟨1, "id"⟩, ⟨1, r"... on User {"⟩,
        ⟨2, "name"⟩, ⟨1, r"}"⟩, ⟨0, r"}"⟩] := by
  have inQuery : ∀ {node node' : Node}, NodeChange ["secret"] node node' →
      Relation.EqvGen (SelectionChange ["secret"]) { fields := [.node "query" node] }
        { fields := [.node "query" node'] } :=
    fun h => .rel _ _ (.field [] [] (.child h))
  have h : Relation.EqvGen (SelectionChange ["secret"]) ladenTree lightTree := by
    refine .trans _ _ _ (.rel _ _ (.data _ _ {} none none)) ?_
    refine .trans _ _ _ (inQuery (.displaced none none rfl)) ?_
    refine .trans _ _ _ (inQuery (.field [] _ (.emptied rfl))) ?_
    refine .trans _ _ _ (inQuery (.field [_] [] (.ignored _ (.node "secret" {}) rfl ?_))) ?_
    · exact List.mem_cons_self
    refine .trans _ _ _ (inQuery (.fragment [] [] (.data _ _ {} _ none))) ?_
    refine .trans _ _ _ (inQuery (.fragment [] [] (.field [] _ (.value _ (.bool true) rfl)))) ?_
    exact inQuery (.fragment [] [] (.field [_] [] (.value _ (.int 0) rfl)))
  exact ⟨h, lines_eq_of_changes h, rfl⟩

end QueryTree.Node

import QueryTree.Node.Path
import QueryTree.Proofs.Printed

/-!
# Proofs/Locality — what a node prints where it stands

    lines above ++ lines of the fields of the node, `k` levels deeper ++ lines below

A context is what stands around a node whose fields are printed, `k` levels below the root of a
tree. The lines of the tree are what is printed of the node, between lines that do not depend on the
fields but for the brace they open (`Context.lines_fill`). So the fields print what they print in a
root, and they can be exchanged without a change elsewhere (`lines_local`). The steps by which a
session finds a node have such a context, if they lead to what is printed (`Context.exists_of_at?`),
so a change of its fields there is one of a block of lines (`lines_of_modify?`).
-/

namespace QueryTree

/-- The line, that many levels deeper. -/
def Line.raise (k : Nat) (line : Line) : Line :=
  { line with level := line.level + k }

/-! ## Deeper levels -/

namespace Item

theorem linesOf_add_of_forall {k : Nat} : ∀ {items : List Item},
    (∀ item ∈ items, ∀ level, item.lines (level + k) = (item.lines level).map (Line.raise k)) →
      ∀ level, linesOf (level + k) items = (linesOf level items).map (Line.raise k)
  | [], _, _ => rfl
  | item :: items, h, level => by
      obtain ⟨hitem, hitems⟩ := List.forall_mem_cons.1 h
      rw [linesOf, linesOf, List.map_append, hitem level, linesOf_add_of_forall hitems level]

theorem lines_add (k : Nat) (item : Item) :
    ∀ level, item.lines (level + k) = (item.lines level).map (Line.raise k) := by
  -- the selection of an item stands a level deeper at both levels
  have inner : ∀ {items : List Item},
      (∀ item ∈ items, ∀ level, item.lines (level + k) = (item.lines level).map (Line.raise k)) →
        ∀ level, linesOf (level + k + 1) items = (linesOf (level + 1) items).map (Line.raise k) :=
    fun ih level => Nat.add_right_comm level 1 k ▸ linesOf_add_of_forall ih (level + 1)
  induction item using induct with
  | bare chain attachment => exact fun level => rfl
  | braced chain attachment items ih | fragment condition items ih =>
    intro level
    simp only [lines, inner ih level, List.map_append, List.map_cons, List.map_nil, Line.raise]

theorem linesOf_add (k level : Nat) (items : List Item) :
    linesOf (level + k) items = (linesOf level items).map (Line.raise k) :=
  linesOf_add_of_forall (fun item _ => item.lines_add k) level

end Item

namespace Node

/-- **Fields print the same at every level**, but for the level. -/
theorem selectionLines_add (ignored : List String) (k level : Nat) (fields : List Field) :
    selectionLines ignored (level + k) fields
      = (selectionLines ignored level fields).map (Line.raise k) := by
  rw [selectionLines_eq_linesOf, selectionLines_eq_linesOf, Item.linesOf_add]

/-! ## Contexts -/

/-- How much of a node is printed. -/
inductive Extent where
  /-- The fields alone, as of the root and of the selection of a fragment. -/
  | fields
  /-- The fields and the fragments, as of the node of a field. -/
  | all

namespace Extent

/-- The fragments that are printed. -/
def fragments : Extent → Option (List Fragment) → List Fragment
  | fields, _ => []
  | all, fragments => fragments.getD []

end Extent

/-- What is printed of a node below the line that it belongs to. -/
def body (ignored : List String) (level : Nat) (node : Node) (extent : Extent) : List Line :=
  selectionLines ignored level node.fields
    ++ fragmentLines ignored level (extent.fragments node.fragments)

/-- What stands around a node that is printed to that extent, the innermost first: fields with names
that are not ignored, and the fragments of their nodes. -/
inductive Context (ignored : List String) : Extent → Type where
  | root : Context ignored .fields
  | field {extent : Extent} (context : Context ignored extent) (head : Head) (before : List Field)
      (name : String) (after : List Field) (fragments : Option (List Fragment))
      (hkept : name ∉ ignored) : Context ignored .all
  | fragment (context : Context ignored .all) (head : Head) (fields : List Field)
      (before : List Fragment) (condition : String) (after : List Fragment) :
      Context ignored .fields

namespace Context

variable {ignored : List String} {extent : Extent}

/-- The tree with a node in the context. -/
def fill {extent : Extent} : Context ignored extent → Node → Node
  | root, node => node
  | field context head before name after fragments _, node =>
    context.fill ⟨head, before ++ .node name node :: after, fragments⟩
  | fragment context head fields before condition after, node =>
    context.fill ⟨head, fields, some (before ++ ⟨condition, node⟩ :: after)⟩

/-- How deep the node is. -/
def depth {extent : Extent} : Context ignored extent → Nat
  | root => 0
  | field context _ _ _ _ _ _ => context.depth + 1
  | fragment context _ _ _ _ _ => context.depth + 1

/-- The lines above what is printed of a node with that head in the context. The last of them is the
line that the node belongs to. -/
def linesAbove {extent : Extent} : Context ignored extent → Head → Bool → List Line
  | root, _, _ => []
  | field context around before name _ _ _, head, opens =>
    context.linesAbove around true ++ (selectionLines ignored context.depth before
      ++ [⟨context.depth, head.token name ++ if opens then r" {" else ""⟩])
  | fragment context around fields before condition _, _, _ =>
    context.linesAbove around true ++ (selectionLines ignored context.depth fields
      ++ (fragmentLines ignored context.depth before
        ++ [⟨context.depth, "... on " ++ condition ++ r" {"⟩]))

/-- The lines below what is printed of a node in the context. -/
def linesBelow {extent : Extent} : Context ignored extent → Bool → List Line
  | root, _ => []
  | @field _ extent context _ _ _ after fragments _, opens =>
    (if opens then [⟨context.depth, r"}"⟩] else [])
      ++ (selectionLines ignored context.depth after
        ++ (fragmentLines ignored context.depth (extent.fragments fragments)
          ++ context.linesBelow true))
  | fragment context _ _ _ _ after, _ =>
    ⟨context.depth, r"}"⟩ :: (fragmentLines ignored context.depth after ++ context.linesBelow true)

end Context

/-! ## One step -/

section Step

variable {ignored : List String}

/-- A field is the line that its node belongs to, what is printed of the node one level deeper, and
a brace if that line opens one. -/
theorem fieldLines_eq_body (level : Nat) (name : String) (node : Node) :
    fieldLines ignored level name node
      = [⟨level, node.head.token name ++ if node.opens ignored then r" {" else ""⟩]
        ++ (node.body ignored (level + 1) .all
          ++ if node.opens ignored then [⟨level, r"}"⟩] else []) := by
  rw [fieldLines_eq]
  cases node.opens ignored <;> simp [body, Extent.fragments]

/-- What is printed around the node of a field. -/
theorem body_field {name : String} (hkept : name ∉ ignored) (level : Nat) (extent : Extent)
    (head : Head) (before after : List Field) (fragments : Option (List Fragment)) (node : Node) :
    body ignored level ⟨head, before ++ .node name node :: after, fragments⟩ extent
      = selectionLines ignored level before ++ (fieldLines ignored level name node
        ++ (selectionLines ignored level after
          ++ fragmentLines ignored level (extent.fragments fragments))) := by
  rw [body, selectionLines_around, selectionLines_node level hkept, List.append_assoc,
    List.append_assoc]

/-- What is printed around the selection of a fragment. -/
theorem body_fragment (level : Nat) (head : Head) (fields : List Field) (before : List Fragment)
    (condition : String) (after : List Fragment) (node : Node) :
    body ignored level ⟨head, fields, some (before ++ ⟨condition, node⟩ :: after)⟩ .all
      = selectionLines ignored level fields ++ (fragmentLines ignored level before
        ++ ([⟨level, "... on " ++ condition ++ r" {"⟩]
          ++ (node.body ignored (level + 1) .fields
            ++ ⟨level, r"}"⟩ :: fragmentLines ignored level after))) := by
  obtain ⟨nodeHead, nodeFields, nodeFragments⟩ := node
  rw [body, Extent.fragments, Option.getD_some, fragmentLines_around]
  simp [body, fragmentLines, Extent.fragments]

end Step

/-! ## In a context -/

namespace Context

variable {ignored : List String} {extent : Extent}

/-- **The lines of a tree around a node**: what is printed of the node stands as many levels deep as
the node is. Of the node itself, the rest depends on its head and on whether it opens a brace. -/
theorem lines_fill (context : Context ignored extent) (node : Node) :
    (context.fill node).lines ignored
      = context.linesAbove node.head (node.opens ignored)
        ++ (node.body ignored context.depth extent ++ context.linesBelow (node.opens ignored)) := by
  -- the node around always opens a brace, whatever stands in the context
  induction context generalizing node with
  | root =>
    simp [fill, linesAbove, linesBelow, depth, body, lines, Extent.fragments, fragmentLines]
  | field context around before name after fragments hkept ih =>
    have hopens : opens ignored ⟨around, before ++ .node name node :: after, fragments⟩ = true :=
      opens_of_mem (List.mem_append_right before List.mem_cons_self) hkept
    rw [fill, ih, hopens, body_field hkept, fieldLines_eq_body, linesAbove, linesBelow, depth]
    simp only [List.append_assoc]
  | fragment context around fields before condition after ih =>
    have hopens : opens ignored
        ⟨around, fields, some (before ++ ⟨condition, node⟩ :: after)⟩ = true := Bool.or_true _
    rw [fill, ih, hopens, body_fragment, linesAbove, linesBelow, depth]
    simp only [List.append_assoc, List.cons_append]

/-- **The fields of a node print what they print in a root**, as many levels deeper as the node
is. -/
theorem lines_fill_raised (context : Context ignored extent) (node : Node) :
    (context.fill node).lines ignored
      = context.linesAbove node.head (node.opens ignored)
        ++ ((node.lines ignored).map (Line.raise context.depth)
          ++ (fragmentLines ignored context.depth (extent.fragments node.fragments)
            ++ context.linesBelow (node.opens ignored))) := by
  have hfields := selectionLines_add ignored context.depth 0 node.fields
  rw [Nat.zero_add] at hfields
  rw [lines_fill, body, hfields, lines, List.append_assoc]

end Context

/-- **What a node prints does not depend on where it stands.** The lines of its fields are a block
in the lines of the tree, those of a root as many levels deeper as the node is; other fields change
nothing but the block, if the node opens a brace for the old and for the new ones. In a root, the
lines of some fields follow those of the fields before them. -/
theorem lines_local (ignored : List String) :
    (∀ {extent : Extent} (context : Context ignored extent) (node : Node),
      ∃ above below : List Line, (context.fill node).lines ignored
          = above ++ ((node.lines ignored).map (Line.raise context.depth) ++ below)
        ∧ ∀ fields : List Field, (∃ field ∈ node.fields, field.name ∉ ignored) →
            (∃ field ∈ fields, field.name ∉ ignored) →
              (context.fill { node with fields }).lines ignored = above
                ++ ((lines ignored { node with fields }).map (Line.raise context.depth) ++ below))
      ∧ ∀ (head : Head) (fragments : Option (List Fragment)) (xs ys : List Field),
        lines ignored ⟨head, xs ++ ys, fragments⟩
          = lines ignored ⟨head, xs, fragments⟩ ++ lines ignored ⟨head, ys, fragments⟩ := by
  constructor
  · intro extent context node
    refine ⟨_, _, context.lines_fill_raised node, fun fields hkept hkept' => ?_⟩
    obtain ⟨field, hmem, hname⟩ := hkept
    obtain ⟨field', hmem', hname'⟩ := hkept'
    have hopens : node.opens ignored = true := opens_of_mem hmem hname
    have hopens' : opens ignored { node with fields } = true := opens_of_mem hmem' hname'
    rw [context.lines_fill_raised, hopens, hopens']
  · exact fun _ _ xs ys => selectionLines_append ignored 0 xs ys

/-- A tree around a node three levels down, behind a field, a fragment and a field. -/
def rightsContext : Context ["secret"] .all :=
  let user : Context ["secret"] .all :=
    .field .root {} [.leaf "id" (.bool true)] "user" [.node "team" {}] none (by decide)
  let admin : Context ["secret"] .fields :=
    .fragment user {} [.leaf "name" (.bool true)] [] "Admin" [⟨"Guest", {}⟩]
  .field admin {} [.leaf "secret" (.bool true)] "rights" [] none (by decide)

/-- A node with a directive and a field that is ignored. -/
def rightsNode : Node :=
  { head := { directive := some ⟨"live", none⟩ }
    fields := [.leaf "read" (.bool true), .leaf "secret" (.bool true)] }

theorem lines_local_rightsContext :
    rightsNode.lines ["secret"] = [⟨0, "read"⟩]
      ∧ ∃ above below : List Line,
        (rightsContext.fill rightsNode).lines ["secret"] = above ++ (⟨3, "read"⟩ :: below)
          ∧ (rightsContext.fill { rightsNode with
              fields := [.leaf "write" (.int 1), .node "grant" {}] }).lines ["secret"]
            = above ++ (⟨3, "write"⟩ :: ⟨3, "grant"⟩ :: below) := by
  refine ⟨rfl, ?_⟩
  obtain ⟨above, below, hlines, hexchanged⟩ := (lines_local ["secret"]).1 rightsContext rightsNode
  refine ⟨above, below, hlines, hexchanged _ ⟨.leaf "read" (.bool true), ?_, by decide⟩
    ⟨.leaf "write" (.int 1), ?_, by decide⟩⟩ <;> exact List.mem_cons_self

/-! ## Contexts by steps -/

/-- Whether what stands at the end of the steps is printed: they lead through fields with names that
are not ignored, and through fragments of the nodes of fields. -/
def Shown (ignored : List String) : Extent → List Step → Prop
  | _, [] => True
  | _, .field name :: steps => name ∉ ignored ∧ Shown ignored .all steps
  | .all, .fragment _ :: steps => Shown ignored .fields steps
  | .fields, .fragment _ :: _ => False

/-- The field that a step leads into, and the fields around it. -/
theorem exists_fields_of_child? {name : String} {child : Node} : ∀ {fields : List Field},
    fields.findSome? (Field.child? name) = some child →
      ∃ before after, fields = before ++ .node name child :: after
        ∧ ∀ new, Field.setChild name new fields = before ++ .node name new :: after
  | [], h => by cases h
  | .leaf name' value :: rest, h => by
      obtain ⟨before, after, rfl, hset⟩ := @exists_fields_of_child? name child rest h
      exact ⟨.leaf name' value :: before, after, rfl, fun new => congrArg _ (hset new)⟩
  | .node name' child' :: rest, h => by
      by_cases hname : name' = name
      · obtain rfl := hname
        have hchild : child' = child := by simpa [Field.child?] using h
        refine ⟨[], rest, by rw [hchild, List.nil_append], fun new => ?_⟩
        simp [Field.setChild, Field.child?]
      · have hrest : rest.findSome? (Field.child? name) = some child := by
          simpa [Field.child?, hname] using h
        obtain ⟨before, after, rfl, hset⟩ := exists_fields_of_child? hrest
        refine ⟨.node name' child' :: before, after, rfl, fun new => ?_⟩
        simp [Field.setChild, Field.child?, hname, hset new]

/-- The fragment that a step leads into, and the fragments around it. -/
theorem exists_fragments_of_child? {index : Nat} {child : Node} {fragments : List Fragment}
    (h : fragments[index]?.map Fragment.selection = some child) :
    ∃ before condition after, fragments = before ++ ⟨condition, child⟩ :: after
      ∧ ∀ new : Node, fragments.modify index (fun fragment => { fragment with selection := new })
        = before ++ ⟨condition, new⟩ :: after := by
  obtain ⟨⟨condition, selection⟩, hfragment, rfl⟩ := Option.map_eq_some_iff.1 h
  obtain ⟨hlt, hget⟩ := List.getElem?_eq_some_iff.1 hfragment
  refine ⟨fragments.take index, condition, fragments.drop (index + 1), ?_, fun new => ?_⟩
  · rw [← hget, ← List.drop_eq_getElem_cons hlt, List.take_append_drop]
  · rw [List.modify_eq_take_cons_drop hlt, hget]

namespace Context

variable {ignored : List String}

/-- One step to what is printed leads one level deeper. -/
theorem exists_of_child? {step : Step} {steps : List Step} {extent : Extent}
    (context : Context ignored extent) {node child : Node}
    (hshown : Shown ignored extent (step :: steps)) (hchild : node.child? step = some child) :
    ∃ (extent' : Extent) (context' : Context ignored extent'), Shown ignored extent' steps
      ∧ context'.depth = context.depth + 1 ∧ context'.fill child = context.fill node
      ∧ ∀ new, context'.fill new = context.fill (node.setChild new step) := by
  obtain ⟨head, fields, fragments⟩ := node
  cases step with
  | field name =>
    obtain ⟨before, after, rfl, hset⟩ := exists_fields_of_child? hchild
    exact ⟨.all, .field context head before name after fragments hshown.1, hshown.2, rfl, rfl,
      fun new => congrArg (fun fields => context.fill ⟨head, fields, fragments⟩) (hset new).symm⟩
  | fragment index =>
    cases extent with
    | fields => exact hshown.elim
    | all =>
      cases fragments with
      | none => cases hchild
      | some fragments =>
        obtain ⟨before, condition, after, rfl, hset⟩ := exists_fragments_of_child? hchild
        exact ⟨.fields, .fragment context head fields before condition after, hshown, rfl, rfl,
          fun new => congrArg (fun fs => context.fill ⟨head, fields, some fs⟩) (hset new).symm⟩

/-- **Steps to what is printed have a context**, in which a node is found and changed. -/
theorem exists_of_at? {steps : List Step} {extent : Extent} (context : Context ignored extent)
    {node target : Node} (hshown : Shown ignored extent steps)
    (hat : node.at? steps = some target) :
    ∃ (extent' : Extent) (context' : Context ignored extent'),
      context'.depth = context.depth + steps.length ∧ context'.fill target = context.fill node
        ∧ ∀ change, (node.modify? change steps).map context.fill
          = some (context'.fill (change target)) := by
  -- steps are taken from the root on, so the context grows where they go on
  induction steps generalizing extent node with
  | nil =>
    obtain rfl := Option.some.inj hat
    exact ⟨extent, context, rfl, rfl, fun change => rfl⟩
  | cons step steps ih =>
    obtain ⟨child, hchild, hat⟩ := Option.bind_eq_some_iff.1 hat
    obtain ⟨_, context₁, hshown₁, hdepth₁, hfill₁, hset⟩ := exists_of_child? context hshown hchild
    obtain ⟨_, context₂, hdepth₂, hfill₂, hchange⟩ := ih context₁ hshown₁ hat
    refine ⟨_, context₂, by rw [hdepth₂, hdepth₁, List.length_cons]; omega, hfill₂.trans hfill₁,
      fun change => ?_⟩
    obtain ⟨new, hnew, heq⟩ := Option.map_eq_some_iff.1 (hchange change)
    rw [← heq, hset new, modify?, hchild]
    simp [hnew]

end Context

/-- **A change of the fields at the end of the steps** is a change of one block of lines, as long as
the node opens a brace as before. Along these steps a change never fails. -/
theorem lines_of_modify? {ignored : List String} {steps : List Step} {root node : Node}
    (hshown : Shown ignored .fields steps) (hat : root.at? steps = some node) :
    ∃ above below : List Line,
      root.lines ignored = above ++ ((node.lines ignored).map (Line.raise steps.length) ++ below)
        ∧ ∀ change : Node → Node, (change node).head = node.head →
          (change node).fragments = node.fragments →
          (change node).opens ignored = node.opens ignored →
            (root.modify? change steps).map (lines ignored)
              = some (above
                ++ (((change node).lines ignored).map (Line.raise steps.length) ++ below)) := by
  obtain ⟨extent, context, hdepth, hfill, hchange⟩ := Context.exists_of_at? .root hshown hat
  have hsteps : context.depth = steps.length := by rw [hdepth, Context.depth, Nat.zero_add]
  have hlines := context.lines_fill_raised node
  rw [hfill, Context.fill, hsteps] at hlines
  refine ⟨_, _, hlines, fun change hhead hfragments hopens => ?_⟩
  obtain ⟨new, hnew, heq⟩ := Option.map_eq_some_iff.1 (hchange change)
  rw [Context.fill] at heq
  rw [hnew, Option.map_some, heq, context.lines_fill_raised, hhead, hfragments, hopens, hsteps]

end Node

end QueryTree

import QueryTree.Node.Head

/-!
# Node/Basic — query trees

A node is one level of a query: the fields selected there, in order, the head of the field that the
node belongs to, and the fragments that select more fields on a type condition. A field is a leaf,
selected if its value is truthy, or has a node of its own. The root of a tree is a node too; only
its fields are printed.
-/

namespace QueryTree

mutual

/-- One level of a query. `fragments := some []` still opens a selection. -/
structure Node where
  head : Head := {}
  fields : List Field := []
  fragments : Option (List Fragment) := none

/-- A field of a selection. -/
inductive Field where
  /-- A field without a selection, which is printed if the value is truthy. -/
  | leaf (name : String) (value : Value)
  /-- A field with data of its own. -/
  | node (name : String) (child : Node)

/-- Fields selected only where the type condition holds. -/
structure Fragment where
  typeCondition : String
  selection : Node

end

namespace Field

/-- The name of a field. -/
def name : Field → String
  | .leaf name _ => name
  | .node name _ => name

end Field

namespace Node

instance : Inhabited Node := ⟨{}⟩

/-- Whether a node holds neither fields nor any other data. -/
def isEmpty (node : Node) : Bool :=
  node.fields.isEmpty && node.head.isEmpty && node.fragments.isNone

/-! ## Equality

Nodes are equal if they have the same shape and equal parts, the values among them compared as
values (`Value/Basic`). -/

mutual

/-- Whether two nodes are equal. -/
def beq : Node → Node → Bool
  | ⟨head, fields, fragments⟩, ⟨head', fields', fragments'⟩ =>
    head == head' && beqFields fields fields' &&
      match fragments, fragments' with
      | none, none => true
      | some fs, some fs' => beqFragments fs fs'
      | _, _ => false

/-- Whether two lists have equal fields in the same places. -/
def beqFields : List Field → List Field → Bool
  | [], [] => true
  | .leaf name value :: rest, .leaf name' value' :: rest' =>
    name == name' && value == value' && beqFields rest rest'
  | .node name child :: rest, .node name' child' :: rest' =>
    name == name' && child.beq child' && beqFields rest rest'
  | _, _ => false

/-- Whether two lists have equal fragments in the same places. -/
def beqFragments : List Fragment → List Fragment → Bool
  | [], [] => true
  | ⟨condition, selection⟩ :: rest, ⟨condition', selection'⟩ :: rest' =>
    condition == condition' && selection.beq selection' && beqFragments rest rest'
  | _, _ => false

end

instance : BEq Node := ⟨beq⟩

end Node

end QueryTree

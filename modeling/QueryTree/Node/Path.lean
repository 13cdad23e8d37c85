import QueryTree.Node.Basic

/-!
# Node/Path — nodes inside a tree

A path leads from the root to a node below it, step by step: into the first field of a name that has
a node, or into the selection of a fragment by its place. `Node.modify?` changes the node at the end
of a path and leaves everything else as it is; it fails where a step has no target.
-/

namespace QueryTree

/-- One step down a tree. -/
inductive Step where
  /-- Into the first field of that name that has a node; leaves of the name are passed over. -/
  | field (name : String)
  /-- Into the selection of the fragment at that place. -/
  | fragment (index : Nat)
deriving DecidableEq

namespace Field

/-- The node of a field of that name. -/
def child? (name : String) : Field → Option Node
  | .leaf _ _ => none
  | .node name' child => if name' = name then some child else none

/-- Replaces the node of the first field of that name that has one. -/
def setChild (name : String) (child : Node) : List Field → List Field
  | [] => []
  | field :: rest =>
    if (field.child? name).isSome then .node name child :: rest
    else field :: setChild name child rest

end Field

namespace Node

/-- The node one step down. -/
def child? (node : Node) : Step → Option Node
  | .field name => node.fields.findSome? (Field.child? name)
  | .fragment index => (node.fragments.getD [])[index]?.map Fragment.selection

/-- Replaces the node one step down. -/
def setChild (node : Node) (child : Node) : Step → Node
  | .field name => { node with fields := Field.setChild name child node.fields }
  | .fragment index =>
    let replace (fragment : Fragment) : Fragment := { fragment with selection := child }
    { node with fragments := node.fragments.map (·.modify index replace) }

/-- The node at the end of a path. -/
def at? (node : Node) : List Step → Option Node
  | [] => some node
  | step :: path => (node.child? step).bind (at? · path)

/-- Changes the node at the end of a path. -/
def modify? (change : Node → Node) : List Step → Node → Option Node
  | [], node => some (change node)
  | step :: path, node => do
    let child ← node.child? step
    let child ← modify? change path child
    return node.setChild child step

end Node

end QueryTree

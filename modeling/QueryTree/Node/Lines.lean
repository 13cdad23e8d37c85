import QueryTree.Line
import QueryTree.Node.Basic

/-!
# Node/Lines — the lines of a query tree

Fields are taken in order, those with an ignored name left out at every level. A leaf is a line of
its own if its value is truthy. A field with a node is a line with its head; if the node has a field
that is not ignored, or a list of fragments, that line opens a brace, the selection follows one
level deeper, and a line closes the brace. Main definition: `Node.lines`, the lines of a root.
-/

namespace QueryTree.Node

/-- Whether a field with this node opens a brace. A falsy leaf counts, though it prints nothing. -/
def opens (ignored : List String) (node : Node) : Bool :=
  node.fields.any (fun field => !ignored.contains field.name) || node.fragments.isSome

mutual

/-- The lines of a field with a node of its own. -/
def fieldLines (ignored : List String) (level : Nat) (name : String) : Node → List Line
  | ⟨head, fields, fragments⟩ =>
    let token := head.token name
    let selection := selectionLines ignored (level + 1) fields
      ++ match fragments with
        | none => []
        | some fragments => fragmentLines ignored (level + 1) fragments
    if opens ignored ⟨head, fields, fragments⟩ then
      ⟨level, token ++ r" {"⟩ :: selection ++ [⟨level, r"}"⟩]
    else
      ⟨level, token⟩ :: selection

/-- The lines of the fields of a selection. -/
def selectionLines (ignored : List String) (level : Nat) : List Field → List Line
  | [] => []
  | .leaf name value :: rest =>
    (if ignored.contains name || !value.isTruthy then [] else [⟨level, name⟩])
      ++ selectionLines ignored level rest
  | .node name child :: rest =>
    (if ignored.contains name then [] else fieldLines ignored level name child)
      ++ selectionLines ignored level rest

/-- The lines of fragments, each between braces of its own. Of its node only the fields count. -/
def fragmentLines (ignored : List String) (level : Nat) : List Fragment → List Line
  | [] => []
  | ⟨condition, ⟨_, fields, _⟩⟩ :: rest =>
    ⟨level, "... on " ++ condition ++ r" {"⟩ :: selectionLines ignored (level + 1) fields
      ++ ⟨level, r"}"⟩ :: fragmentLines ignored level rest

end

/-- The lines of a tree: those of the fields of its root. -/
def lines (ignored : List String) (root : Node) : List Line :=
  selectionLines ignored 0 root.fields

end QueryTree.Node

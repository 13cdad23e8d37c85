import QueryTree.Node.Basic

/-!
# Node/Edit — building nodes up

A node is built by edits from the empty one. An edit touches one of seven slots: it adds a field, a
variable or a fragment at the end, adds an argument or replaces all of them, or sets an alias or the
directive. `Node.clear` empties a slot.
-/

namespace QueryTree

/-- The parts of a node. -/
inductive Slot where
  | fields
  | arguments
  | aliasName
  | aliasFor
  | declared
  | directive
  | fragments
deriving DecidableEq

/-- One change to a node. -/
inductive Edit where
  /-- Adds a field. -/
  | field (field : Field)
  /-- Adds a field that is selected without more. -/
  | select (name : String)
  /-- Adds an argument. -/
  | argument (argument : Named Value)
  /-- Replaces all arguments. -/
  | arguments (arguments : Arguments)
  | aliasName (name : String)
  | aliasFor (field : String)
  /-- Adds a variable. -/
  | declare (declaration : Named String)
  /-- Replaces the directive. -/
  | directive (directive : Directive)
  /-- Adds a fragment. -/
  | fragment (fragment : Fragment)

namespace Edit

/-- The slot that an edit touches. -/
def slot : Edit → Slot
  | field _ | select _ => .fields
  | argument _ | arguments _ => .arguments
  | aliasName _ => .aliasName
  | aliasFor _ => .aliasFor
  | declare _ => .declared
  | directive _ => .directive
  | fragment _ => .fragments

/-- A list with one more at its end; no list counts as an empty one. -/
def extend {α : Type} (list : Option (List α)) (last : α) : Option (List α) :=
  some (list.getD [] ++ [last])

/-- The node after an edit. -/
def apply (node : Node) : Edit → Node
  | .field new => { node with fields := node.fields ++ [new] }
  | .select name => { node with fields := node.fields ++ [.leaf name (.bool true)] }
  | .argument new =>
    { node with head := { node.head with arguments := extend node.head.arguments new } }
  | .arguments all => { node with head := { node.head with arguments := some all } }
  | .aliasName name => { node with head := { node.head with aliasName := some name } }
  | .aliasFor name => { node with head := { node.head with aliasFor := some name } }
  | .declare new =>
    { node with head := { node.head with declared := extend node.head.declared new } }
  | .directive new => { node with head := { node.head with directive := some new } }
  | .fragment new => { node with fragments := extend node.fragments new }

end Edit

namespace Node

/-- The node that edits build, in order, from the empty one. -/
def build (edits : List Edit) : Node :=
  edits.foldl Edit.apply {}

/-- Empties a slot. -/
def clear (node : Node) : Slot → Node
  | .fields => { node with fields := [] }
  | .arguments => { node with head := { node.head with arguments := none } }
  | .aliasName => { node with head := { node.head with aliasName := none } }
  | .aliasFor => { node with head := { node.head with aliasFor := none } }
  | .declared => { node with head := { node.head with declared := none } }
  | .directive => { node with head := { node.head with directive := none } }
  | .fragments => { node with fragments := none }

end Node

end QueryTree

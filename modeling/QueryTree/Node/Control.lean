import QueryTree.Node.Basic

/-!
# Node/Control — the reserved keys of a JSON query

A member of a JSON query is a field unless its key is one of seven control keys. They hold what a
field has besides its selection. `ControlKey` is the key as it is written, `Control` what it says of
a node once its value has been read.
-/

namespace QueryTree

/-- A key that never selects a field. -/
inductive ControlKey where
  | arguments
  | aliasName
  | aliasFor
  | declared
  | directives
  | fragments
  | fragmentName
deriving DecidableEq

namespace ControlKey

/-- All of the keys. -/
def all : List ControlKey :=
  [arguments, aliasName, aliasFor, declared, directives, fragments, fragmentName]

/-- How a key is written. -/
def text : ControlKey → String
  | arguments => "__args"
  | aliasName => "__alias"
  | aliasFor => "__aliasFor"
  | declared => "__variables"
  | directives => "__directives"
  | fragments => "__on"
  | fragmentName => "__fragmentName"

/-- The control key that a member's key is. -/
def ofText? (key : String) : Option ControlKey :=
  all.find? (·.text = key)

theorem ofText?_text (key : ControlKey) : ofText? key.text = some key := by
  cases key <;> decide

theorem text_of_ofText? {key : String} {control : ControlKey} (h : ofText? key = some control) :
    control.text = key := by
  simpa using List.find?_some h

end ControlKey

/-- A part of a node other than its fields, as control keys give it. -/
inductive Control where
  | arguments (as : Arguments)
  | aliasName (name : String)
  | aliasFor (field : String)
  | declared (vs : Variables)
  /-- The directive is absent where the mapping of directives is empty. -/
  | directive (d? : Option Directive)
  | fragments (fs : List Fragment)

namespace Control

/-- Puts the part in its place, where it replaces what was there. -/
def set (node : Node) : Control → Node
  | .arguments as => { node with head := { node.head with arguments := some as } }
  | .aliasName name => { node with head := { node.head with aliasName := some name } }
  | .aliasFor field => { node with head := { node.head with aliasFor := some field } }
  | .declared vs => { node with head := { node.head with declared := some vs } }
  | .directive d? => { node with head := { node.head with directive := d? } }
  | .fragments fs => { node with fragments := some fs }

/-- No control touches the fields. -/
@[simp] theorem fields_set (node : Node) (control : Control) :
    (set node control).fields = node.fields := by
  cases control <;> rfl

end Control

end QueryTree

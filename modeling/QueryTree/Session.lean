import QueryTree.Compile
import QueryTree.Node.Edit
import QueryTree.Node.Path

/-!
# Session — a tree under work

A session holds a root, empty at first, and options. Each operation gives the next session; one that
cannot be done leaves the session as it was, and says so by `none` or a fault.
-/

namespace QueryTree

/-- A tree under work and the options it is compiled with. -/
structure Session where
  root : Node := {}
  options : Options := {}

namespace Session

/-- Takes the tree of a JSON query for the root. -/
def load (session : Session) (ignored : List String) (query : Json) : Except Fault Session := do
  let root ← Node.ofJson ignored query
  return { session with root }

/-- Changes the node at the end of a path, and shows it after the change. -/
def modify? (session : Session) (path : List Step) (change : Node → Node) :
    Option (Node × Session) := do
  let root ← session.root.modify? change path
  let node ← session.root.at? path
  return (change node, { session with root })

/-- Applies an edit to the node at the end of a path. -/
def edit? (session : Session) (path : List Step) (edit : Edit) : Option (Node × Session) :=
  session.modify? path (Edit.apply · edit)

/-- Empties a slot of the node at the end of a path. -/
def clear? (session : Session) (path : List Step) (slot : Slot) : Option (Node × Session) :=
  session.modify? path (Node.clear · slot)

/-- The text of the tree. -/
def compile (session : Session) : Except Fault String :=
  QueryTree.compile session.root session.options

/-- The lines of the tree. -/
def lines (session : Session) : List Line :=
  session.root.lines session.options.ignored

end Session

end QueryTree

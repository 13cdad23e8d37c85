import QueryTree.Node.Lines
import QueryTree.Node.OfJson
import QueryTree.Options

/-!
# Compile — query trees as text

A tree becomes lines (`Node/Lines`) and the lines become text (`Line`). `compile` refuses a root
that holds nothing at all; `compileJson` starts from a JSON query and refuses an object without
members instead, so a query whose fields are all left out is the empty text.
-/

namespace QueryTree

/-- The text of a tree. -/
def Node.text (root : Node) (options : Options) : String :=
  Line.render options.pretty (root.lines options.ignored)

/-- The text of a tree, if its root holds anything. -/
def compile (root : Node) (options : Options) : Except Fault String :=
  if root.isEmpty then .error .noData else .ok (root.text options)

/-- The text of a JSON query. -/
def compileJson (query : Json) (options : Options) : Except Fault String := do
  let root ← Node.ofJson options.ignored query
  return root.text options

end QueryTree

import QueryTree.Proofs.Parts
import QueryTree.Text.Name

/-!
# Proofs/WellNamed — trees whose names are Names

Names are printed as they are, so a tree makes sense as a query only if its names are GraphQL Names.
Texts of string values may be anything. In a directive the quotes are dropped from a value, so a
string there is no string any more; `Node.DirectivesUnquoted` excludes them.
-/

namespace QueryTree

namespace Value

/-- The words that are literals and no enum constants. -/
def literals : List String := ["true", "false", "null"]

/-- Whether the names that a value itself shows are Names. -/
def wellNamed : Value → Bool
  | .var name => Name.isName name
  | .enum text => Name.isName text && !literals.contains text
  | .object fields => fields.all fun field => Name.isName field.name
  | _ => true

/-- Whether a value is a double. -/
def isFloat : Value → Bool
  | .float _ => true
  | _ => false

/-- Whether a value is a string. -/
def isString : Value → Bool
  | .string _ => true
  | _ => false

end Value

namespace Node

/-- All names in a tree are Names: those at its nodes and those inside of argument values. -/
structure WellNamed (root : Node) : Prop where
  names : ∀ node ∈ root.subnodes, ∀ name ∈ node.names, Name.isName name
  values : ∀ node ∈ root.subnodes, ∀ argument ∈ node.head.allArguments,
    ∀ part ∈ argument.value.parts, part.wellNamed

/-- No directive of a tree has a string in its arguments. -/
def DirectivesUnquoted (root : Node) : Prop :=
  ∀ node ∈ root.subnodes, ∀ argument ∈ node.head.directiveArguments,
    ∀ part ∈ argument.value.parts, part.isString = false

end Node

end QueryTree

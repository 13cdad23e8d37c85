import QueryTree.Compile
import QueryTree.Text.Listing

/-!
# Log — what a compilation notes

Compiling a tree notes what is compiled and how, and then each line with two blanks a level. The
notes are a function of the tree and the options; a query that is refused has none.
-/

namespace QueryTree

/-- How much a note matters. -/
inductive Note.Level where
  | debug
  | trace
deriving DecidableEq

/-- Something noted. -/
structure Note where
  level : Note.Level
  message : String
deriving DecidableEq

/-- The note on what is compiled: the number of fields of the root, and the options. -/
def Options.note (options : Options) (root : Node) : Note where
  level := .debug
  message := "Compiling query with " ++ root.fields.length.repr ++ " root fields (pretty: "
    ++ (if options.pretty then "true" else "false") ++ ", ignored: "
    ++ Listing.text options.ignored ++ ")"

/-- The note on a line. -/
def Line.note (line : Line) : Note where
  level := .trace
  message := String.ofList (List.replicate (2 * line.level) ' ') ++ line.text

/-- All notes of a compilation, in order. -/
def Node.notes (root : Node) (options : Options) : List Note :=
  options.note root :: (root.lines options.ignored).map Line.note

/-- The text of a JSON query, and the notes of its compilation. -/
def compileJsonNoted (query : Json) (options : Options) : Except Fault String × List Note :=
  (compileJson query options,
    match Node.ofJson options.ignored query with
    | .ok root => root.notes options
    | .error _ => [])

end QueryTree

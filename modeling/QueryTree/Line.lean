/-!
# Line — lines of text and how they are joined

A query is first a list of lines, each with the depth it stands at. `Line.render` joins them: one
below the other and indented by their depth, or all on one line.
-/

namespace QueryTree

/-- A line of text and the depth it stands at. -/
structure Line where
  level : Nat
  text : String
deriving DecidableEq

namespace Line

/-- The blanks before a line of that depth. -/
def indent (level : Nat) : String :=
  String.ofList (List.replicate (4 * level) ' ')

/-- What one line adds to the text before it. A separator goes between texts, so there is none
while that text is empty. -/
def add (pretty : Bool) (before : String) (line : Line) : String :=
  (if before.isEmpty then before else before.push (if pretty then '\n' else ' '))
    ++ (if pretty then indent line.level else "") ++ line.text

/-- The lines as one text: indented by four blanks a level, or separated by single blanks. -/
def render (pretty : Bool) (lines : List Line) : String :=
  lines.foldl (add pretty) ""

end Line

end QueryTree

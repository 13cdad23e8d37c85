import QueryTree.Text.CharClass.Marks
import QueryTree.Text.CharClass.Shapeless

/-!
# Text/Listing — names listed for a reader

A list of names is shown in brackets, each name in quotes. What a reader could not see or could
mistake for the end of a name is escaped: quotes, backslashes and line ends by their short escapes,
marks and characters without a shape of their own by their code in braces.
-/

namespace QueryTree.Listing

/-- Whether a character is shown by its code: alone it would not be seen, or it would be drawn onto
the character before it. -/
def isCoded (c : Char) : Bool :=
  CharClass.shapeless.holds c || CharClass.marks.holds c

/-- How a character of a name is shown. -/
def escape (c : Char) : String :=
  match c with
  | '"' => "\\\""
  | '\\' => "\\\\"
  | '\x00' => "\\0"
  | '\t' => "\\t"
  | '\n' => "\\n"
  | '\r' => "\\r"
  | c =>
    if isCoded c then
      String.ofList (['\\', 'u', '{'] ++ Nat.toDigits 16 c.toNat ++ ['}'])
    else
      String.singleton c

/-- How a name is shown. -/
def quote (name : String) : String :=
  "\"" ++ String.join (name.toList.map escape) ++ "\""

/-- How a list of names is shown. -/
def text (names : List String) : String :=
  "[" ++ ", ".intercalate (names.map quote) ++ "]"

end QueryTree.Listing

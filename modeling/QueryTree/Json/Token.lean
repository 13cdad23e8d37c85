import QueryTree.Decimal.Numeral
import QueryTree.Text.Name
import QueryTree.Text.Quoted

/-!
# Json/Token — the tokens of JSON text

A token is a bracket, a separator, a string, a number or a bare word. Blanks may stand between
tokens and separate nothing else: two tokens need no blank between them. Main definition:
`Token.lex`, which splits a text into its tokens.
-/

namespace QueryTree.Json

/-- A token of JSON text. -/
inductive Token where
  | openArray
  | closeArray
  | openObject
  | closeObject
  | comma
  | colon
  | string (s : String)
  | number (n : Numeral)
  | word (s : String)
deriving DecidableEq

namespace Token

/-- The characters that may stand between tokens. -/
def isBlank (c : Char) : Bool :=
  c == ' ' || c == '\t' || c == '\n' || c == '\r'

/-- The token that a bracket or a separator is. -/
def ofMark? : Char → Option Token
  | '[' => some .openArray
  | ']' => some .closeArray
  | '{' => some .openObject
  | '}' => some .closeObject
  | ',' => some .comma
  | ':' => some .colon
  | _ => none

/-- Reads the token that begins with the character `c`, and what follows it. -/
def scan (c : Char) (rest : List Char) : Option (Token × List Char) :=
  match ofMark? c with
  | some token => some (token, rest)
  | none =>
    if c = '"' then
      (Quoted.scan rest).map fun (s, after) => (.string (String.ofList s), after)
    else if Name.isStart c then
      let (s, after) := Name.scan rest
      some (.word (String.ofList (c :: s)), after)
    else
      (Numeral.scan (c :: rest)).map fun (n, after) => (.number n, after)

theorem length_le_of_scan {c : Char} {rest after : List Char} {token : Token}
    (h : scan c rest = some (token, after)) : after.length ≤ rest.length := by
  unfold scan at h
  split at h
  · cases h
    exact Nat.le_refl _
  · split at h
    · obtain ⟨⟨s, tail⟩, hs, htail⟩ := Option.map_eq_some_iff.1 h
      cases htail
      exact Nat.le_of_lt (Quoted.length_lt_of_scan hs)
    · split at h
      · cases h
        exact Name.length_scan_le rest
      · obtain ⟨⟨n, tail⟩, hn, htail⟩ := Option.map_eq_some_iff.1 h
        cases htail
        exact Nat.le_of_lt_succ (Numeral.length_lt_of_scan hn)

/-- The tokens of a text. -/
def lexChars (cs : List Char) : Option (List Token) :=
  match cs with
  | [] => some []
  | c :: rest =>
    if isBlank c then lexChars rest
    else
      match h : scan c rest with
      | none => none
      | some (token, after) =>
        have := length_le_of_scan h
        (lexChars after).map (token :: ·)
termination_by cs.length

/-- The tokens of a text. -/
def lex (s : String) : Option (List Token) :=
  lexChars s.toList

end Token

end QueryTree.Json

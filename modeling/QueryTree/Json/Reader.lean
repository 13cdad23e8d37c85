import QueryTree.Json.Basic
import QueryTree.Json.Token

/-!
# Json/Reader — JSON text read

The reader takes one token at a time and keeps the arrays and objects it is inside of as a stack of
frames. A `Grammar` says which words may stand for keys: none in JSON, any Name in the literals of
GraphQL. Main definition: `Json.read?`, which fails unless the whole text is one value.
-/

namespace QueryTree.Json

/-- What may be written for a key. -/
inductive Grammar where
  /-- String literals only. -/
  | strict
  /-- String literals and bare Names. -/
  | bareKeys
deriving DecidableEq

namespace Reader

/-- An array or an object that is still open, with what has been read of it, last first. -/
inductive Frame where
  | array (items : List Json)
  | object (members : List (Named Json)) (key : String)

/-- What the next token has to be. -/
inductive State where
  /-- A value. -/
  | value (frames : List Frame)
  /-- The first item of an array, or its end. -/
  | firstItem (frames : List Frame)
  /-- The first key of an object, or its end. -/
  | firstKey (frames : List Frame)
  /-- A key. -/
  | key (members : List (Named Json)) (frames : List Frame)
  /-- The colon behind a key. -/
  | colon (members : List (Named Json)) (key : String) (frames : List Frame)
  /-- What may follow a value: a comma or the end of what it stands in. -/
  | after (value : Json) (frames : List Frame)

/-- The value that a bare word is. -/
def ofWord? : String → Option Json
  | "null" => some .null
  | "true" => some (.bool true)
  | "false" => some (.bool false)
  | _ => none

/-- Reads the first token of a value. -/
def beginValue (frames : List Frame) : Token → Option State
  | .openArray => some (.firstItem frames)
  | .openObject => some (.firstKey frames)
  | .string s => some (.after (.string s) frames)
  | .number n => (Number.ofNumeral? n).map fun n => .after (.number n) frames
  | .word s => (ofWord? s).map fun value => .after value frames
  | _ => none

/-- Reads a key. -/
def readKey (grammar : Grammar) (members : List (Named Json)) (frames : List Frame) :
    Token → Option State
  | .string s => some (.colon members s frames)
  | .word s => if grammar = .bareKeys then some (.colon members s frames) else none
  | _ => none

/-- Reads what follows a value. -/
def endValue (value : Json) : List Frame → Token → Option State
  | .array items :: frames, .comma => some (.value (.array (value :: items) :: frames))
  | .array items :: frames, .closeArray =>
    some (.after (.array (value :: items).reverse) frames)
  | .object members key :: frames, .comma => some (.key (⟨key, value⟩ :: members) frames)
  | .object members key :: frames, .closeObject =>
    some (.after (.object (⟨key, value⟩ :: members).reverse) frames)
  | _, _ => none

/-- Reads one token. -/
def step (grammar : Grammar) : State → Token → Option State
  | .value frames, token => beginValue frames token
  | .firstItem frames, .closeArray => some (.after (.array []) frames)
  | .firstItem frames, token => beginValue (.array [] :: frames) token
  | .firstKey frames, .closeObject => some (.after (.object []) frames)
  | .firstKey frames, token => readKey grammar [] frames token
  | .key members frames, token => readKey grammar members frames token
  | .colon members key frames, .colon => some (.value (.object members key :: frames))
  | .colon _ _ _, _ => none
  | .after value frames, token => endValue value frames token

/-- The value read, if nothing is left open. -/
def State.result? : State → Option Json
  | .after json [] => some json
  | _ => none

end Reader

/-- The value that the tokens spell. -/
def ofTokens? (grammar : Grammar) (tokens : List Token) : Option Json :=
  (tokens.foldlM (Reader.step grammar) (.value [])).bind Reader.State.result?

/-- The value that a text spells. -/
def read? (grammar : Grammar) (s : String) : Option Json :=
  (Token.lex s).bind (ofTokens? grammar)

end QueryTree.Json

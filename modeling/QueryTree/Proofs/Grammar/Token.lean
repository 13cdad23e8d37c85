import QueryTree.Proofs.Reading.Quoted
import QueryTree.Proofs.Reading.Word

/-!
# Proofs/Grammar/Token — the tokens of GraphQL

GraphQL reads a text into tokens, each as long as it can be, and skips blanks, tabs, line breaks and
commas between them. `Lexes` says that the beginning of a text is read so, with the rest of the text
at hand to tell where its last token ends. Comments, block strings and the byte order mark are left
out: they are never printed, so no text needs them.
-/

namespace QueryTree.Grammar

/-! ## Words -/

/-- An integer: a sign if it is negative, and digits without a leading zero. -/
def IsInteger (word : List Char) : Prop :=
  ∃ whole, IsWhole whole ∧ (word = whole ∨ word = '-' :: whole)

/-- A point and digits. -/
def IsFraction (word : List Char) : Prop :=
  ∃ digits, digits.all Char.isDigit ∧ digits ≠ [] ∧ word = '.' :: digits

/-- A mark, a sign if there is one, and digits. -/
def IsExponent (word : List Char) : Prop :=
  ∃ mark sign digits, mark ∈ ['e', 'E'] ∧ sign ∈ [[], ['+'], ['-']] ∧ digits.all Char.isDigit
    ∧ digits ≠ [] ∧ word = mark :: (sign ++ digits)

/-- A number with a fraction or an exponent. -/
def IsFloat (word : List Char) : Prop :=
  ∃ whole fraction exponent, IsInteger whole ∧ (fraction = [] ∨ IsFraction fraction)
    ∧ (exponent = [] ∨ IsExponent exponent) ∧ (fraction ≠ [] ∨ exponent ≠ [])
    ∧ word = whole ++ fraction ++ exponent

/-- What may stand between the quotes of a string: characters for themselves, short escapes, and
codes of four hexadecimal digits. -/
inductive IsBody : List Char → Prop where
  | nil : IsBody []
  | plain {c : Char} {cs : List Char} (quote : c ≠ '"') (slash : c ≠ '\\') (code : 0x20 ≤ c.toNat)
    (rest : IsBody cs) : IsBody (c :: cs)
  | escape {c : Char} {cs : List Char} (letter : c ∈ ['"', '\\', '/', 'b', 'f', 'n', 'r', 't'])
    (rest : IsBody cs) : IsBody ('\\' :: c :: cs)
  | code {a b c d : Char} {cs : List Char} (digits : (Quoted.hex? a b c d).isSome)
    (rest : IsBody cs) : IsBody ('\\' :: 'u' :: a :: b :: c :: d :: cs)

/-! ## Tokens -/

/-- A token. -/
inductive Token where
  | punctuator (c : Char)
  /-- The three points before a fragment. -/
  | spread
  | name (s : String)
  | int (word : List Char)
  | float (word : List Char)
  /-- A string, by what stands between its quotes. -/
  | string (body : List Char)

namespace Token

/-- How a token is written. -/
def chars : Token → List Char
  | punctuator c => [c]
  | spread => ['.', '.', '.']
  | name s => s.toList
  | int word | float word => word
  | string body => '"' :: (body ++ ['"'])

/-- The characters that are tokens by themselves. -/
def punctuators : List Char :=
  ['!', '$', '&', '(', ')', ':', '=', '@', '[', ']', '{', '|', '}']

/-- The tokens that there are. -/
def Valid : Token → Prop
  | punctuator c => c ∈ punctuators
  | spread => True
  | name s => Name.isName s
  | int word => IsInteger word
  | float word => IsFloat word
  | string body => IsBody body

/-- The characters that may not follow a token, as it would not end there. -/
def goesOn : Token → Char → Bool
  | name _, c => Name.isRest c
  | int _, c | float _, c => c.isDigit || c == '.' || Name.isStart c
  | string [], c => c == '"'
  | _, _ => false

end Token

/-! ## Texts -/

/-- A character that is skipped between tokens. -/
def isIgnored (c : Char) : Bool :=
  c == ' ' || c == '\t' || c == '\n' || c == '\r' || c == ','

/-- **A text is read into tokens**, up to a rest. -/
inductive Lexes : List Char → List Token → List Char → Prop where
  | stop (rest : List Char) : Lexes rest [] rest
  | skip {c : Char} {cs : List Char} {tokens : List Token} {rest : List Char}
    (ignored : isIgnored c) (read : Lexes cs tokens rest) : Lexes (c :: cs) tokens rest
  | token {token : Token} {after : List Char} {tokens : List Token} {rest : List Char}
    (valid : token.Valid) (ends : Ends token.goesOn after) (read : Lexes after tokens rest) :
    Lexes (token.chars ++ after) (token :: tokens) rest

/-- A text that no token goes on with. -/
def Apart (rest : List Char) : Prop :=
  Ends (fun c => Name.isRest c || c == '.' || c == '"') rest

theorem apart_nil : Apart [] :=
  ends_nil _

/-- A text is apart if its first character goes on with no token. -/
theorem apart_cons {c : Char} (h : (Name.isRest c || c == '.' || c == '"') = false)
    (rest : List Char) : Apart (c :: rest) :=
  ends_cons.2 h

/-- Two texts that are apart are so together, also if the first one is empty. -/
theorem Apart.append {text rest : List Char} (h : Apart text) (hrest : Apart rest) :
    Apart (text ++ rest) := by
  cases text with
  | nil => exact hrest
  | cons c text => exact apart_cons (ends_cons.1 h) _

/-- What is apart ends any token before it. -/
theorem Apart.ends {rest : List Char} (h : Apart rest) (token : Token) :
    Ends token.goesOn rest := by
  intro c hc
  obtain ⟨⟨hrest, hpoint⟩, hquote⟩ := by simpa [Apart, Ends] using h c hc
  have hstart : Name.isStart c = false :=
    Bool.eq_false_iff.2 fun hstart => absurd (Name.isRest_of_isStart hstart) (by simp [hrest])
  have hdigit : c.isDigit = false := by
    simp only [Name.isRest, Char.isAlphanum, Bool.or_eq_false_iff] at hrest
    exact hrest.1.2
  cases token with
  | name s => exact hrest
  | int word => simp [Token.goesOn, hdigit, hpoint, hstart]
  | float word => simp [Token.goesOn, hdigit, hpoint, hstart]
  | string body => cases body <;> simp [Token.goesOn, hquote]
  | punctuator c => rfl
  | spread => rfl

namespace Lexes

variable {text after rest : List Char} {tokens tokens' : List Token}

/-- Reading goes on where it stopped. -/
theorem append (h : Lexes text tokens after) (h' : Lexes after tokens' rest) :
    Lexes text (tokens ++ tokens') rest := by
  induction h with
  | stop => exact h'
  | skip ignored _ ih => exact .skip ignored (ih h')
  | token valid ends _ ih => exact .token valid ends (ih h')

/-- What has been read to its end may be followed by text that stays apart. -/
theorem append_right (h : Lexes text tokens []) (hrest : Apart rest) :
    Lexes (text ++ rest) tokens rest := by
  generalize hnil : ([] : List Char) = after at h
  induction h with
  | stop =>
    subst hnil
    exact .stop rest
  | skip ignored _ ih => exact .skip ignored (ih hnil)
  | @token token after tokens after' valid ends _ ih =>
    rw [List.append_assoc]
    refine .token valid ?_ (ih hnil)
    cases after with
    | nil => exact hrest.ends token
    | cons c after => exact ends

end Lexes

/-! ## Spelling -/

/-- A text is read as these tokens, whatever stands apart behind it. -/
def Spells (text : List Char) (tokens : List Token) : Prop :=
  ∀ ⦃rest⦄, Apart rest → Lexes (text ++ rest) tokens rest

namespace Spells

variable {text text' : List Char} {tokens tokens' : List Token}

theorem nil : Spells [] [] :=
  fun rest _ => .stop rest

/-- A token is spelled by its own characters. -/
theorem of_token {token : Token} (valid : token.Valid) : Spells token.chars [token] :=
  fun rest hrest => .token valid (hrest.ends token) (.stop rest)

/-- Skipped characters make no token. -/
theorem skip {c : Char} (ignored : isIgnored c) (h : Spells text tokens) :
    Spells (c :: text) tokens :=
  fun _ hrest => .skip ignored (h hrest)

theorem skips (h : Spells text tokens) : ∀ {blanks : List Char}, blanks.all isIgnored →
    Spells (blanks ++ text) tokens
  | [], _ => h
  | c :: blanks, hblanks => by
      rw [List.all_cons, Bool.and_eq_true] at hblanks
      exact skip hblanks.1 (skips h hblanks.2)

/-- A punctuator ends wherever it stands. -/
theorem punctuator {c : Char} (valid : c ∈ Token.punctuators) (h : Spells text tokens) :
    Spells (c :: text) (.punctuator c :: tokens) :=
  fun _ hrest => @Lexes.token (.punctuator c) _ _ _ valid (fun _ _ => rfl) (h hrest)

theorem spread (h : Spells text tokens) :
    Spells ('.' :: '.' :: '.' :: text) (.spread :: tokens) :=
  fun _ hrest => @Lexes.token .spread _ _ _ trivial (fun _ _ => rfl) (h hrest)

/-- **Two texts are spelled one after the other** if the second keeps apart. -/
theorem append (h : Spells text tokens) (hapart : Apart text') (h' : Spells text' tokens') :
    Spells (text ++ text') (tokens ++ tokens') := by
  intro rest hrest
  rw [List.append_assoc]
  exact (h (hapart.append hrest)).append (h' hrest)

theorem name {s : String} (h : Name.isName s) : Spells s.toList [.name s] :=
  @of_token (.name s) h

/-- A name ends where text stands apart. -/
theorem name_append {s : String} (hname : Name.isName s) (hapart : Apart text)
    (h : Spells text tokens) : Spells (s.toList ++ text) (.name s :: tokens) :=
  (name hname).append hapart h

theorem int {word : List Char} (h : IsInteger word) : Spells word [.int word] :=
  @of_token (.int word) h

theorem float {word : List Char} (h : IsFloat word) : Spells word [.float word] :=
  @of_token (.float word) h

/-- A literal is one token, from quote to quote. -/
theorem string {body : List Char} (h : IsBody body) :
    Spells ('"' :: (body ++ ['"'])) [.string body] :=
  @of_token (.string body) h

end Spells

end QueryTree.Grammar

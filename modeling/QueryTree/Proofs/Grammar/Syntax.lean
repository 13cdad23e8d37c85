import QueryTree.Proofs.Grammar.Token
import QueryTree.Proofs.Spelling

/-!
# Proofs/Grammar/Syntax — the grammar of GraphQL

The productions of operations, as the grammar of GraphQL has them. Left out are the default value
and the directives of the declaration of a variable, in which all values are constant, fragments
with a name, and the definitions of types, so what is derived here is derived in the whole grammar.
`Sentence` is a text that is derived; `Reads` is one that is derived whatever stands apart behind
it, which is what the texts of parts are.
-/

namespace QueryTree.Grammar

/-- What tokens can be derived from. -/
inductive Nonterminal where
  | value
  /-- A name and its value: an argument, or a field of an object. -/
  | argument
  | arguments
  | directive
  | type
  | declaration
  | declarations
  | aliasName
  | condition
  | selection
  | selectionSet
  | operation
  | document
  /-- Any number of them, or none. -/
  | many (n : Nonterminal)
  /-- One of them, or none. -/
  | option (n : Nonterminal)

open Nonterminal in
/-- **The productions.** -/
inductive Derives : Nonterminal → List Token → Prop where
  | nil (n : Nonterminal) : Derives (many n) []
  | cons {n : Nonterminal} {ts us : List Token} (head : Derives n ts) (tail : Derives (many n) us) :
    Derives (many n) (ts ++ us)
  | none (n : Nonterminal) : Derives (option n) []
  | some {n : Nonterminal} {ts : List Token} (part : Derives n ts) : Derives (option n) ts
  -- values
  | variable (s : String) : Derives value [.punctuator '$', .name s]
  | int (word : List Char) : Derives value [.int word]
  | float (word : List Char) : Derives value [.float word]
  | string (body : List Char) : Derives value [.string body]
  | boolean {s : String} (word : s ∈ ["true", "false"]) : Derives value [.name s]
  | null : Derives value [.name "null"]
  | enum {s : String} (word : s ∉ ["true", "false", "null"]) : Derives value [.name s]
  | list {ts : List Token} (items : Derives (many value) ts) :
    Derives value (.punctuator '[' :: (ts ++ [.punctuator ']']))
  | object {ts : List Token} (fields : Derives (many argument) ts) :
    Derives value (.punctuator '{' :: (ts ++ [.punctuator '}']))
  -- heads of fields
  | argument (s : String) {ts : List Token} (part : Derives value ts) :
    Derives argument (.name s :: .punctuator ':' :: ts)
  | arguments {ts us : List Token} (head : Derives argument ts)
    (tail : Derives (many argument) us) :
    Derives arguments (.punctuator '(' :: (ts ++ us ++ [.punctuator ')']))
  | directive (s : String) {ts : List Token} (list : Derives (option arguments) ts) :
    Derives directive (.punctuator '@' :: .name s :: ts)
  | aliasName (s : String) : Derives aliasName [.name s, .punctuator ':']
  -- types
  | named (s : String) : Derives type [.name s]
  | listType {ts : List Token} (part : Derives type ts) :
    Derives type (.punctuator '[' :: (ts ++ [.punctuator ']']))
  | nonNull (s : String) : Derives type [.name s, .punctuator '!']
  | nonNullList {ts : List Token} (part : Derives type ts) :
    Derives type (.punctuator '[' :: (ts ++ [.punctuator ']', .punctuator '!']))
  | declaration (s : String) {ts : List Token} (part : Derives type ts) :
    Derives declaration (.punctuator '$' :: .name s :: .punctuator ':' :: ts)
  | declarations {ts us : List Token} (head : Derives declaration ts)
    (tail : Derives (many declaration) us) :
    Derives declarations (.punctuator '(' :: (ts ++ us ++ [.punctuator ')']))
  -- selections
  | field (s : String) {ts us vs ws : List Token} (other : Derives (option aliasName) ts)
    (list : Derives (option arguments) us) (annotations : Derives (many directive) vs)
    (braces : Derives (option selectionSet) ws) :
    Derives selection (ts ++ .name s :: (us ++ vs ++ ws))
  | condition (s : String) : Derives condition [.name "on", .name s]
  | fragment {ts us vs : List Token} (type : Derives (option condition) ts)
    (annotations : Derives (many directive) us) (braces : Derives selectionSet vs) :
    Derives selection (.spread :: (ts ++ us ++ vs))
  | selectionSet {ts us : List Token} (head : Derives selection ts)
    (tail : Derives (many selection) us) :
    Derives selectionSet (.punctuator '{' :: (ts ++ us ++ [.punctuator '}']))
  -- operations
  | operation {kind : String} (word : kind ∈ ["query", "mutation", "subscription"])
    {name : Option String} {ts us vs : List Token} (list : Derives (option declarations) ts)
    (annotations : Derives (many directive) us) (braces : Derives selectionSet vs) :
    Derives operation (.name kind :: ((name.map Token.name).toList ++ ts ++ us ++ vs))
  | document {ts us : List Token} (head : Derives operation ts)
    (tail : Derives (many operation) us) :
    Derives document (ts ++ us)

/-- **A text that is derived in the grammar.** -/
def Sentence (n : Nonterminal) (text : List Char) : Prop :=
  ∃ tokens, Derives n tokens ∧ Lexes text tokens []

/-- A text that is derived, whatever stands apart behind it. -/
def Reads (n : Nonterminal) (text : List Char) : Prop :=
  ∃ tokens, Derives n tokens ∧ Spells text tokens

variable {α : Type} {n : Nonterminal} {text : List Char}

/-- What is derived before anything apart is derived by itself. -/
theorem Reads.sentence (h : Reads n text) : Sentence n text := by
  obtain ⟨tokens, hderives, hread⟩ := h
  have := hread apart_nil
  rw [List.append_nil] at this
  exact ⟨tokens, hderives, this⟩

/-- …and the other way around: what is apart adds nothing to the last token. -/
theorem Sentence.reads (h : Sentence n text) : Reads n text := by
  obtain ⟨tokens, hderives, hread⟩ := h
  exact ⟨tokens, hderives, fun _ hrest => hread.append_right hrest⟩

theorem Reads.skip {c : Char} (ignored : isIgnored c) (h : Reads n text) : Reads n (c :: text) := by
  obtain ⟨tokens, hderives, hspells⟩ := h
  exact ⟨tokens, hderives, hspells.skip ignored⟩

/-! ## Lists and optional parts -/

/-- Texts that keep apart from each other are a list. -/
theorem reads_flatMap {print : α → List Char} (hapart : ∀ x, Apart (print x)) : ∀ {xs : List α},
    (∀ x ∈ xs, Reads n (print x)) → Apart (xs.flatMap print) ∧ Reads (.many n) (xs.flatMap print)
  | [], _ => ⟨apart_nil, [], .nil n, .nil⟩
  | x :: xs, h => by
      obtain ⟨ts, hx, hspells⟩ := h x List.mem_cons_self
      obtain ⟨htail, us, hxs, hspells'⟩ :=
        reads_flatMap hapart fun y hy => h y (List.mem_cons_of_mem _ hy)
      rw [List.flatMap_cons]
      exact ⟨(hapart x).append htail, ts ++ us, .cons hx hxs, hspells.append htail hspells'⟩

/-- **A list with commas** is read, and not only as any number of its members. -/
theorem reads_listed {print : α → List Char} {x : α} {xs : List α}
    (h : ∀ y ∈ x :: xs, Reads n (print y)) :
    ∃ ts us, Derives n ts ∧ Derives (.many n) us ∧ Spells (listed print (x :: xs)) (ts ++ us) := by
  obtain ⟨ts, hx, hspells⟩ := h x List.mem_cons_self
  have hbehind : ∀ y ∈ xs, Reads n (',' :: ' ' :: print y) := fun y hy =>
    ((h y (List.mem_cons_of_mem _ hy)).skip (by decide)).skip (by decide)
  obtain ⟨htail, us, hxs, hspells'⟩ := reads_flatMap (fun _ => apart_cons (by decide) _) hbehind
  exact ⟨ts, us, hx, hxs, hspells.append htail hspells'⟩

theorem reads_many_listed {print : α → List Char} {xs : List α}
    (h : ∀ x ∈ xs, Reads n (print x)) : Reads (.many n) (listed print xs) := by
  cases xs with
  | nil => exact ⟨[], .nil n, .nil⟩
  | cons x xs =>
    obtain ⟨ts, us, hx, hxs, hspells⟩ := reads_listed h
    exact ⟨ts ++ us, .cons hx hxs, hspells⟩

/-- A part in brackets ends with them. -/
theorem Spells.enclosed {opening closing : Char} (hopening : opening ∈ Token.punctuators)
    (hclosing : closing ∈ Token.punctuators)
    (hapart : (Name.isRest closing || closing == '.' || closing == '"') = false)
    {tokens : List Token} (h : Spells text tokens) :
    Spells (opening :: (text ++ [closing]))
      (.punctuator opening :: (tokens ++ [.punctuator closing])) :=
  .punctuator hopening (h.append (apart_cons hapart _) (.punctuator hclosing .nil))

end QueryTree.Grammar

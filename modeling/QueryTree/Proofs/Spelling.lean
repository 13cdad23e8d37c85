import QueryTree.Proofs.Printed
import QueryTree.Proofs.WellNamed

/-!
# Proofs/Spelling — texts character by character

The printers write in pieces. Here each text is an equation between lists of characters, in the
shape of what is printed: a list of values between brackets, an entry behind its name.
-/

namespace QueryTree

variable {α : Type}

/-! ## Lists and optional parts -/

/-- The texts of a list, a comma and a blank before each but the first. -/
def listed (print : α → List Char) : List α → List Char
  | [] => []
  | x :: xs => print x ++ xs.flatMap fun y => ',' :: ' ' :: print y

/-- A list of images is listed by the composed printer. -/
theorem listed_map {β : Type} (print : β → List Char) (f : α → β) (xs : List α) :
    listed print (xs.map f) = listed (fun x => print (f x)) xs := by
  cases xs with
  | nil => rfl
  | cons x xs => simp [listed, List.flatMap_map]

/-- Only the members of a list matter to how it is printed. -/
theorem listed_congr {print print' : α → List Char} {xs : List α}
    (h : ∀ x ∈ xs, print x = print' x) : listed print xs = listed print' xs := by
  cases xs with
  | nil => rfl
  | cons x xs =>
    rw [listed, listed, h x List.mem_cons_self, List.flatMap_def, List.flatMap_def,
      List.map_congr_left fun y hy => by rw [h y (List.mem_cons_of_mem _ hy)]]

/-- A character of a list is one of a separator or of a member. -/
theorem mem_listed {print : α → List Char} {xs : List α} {c : Char} (h : c ∈ listed print xs) :
    c = ',' ∨ c = ' ' ∨ ∃ x ∈ xs, c ∈ print x := by
  cases xs with
  | nil => exact absurd h List.not_mem_nil
  | cons x xs =>
    rcases List.mem_append.1 h with h | h
    · exact .inr (.inr ⟨x, List.mem_cons_self, h⟩)
    · obtain ⟨y, hy, h⟩ := List.mem_flatMap.1 h
      rcases List.mem_cons.1 h with h | h
      · exact .inl h
      · rcases List.mem_cons.1 h with h | h
        · exact .inr (.inl h)
        · exact .inr (.inr ⟨y, List.mem_cons_of_mem _ hy, h⟩)

/-- A part behind a blank and a mark, or nothing. -/
def optional (mark : Char) (print : α → List Char) : Option α → List Char
  | none => []
  | some x => ' ' :: mark :: print x

namespace Writes

/-- The characters of writes in a row, those of the first before those of the second. -/
theorem toList_text_append (writes writes' : Writes) :
    (text (writes ++ writes')).toList = writes.text.toList ++ writes'.text.toList := by
  simp [toList_text]

/-- The characters of one write stand before those of the others. -/
theorem toList_text_cons (s : String) (writes : Writes) :
    (text (s :: writes)).toList = s.toList ++ writes.text.toList := by
  simp [toList_text]

/-- **The text of a comma-separated list.** -/
theorem toList_commaSeparated (writes : α → Writes) : ∀ xs : List α,
    (commaSeparated (xs.map writes)).text.toList = listed (fun x => (writes x).text.toList) xs
  | [] => rfl
  | x :: xs => by
      rw [commaSeparated, List.map_cons, intercalate_cons, toList_text_append]
      simp [listed, toList_text, List.flatMap_assoc, List.flatMap_map]

end Writes

/-! ## Values -/

namespace Value

/-- The characters of a value. -/
def chars (v : Value) : List Char :=
  v.text.toList

end Value

namespace Arguments

/-- The characters of one argument, or of one field of an object. -/
def entryChars (argument : Named Value) : List Char :=
  argument.name.toList ++ ':' :: ' ' :: argument.value.chars

/-- The writes of an argument spell its name, a colon, a blank and its value. -/
theorem toList_entryWrites (argument : Named Value) :
    (entryWrites argument).text.toList = entryChars argument := by
  simp [entryWrites, entryChars, Value.chars, Value.text, Writes.toList_text]

end Arguments

namespace Value

/-- The characters of a value are those of its writes. -/
theorem chars_of_writes {v : Value} {writes : Writes} (h : v.writes = writes) :
    v.chars = writes.flatMap String.toList := by
  rw [chars, text, h, Writes.toList_text]

theorem chars_var (name : String) : (Value.var name).chars = '$' :: name.toList := by
  have hwrites : (Value.var name).writes = ["$", name] := rfl
  simp [chars_of_writes hwrites]

theorem chars_enum (s : String) : (Value.enum s).chars = s.toList := by
  have hwrites : (Value.enum s).writes = [s] := rfl
  simp [chars_of_writes hwrites]

/-- A string is spelled as the literal that `Quoted.writes` gives. -/
theorem chars_string (s : String) :
    (Value.string s).chars = (Quoted.writes s).text.toList := by
  rw [chars_of_writes rfl, Writes.toList_text]
  rfl

/-- Integers are spelled in decimal, the negative ones behind a minus sign. -/
theorem chars_int (n : Int64) : (Value.int n).chars = n.toInt.repr.toList := by
  have hwrites : (Value.int n).writes = [n.toInt.repr] := rfl
  simp [chars_of_writes hwrites]

theorem chars_float (x : Float) : (Value.float x).chars = (floatText x).toList := by
  have hwrites : (Value.float x).writes = [floatText x] := rfl
  simp [chars_of_writes hwrites]

theorem chars_bool (b : Bool) :
    (Value.bool b).chars = (if b then "true" else "false").toList := by
  have hwrites : (Value.bool b).writes = [if b then "true" else "false"] := rfl
  simp [chars_of_writes hwrites]

theorem chars_null : Value.null.chars = "null".toList := by
  have hwrites : Value.null.writes = ["null"] := rfl
  simp [chars_of_writes hwrites]

/-- A list of values is spelled between square brackets. -/
theorem chars_list (items : List Value) :
    (Value.list items).chars = '[' :: (listed chars items ++ [']']) := by
  rw [chars, text, writes, itemWrites_eq_map, List.cons_append, Writes.toList_text_cons,
    Writes.toList_text_append, Writes.toList_commaSeparated]
  rfl

/-- **An object is spelled between braces**, and each field as an argument is. -/
theorem chars_object (fields : List (Named Value)) :
    (Value.object fields).chars = '{' :: (listed Arguments.entryChars fields ++ ['}']) := by
  rw [chars, text, writes, Arguments.fieldWrites_eq_map, List.cons_append,
    Writes.toList_text_cons, Writes.toList_text_append, Writes.toList_commaSeparated,
    listed_congr fun argument _ => Arguments.toList_entryWrites argument]
  rfl

end Value

/-! ## Directives -/

namespace Directive

/-- The characters of one argument of a directive. -/
def entryChars (argument : Named Value) : List Char :=
  argument.name.toList ++ ':' :: ' ' :: argument.value.chars.filter (· ≠ '"')

/-- The characters of the arguments of a directive, in parentheses if it has any. -/
def argumentsChars : Option Arguments → List Char
  | none => []
  | some arguments => '(' :: (listed entryChars arguments ++ [')'])

/-- The characters of a directive: its name, and its arguments right behind it. -/
def chars (directive : Directive) : List Char :=
  directive.name.toList ++ argumentsChars directive.arguments

/-- The writes of a directive spell it. Quotes are dropped value by value, not from the names. -/
theorem toList_writes (directive : Directive) :
    directive.writes.text.toList = directive.chars := by
  unfold writes chars
  cases directive.arguments with
  | none => simp [argumentsChars, Writes.toList_text]
  | some arguments =>
    have hentry : ∀ argument ∈ arguments,
        (entryWrites argument).text.toList = entryChars argument := by
      intro argument _
      simp [entryWrites, entryChars, Value.chars, Writes.toList_text]
    simp only [List.cons_append]
    rw [Writes.toList_text_cons, Writes.toList_text_cons, Writes.toList_text_append,
      Writes.toList_commaSeparated, listed_congr hentry]
    rfl

end Directive

/-! ## The line of a field -/

namespace Entry

/-- The characters of an entry. -/
def chars : Entry → List Char
  | declaration d => '$' :: (d.name.toList ++ ':' :: ' ' :: d.value.toList)
  | argument a => Arguments.entryChars a

/-- The writes of an entry spell it, whether it declares a variable or gives an argument. -/
theorem toList_writes (entry : Entry) : entry.writes.text.toList = entry.chars := by
  cases entry with
  | declaration d => simp [writes, chars, Variables.entryWrites, Writes.toList_text]
  | argument a => exact Arguments.toList_entryWrites a

end Entry

namespace Attachment

/-- **The characters of an attachment**: two optional parts, one with a closing mark. -/
theorem toList_text (attachment : Attachment) : attachment.text.toList
    = optional '@' Directive.chars attachment.directive
      ++ optional '(' (fun entries => listed Entry.chars entries ++ [')']) attachment.entries := by
  have hentries : ∀ entries : List Entry,
      (Writes.commaSeparated (entries.map Entry.writes)).text.toList
        = listed Entry.chars entries := fun entries => by
    rw [Writes.toList_commaSeparated, listed_congr fun entry _ => Entry.toList_writes entry]
  rw [text, String.toList_append]
  congr 1
  · cases attachment.directive with
    | none => rfl
    | some directive => simp [optional, Directive.toList_writes]
  · cases attachment.entries with
    | none => rfl
    | some entries => simp [optional, Head.parenthesized, hentries]

end Attachment

namespace Item

/-- The names of a field: a colon and a blank before each but the first. -/
def chainChars : List String → List Char
  | [] => []
  | name :: names => name.toList ++ names.flatMap fun name => ':' :: ' ' :: name.toList

/-- The names of a field, joined by colons, spell their chain. -/
theorem toList_intercalate_chain : ∀ chain : List String,
    (": ".intercalate chain).toList = chainChars chain
  | [] => rfl
  | name :: names => by
      rw [String.toList_intercalate, List.map_cons, intercalate_cons, List.flatMap_map]
      rfl

/-- **The line of a field**: its names, and then what is attached to it. -/
theorem toList_token (chain : List String) (attachment : Attachment) :
    (token chain attachment).toList = chainChars chain ++ attachment.text.toList := by
  rw [token, String.toList_append, toList_intercalate_chain]

end Item

end QueryTree

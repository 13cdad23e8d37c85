import QueryTree.Printable

/-!
# Proofs/Entries — three lists of entries, printed alike

The fields of an object, the arguments of a field and those of a directive are the same kind of
list, printed in three places. Each entry is a name, a colon and a value, and between neighbours
stands a comma. A directive drops the quotes, from one value at a time: names aside, that is to drop
them from the whole list at once (`unquoted_entries`), since no separator has one.
-/

namespace QueryTree

/-! ## Texts of lists -/

namespace Writes

/-- **The text of a list** is that of its parts, with the separator between them. -/
theorem text_commaSeparated : ∀ parts : List Writes,
    (commaSeparated parts).text = ", ".intercalate (parts.map text)
  | [] => by rw [List.map_nil, String.intercalate_nil]; rfl
  | [part] => by
      rw [List.map_singleton, String.intercalate_singleton, commaSeparated,
        List.intercalate_singleton]
  | part :: next :: parts => by
      have ih := text_commaSeparated (next :: parts)
      rw [commaSeparated] at ih
      rw [List.map_cons, List.map_cons, String.intercalate_cons_cons, ← List.map_cons, ← ih,
        commaSeparated, List.intercalate_cons_cons, text_append, text_append, text_singleton]

end Writes

/-! ## Texts without quotes -/

/-- A text with all of its quotes dropped. -/
def unquoted (s : String) : String :=
  String.ofList (s.toList.filter (· ≠ '"'))

/-- Quotes are dropped character by character. -/
theorem unquoted_append (s t : String) : unquoted (s ++ t) = unquoted s ++ unquoted t := by
  rw [unquoted, String.toList_append, List.filter_append, String.ofList_append]
  rfl

/-- A text without quotes stays as it is. -/
theorem unquoted_eq_self {s : String} (h : '"' ∉ s.toList) : unquoted s = s := by
  have hall : ∀ c ∈ s.toList, decide (c ≠ '"') = true := fun c hc =>
    decide_eq_true fun heq => h (heq ▸ hc)
  rw [unquoted, List.filter_eq_self.2 hall, String.ofList_toList]

theorem quote_notMem_unquoted (s : String) : '"' ∉ (unquoted s).toList := by
  simp [unquoted]

/-- **Quotes are dropped part by part**, if the separator has none. -/
theorem unquoted_intercalate {sep : String} (h : '"' ∉ sep.toList) : ∀ parts : List String,
    unquoted (sep.intercalate parts) = sep.intercalate (parts.map unquoted)
  | [] => by rw [List.map_nil, String.intercalate_nil]; rfl
  | [part] => by
      rw [List.map_singleton, String.intercalate_singleton, String.intercalate_singleton]
  | part :: next :: parts => by
      have ih := unquoted_intercalate h (next :: parts)
      rw [List.map_cons] at ih
      rw [String.intercalate_cons_cons, unquoted_append, unquoted_append, unquoted_eq_self h, ih,
        List.map_cons, List.map_cons, String.intercalate_cons_cons]

/-! ## Entries -/

namespace Arguments

/-- The text of one entry. -/
def entryText (entry : Named Value) : String :=
  entry.name ++ ": " ++ entry.value.text

theorem text_entryWrites (entry : Named Value) : (entryWrites entry).text = entryText entry := by
  rw [entryWrites, Writes.text_cons, Writes.text_cons, entryText, String.append_assoc]
  rfl

/-- Arguments are their entries with a comma between them. -/
theorem text_writes (arguments : Arguments) :
    (Arguments.writes arguments).text = ", ".intercalate (arguments.map entryText) := by
  rw [writes, fieldWrites_eq_map, Writes.text_commaSeparated, List.map_map]
  exact congrArg _ (List.map_congr_left fun entry _ => text_entryWrites entry)

end Arguments

namespace Directive

/-- The text of one entry of a directive. -/
def entryText (entry : Named Value) : String :=
  entry.name ++ ": " ++ unquoted entry.value.text

theorem text_entryWrites (entry : Named Value) : (entryWrites entry).text = entryText entry := by
  rw [entryWrites, Writes.text_cons, Writes.text_cons, Writes.text_singleton, entryText,
    String.append_assoc]
  rfl

/-- A directive is its name and, in parentheses, its own entries. -/
theorem text_writes (name : String) (arguments : Arguments) :
    (Directive.writes ⟨name, some arguments⟩).text
      = name ++ "(" ++ ", ".intercalate (arguments.map entryText) ++ ")" := by
  have hentries : (arguments.map entryWrites).map Writes.text = arguments.map entryText := by
    rw [List.map_map]
    exact List.map_congr_left fun entry _ => text_entryWrites entry
  have hwrites : Directive.writes ⟨name, some arguments⟩
      = name :: "(" :: (Writes.commaSeparated (arguments.map entryWrites) ++ [")"]) := rfl
  rw [hwrites, Writes.text_cons, Writes.text_cons, Writes.text_append, Writes.text_singleton,
    Writes.text_commaSeparated, hentries, String.append_assoc, String.append_assoc]

/-- Only the value of an entry loses quotes, if its name has none. -/
theorem entryText_eq {entry : Named Value} (h : '"' ∉ entry.name.toList) :
    entryText entry = unquoted (Arguments.entryText entry) := by
  have hcolon : unquoted ": " = ": " := unquoted_eq_self (by decide)
  rw [entryText, Arguments.entryText, unquoted_append, unquoted_append, unquoted_eq_self h, hcolon]

/-- **The entries of a directive are those of a field without their quotes.** -/
theorem unquoted_entries {arguments : Arguments}
    (h : ∀ argument ∈ arguments, '"' ∉ argument.name.toList) :
    unquoted (Arguments.writes arguments).text = ", ".intercalate (arguments.map entryText) := by
  rw [Arguments.text_writes, unquoted_intercalate (by decide), List.map_map]
  exact congrArg _ (List.map_congr_left fun entry hentry => (entryText_eq (h entry hentry)).symm)

end Directive

/-- A list has the texts of its items between brackets. -/
theorem Value.text_list (items : List Value) :
    (Value.list items).text = "[" ++ ", ".intercalate (items.map text) ++ "]" := by
  rw [text, writes, List.cons_append, Writes.text_cons, Writes.text_append, Writes.text_singleton,
    itemWrites_eq_map, Writes.text_commaSeparated, List.map_map, String.append_assoc]
  rfl

/-- **An object is its fields, printed as arguments are**, between braces. -/
theorem Value.text_object (fields : List (Named Value)) :
    (Value.object fields).text = r"{" ++ (Arguments.writes fields).text ++ r"}" := by
  rw [text, writes, List.cons_append, Writes.text_cons, Writes.text_append, Writes.text_singleton,
    String.append_assoc]
  rfl

/-- **Objects, arguments and directives print their entries alike.** An object puts braces around
the text of the arguments. A directive puts its name and parentheses around this text without its
quotes, each entry by itself. -/
theorem Printable.text_entries (entries : List (Named Value)) :
    (object entries).text = r"{" ++ (arguments entries).text ++ r"}"
      ∧ ∀ name : String, (∀ entry ∈ entries, '"' ∉ entry.name.toList) →
        (directive ⟨name, some entries⟩).text
            = name ++ "(" ++ unquoted (arguments entries).text ++ ")"
          ∧ unquoted (arguments entries).text
            = ", ".intercalate (entries.map fun entry =>
                entry.name ++ ": " ++ unquoted (value entry.value).text)
          ∧ '"' ∉ (unquoted (arguments entries).text).toList := by
  refine ⟨Value.text_object entries, fun name hnames => ?_⟩
  have hentries := Directive.unquoted_entries hnames
  have hdirective := Directive.text_writes name entries
  rw [← hentries] at hdirective
  exact ⟨hdirective, hentries, quote_notMem_unquoted _⟩

/-- Quotes in a string, around it, and in the name of a field of a value. -/
def quotedEntries : List (Named Value) :=
  [⟨"says", .string "so \"he\" said"⟩, ⟨"at", .object [⟨"a\"b", .list [.string "", .int 1]⟩]⟩]

theorem Printable.text_entries_quotedEntries :
    (arguments quotedEntries).text = r#"says: "so \"he\" said", at: {a"b: ["", 1]}"#
      ∧ (directive ⟨"d", some quotedEntries⟩).text
        = r"d(says: so \he\ said, at: {ab: [, 1]})"
      ∧ (directive ⟨"d", some quotedEntries⟩).text
        = "d" ++ "(" ++ unquoted (arguments quotedEntries).text ++ ")" :=
  ⟨by decide, by decide, ((text_entries quotedEntries).2 "d" (by decide)).1⟩

end QueryTree

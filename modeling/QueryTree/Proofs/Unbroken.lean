import QueryTree.Proofs.Characters
import QueryTree.Proofs.Directives
import QueryTree.Proofs.Reading.Quoted

/-!
# Proofs/Unbroken — lines of a tree are lines of text

String literals escape line ends, so only texts that are printed as they are can break a line. Where
they do not (`Node.Unbroken`), the indented text of a tree splits at its line ends into the lines of
the tree, and the text in one line is made of the same lines (`split_text_eq_lines`).
-/

namespace QueryTree

/-! ## Lines of text -/

namespace Line

/-- The blanks of an indented line do not break it. -/
theorem newline_notMem_shown {line : Line} (h : '\n' ∉ line.text.toList) (pretty : Bool) :
    '\n' ∉ (line.shown pretty).toList := by
  cases pretty <;> simp [shown, indent, h]

end Line

namespace Node

/-- No text in a tree that is printed as it is has a line end in it. Those of strings may. -/
def Unbroken (root : Node) : Prop :=
  ∀ node ∈ root.subnodes, ∀ s ∈ node.bareTexts, '\n' ∉ s.toList

instance (root : Node) : Decidable root.Unbroken :=
  inferInstanceAs (Decidable (∀ node ∈ root.subnodes, ∀ s ∈ node.bareTexts, _))

variable {root : Node} {ignored : List String}

/-- No line of an unbroken tree holds a line end: strings have theirs escaped. -/
theorem newline_notMem_lines (h : root.Unbroken) :
    ∀ line ∈ root.lines ignored, '\n' ∉ line.text.toList := by
  have hmark : ∀ c, isMark c → c ≠ '\n' := by
    rintro _ hc rfl
    exact absurd hc (by decide)
  intro line hline hnewline
  refine forall_mem_lines hmark ?_ ?_ ignored line hline _ hnewline rfl
  · rintro s _ hc rfl
    exact absurd (Quoted.le_toNat_writes s _ hc) (by decide)
  · rintro node hnode s hs _ hc rfl
    exact h node hnode s hs hc

/-- With names for the fields of the root, no line is swallowed before the first. -/
theorem text_eq_intercalate (hnames : ∀ field ∈ root.fields, field.name ≠ "") (pretty : Bool) :
    root.text ⟨pretty, ignored⟩ = (String.singleton (Line.separator pretty)).intercalate
      ((root.lines ignored).map (Line.shown pretty)) := by
  refine Line.render_eq_intercalate fun line hline hempty => ?_
  have htext := text_selectionLines_ne_empty ignored 0 hnames line hline
  exact htext (String.append_eq_empty_iff.1 hempty).2

/-- **The lines of a tree are the lines of its indented text**, each behind its blanks, and with
blanks between them they are its text in one line. Without lines there is no text. -/
theorem split_text_eq_lines (hnames : ∀ field ∈ root.fields, field.name ≠ "")
    (h : root.Unbroken) (ignored : List String) :
    (root.lines ignored ≠ [] →
      ((root.text ⟨true, ignored⟩).split '\n').toList.map (·.copy)
          = (root.lines ignored).map (fun line =>
            String.ofList (List.replicate (4 * line.level) ' ') ++ line.text)
        ∧ root.text ⟨false, ignored⟩ = " ".intercalate ((root.lines ignored).map (·.text)))
      ∧ (root.lines ignored = [] → ∀ pretty, root.text ⟨pretty, ignored⟩ = "") := by
  refine ⟨fun hne => ⟨?_, ?_⟩, fun hnil pretty => ?_⟩
  · have hshown : ∀ s ∈ (root.lines ignored).map (Line.shown true), '\n' ∉ s.toList := by
      intro s hs
      obtain ⟨line, hline, rfl⟩ := List.mem_map.1 hs
      exact Line.newline_notMem_shown (newline_notMem_lines h line hline) true
    have hsplit := String.toList_split_intercalate hshown
    rw [if_neg (by simpa using hne)] at hsplit
    rw [text_eq_intercalate hnames]
    exact hsplit
  · have hshown : ∀ line ∈ root.lines ignored, line.shown false = line.text :=
      fun _ _ => String.empty_append
    rw [text_eq_intercalate hnames, List.map_congr_left hshown]
    rfl
  · rw [text, hnil, Line.render, List.foldl_nil]

/-- A tree with line ends in strings, one of them in a directive. -/
def verseTree : Node :=
  { fields := [.node "query"
      { head := { declared := some [⟨"by", "Poet!"⟩] }
        fields := [.node "poems"
          { head := {
              aliasName := some "verse"
              arguments := some [⟨"lines", .list [.string "one\ntwo", .object [⟨"last", .null⟩]]⟩]
              directive := some ⟨"has", some [⟨"text", .string "\n"⟩]⟩ }
            fields := [.leaf "id" (.bool true), .leaf "title" (.string "")] }] }] }

theorem split_text_eq_lines_verseTree : (∀ field ∈ verseTree.fields, field.name ≠ "")
    ∧ verseTree.Unbroken
    ∧ ((verseTree.text ⟨true, []⟩).split '\n').toList.map (·.copy)
      = [r"query ($by: Poet!) {",
        r#"    verse: poems @has(text: \n) (lines: ["one\ntwo", {last: null}]) {"#,
        "        id", r"    }", r"}"]
    ∧ verseTree.text ⟨false, []⟩ = r"query ($by: Poet!) { verse: poems @has(text: \n) "
      ++ r#"(lines: ["one\ntwo", {last: null}]) { id } }"# := by
  have hnames : ∀ field ∈ verseTree.fields, field.name ≠ "" := by decide
  have h : verseTree.Unbroken := by decide
  obtain ⟨hpretty, hcompact⟩ :=
    (split_text_eq_lines hnames h []).1 (by decide)
  exact ⟨hnames, h, hpretty, hcompact⟩

end Node

end QueryTree

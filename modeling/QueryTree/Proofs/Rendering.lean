import QueryTree.Compile
import QueryTree.Proofs.Spelling

/-!
# Proofs/Rendering — the text of lines, character by character

A line that stands behind others is separated from them; the first one that is not empty is not. So
the lines from that one on are joined by separators, and those before it are not seen
(`Line.render_eq_joined`). With the separator put before that one too, the text of lines is their
concatenation (`separator_cons_render`), and the text of items follows the structure of the items
(`Item.spelling`).
-/

namespace QueryTree

namespace Line

/-- What stands between two lines. -/
def separator (pretty : Bool) : Char :=
  if pretty then '\n' else ' '

/-- A line without the separator before it. -/
def shown (pretty : Bool) (line : Line) : String :=
  (if pretty then indent line.level else "") ++ line.text

/-- What stands between a line of that level and the line before it. -/
def gap (pretty : Bool) (level : Nat) : List Char :=
  separator pretty :: if pretty then List.replicate (4 * level) ' ' else []

/-- A line as it stands behind others. -/
def behind (pretty : Bool) (line : Line) : List Char :=
  gap pretty line.level ++ line.text.toList

theorem behind_eq (pretty : Bool) (line : Line) :
    behind pretty line = separator pretty :: (line.shown pretty).toList := by
  cases pretty <;> simp [behind, gap, shown, indent]

/-- A line behind a text that is not empty. -/
theorem toList_add {pretty : Bool} {before : String} (h : before ≠ "") (line : Line) :
    (add pretty before line).toList = before.toList ++ behind pretty line := by
  have hempty : before.isEmpty = false := by simpa using h
  cases pretty <;> simp [add, hempty, behind, gap, separator, indent]

theorem add_empty (pretty : Bool) (line : Line) : add pretty "" line = line.shown pretty := by
  cases pretty <;> simp [add, shown]

theorem add_ne_empty {pretty : Bool} {before : String} (h : before ≠ "") (line : Line) :
    add pretty before line ≠ "" := by
  intro hadd
  have hchars := congrArg String.toList hadd
  rw [toList_add h, behind_eq] at hchars
  simp at hchars

/-- **Lines behind a text that is not empty are all separated.** -/
theorem toList_foldl_add {pretty : Bool} {before : String} (h : before ≠ "") :
    ∀ lines : List Line, (lines.foldl (add pretty) before).toList
      = before.toList ++ lines.flatMap (behind pretty)
  | [] => by simp
  | line :: rest => by
      rw [List.foldl_cons, toList_foldl_add (add_ne_empty h line) rest, toList_add h,
        List.flatMap_cons, List.append_assoc]

/-- The first line has no separator before it. -/
theorem toList_render_cons {pretty : Bool} {line : Line} (h : line.shown pretty ≠ "")
    (rest : List Line) : (render pretty (line :: rest)).toList
      = (line.shown pretty).toList ++ rest.flatMap (behind pretty) := by
  rw [render, List.foldl_cons, add_empty, toList_foldl_add h]

/-- A line that shows nothing is not noticed at the beginning. -/
theorem render_cons_of_empty {pretty : Bool} {line : Line} (h : line.shown pretty = "")
    (rest : List Line) : render pretty (line :: rest) = render pretty rest := by
  rw [render, List.foldl_cons, add_empty, h, render]

/-- **Behind a separator, the text of lines is their concatenation**, if the first one shows
anything. -/
theorem separator_cons_render {pretty : Bool} {lines : List Line} (hne : lines ≠ [])
    (h : ∀ line ∈ lines.head?, line.shown pretty ≠ "") :
    separator pretty :: (render pretty lines).toList = lines.flatMap (behind pretty) := by
  cases lines with
  | nil => exact absurd rfl hne
  | cons line rest =>
    rw [toList_render_cons (h line rfl), List.flatMap_cons, behind_eq, List.cons_append]

/-- **Lines are joined by separators** if the first one shows anything. -/
theorem render_eq_intercalate {pretty : Bool} : ∀ {lines : List Line},
    (∀ line ∈ lines.head?, line.shown pretty ≠ "") → render pretty lines
      = (String.singleton (separator pretty)).intercalate (lines.map (shown pretty))
  | [], _ => rfl
  | line :: rest, h => by
      rw [← String.toList_inj, toList_render_cons (h line rfl), String.toList_intercalate,
        List.map_cons, List.map_cons, intercalate_cons, List.flatMap_map, List.flatMap_map,
        funext (behind_eq pretty)]
      simp

/-- **Lines are joined by separators** from the first one on that shows anything. -/
theorem render_eq_intercalate_dropWhile (pretty : Bool) : ∀ lines : List Line, render pretty lines
    = (String.singleton (separator pretty)).intercalate
      ((lines.dropWhile (·.shown pretty = "")).map (shown pretty))
  | [] => rfl
  | line :: rest => by
      by_cases h : line.shown pretty = ""
      · rw [render_cons_of_empty h, render_eq_intercalate_dropWhile pretty rest,
          List.dropWhile_cons, if_pos (decide_eq_true h)]
      · rw [List.dropWhile_cons, if_neg (by simpa using h)]
        exact render_eq_intercalate fun first hfirst => by
          obtain rfl : line = first := Option.some.inj hfirst
          exact h

theorem shown_compact (line : Line) : line.shown false = line.text :=
  String.empty_append

/-- A line is nothing among indented ones if it has no text and stands at the margin. -/
theorem shown_pretty_eq_empty_iff {line : Line} :
    line.shown true = "" ↔ line.text = "" ∧ line.level = 0 := by
  have hindent : indent line.level = "" ↔ line.level = 0 := by
    rw [indent, ← String.toList_inj, String.toList_ofList, String.toList_empty,
      List.replicate_eq_nil_iff]
    omega
  rw [shown, if_pos rfl, String.append_eq_empty_iff, hindent, and_comm]

/-- **The text of lines**: in one line they stand between blanks, from the first one on that has a
text; indented they stand between line ends, from the first one on that has a text or a level. -/
theorem render_eq_joined (lines : List Line) :
    render false lines = " ".intercalate ((lines.dropWhile (·.text = "")).map (·.text))
      ∧ render true lines = "\n".intercalate
        ((lines.dropWhile fun line => line.text = "" ∧ line.level = 0).map fun line =>
          String.ofList (List.replicate (4 * line.level) ' ') ++ line.text) := by
  constructor
  · rw [render_eq_intercalate_dropWhile, funext shown_compact]
    rfl
  · simp only [render_eq_intercalate_dropWhile, shown_pretty_eq_empty_iff]
    rfl

/-- A line without a text is dropped in front of others, unless its blanks show. -/
example : render false [⟨1, ""⟩, ⟨0, "id"⟩, ⟨0, ""⟩] = "id "
    ∧ render true [⟨1, ""⟩, ⟨0, "id"⟩, ⟨0, ""⟩] = "    \nid\n" := by
  decide

end Line

namespace Item

/-- The text of an item behind others. -/
def spelling (pretty : Bool) (level : Nat) (item : Item) : List Char :=
  (item.lines level).flatMap (Line.behind pretty)

/-- The text of items behind others. -/
def spellings (pretty : Bool) (level : Nat) (items : List Item) : List Char :=
  items.flatMap (spelling pretty level)

variable (pretty : Bool) (level : Nat)

theorem flatMap_behind_linesOf (items : List Item) :
    (linesOf level items).flatMap (Line.behind pretty) = spellings pretty level items := by
  induction items with
  | nil => rfl
  | cons item items ih =>
    rw [linesOf, List.flatMap_append, ih, spellings, spellings, List.flatMap_cons, spelling]

/-- The text of a selection behind its opening brace. -/
def bracedChars (items : List Item) : List Char :=
  spellings pretty (level + 1) items ++ (Line.gap pretty level ++ ['}'])

/-- **The text of a field**: its names, its attachment, and its selection in braces if it has
one. -/
theorem spelling_field (chain : List String) (attachment : Attachment)
    (selection : Option (List Item)) :
    spelling pretty level (.field chain attachment selection)
      = Line.gap pretty level ++ (chainChars chain ++ (attachment.text.toList
          ++ optional '{' (bracedChars pretty level) selection)) := by
  cases selection with
  | none => simp [spelling, lines, Line.behind, toList_token, optional]
  | some items =>
    simp [spelling, lines, Line.behind, toList_token, optional, bracedChars,
      flatMap_behind_linesOf]

theorem spelling_fragment (condition : String) (items : List Item) :
    spelling pretty level (.fragment condition items)
      = Line.gap pretty level ++ '.' :: '.' :: '.' :: ' ' :: 'o' :: 'n' :: ' ' :: (condition.toList
          ++ ' ' :: '{' :: bracedChars pretty level items) := by
  simp [spelling, lines, Line.behind, bracedChars, flatMap_behind_linesOf]

end Item

namespace Node

variable {root : Node} {pretty : Bool} {ignored : List String}

/-- The first line shows something if the first line of each item does. -/
theorem shown_ne_empty (h : ∀ item ∈ root.items ignored,
    ∀ line ∈ (item.lines 0).head?, line.text ≠ "") :
    ∀ line ∈ (root.lines ignored).head?, line.shown pretty ≠ "" := by
  rw [lines_eq_linesOf]
  intro line hline
  have htext : line.text ≠ "" := by
    cases hitems : root.items ignored with
    | nil => simp [hitems, Item.linesOf] at hline
    | cons item items =>
      obtain ⟨first, rest, hlines⟩ := List.exists_cons_of_ne_nil (item.lines_ne_nil 0)
      rw [hitems, Item.linesOf, hlines] at hline
      exact h item (by rw [hitems]; exact List.mem_cons_self) line (by rw [hlines]; exact hline)
  exact fun hempty => htext (String.append_eq_empty_iff.1 hempty).2

theorem lines_ne_nil (hne : root.items ignored ≠ []) : root.lines ignored ≠ [] := by
  obtain ⟨item, items, hitems⟩ := List.exists_cons_of_ne_nil hne
  rw [lines_eq_linesOf, hitems, Item.linesOf]
  exact List.append_ne_nil_of_left_ne_nil (item.lines_ne_nil 0) _

/-- **The text of a tree is that of its items**, behind a separator, if the first line holds
anything. -/
theorem separator_cons_text (hne : root.items ignored ≠ [])
    (h : ∀ item ∈ root.items ignored, ∀ line ∈ (item.lines 0).head?, line.text ≠ "") :
    Line.separator pretty :: (root.text ⟨pretty, ignored⟩).toList
      = Item.spellings pretty 0 (root.items ignored) := by
  rw [← Item.flatMap_behind_linesOf, ← lines_eq_linesOf]
  exact Line.separator_cons_render (lines_ne_nil hne) (shown_ne_empty h)

/-- A tree of which anything is printed has a text. -/
theorem text_ne_empty (hne : root.items ignored ≠ [])
    (h : ∀ item ∈ root.items ignored, ∀ line ∈ (item.lines 0).head?, line.text ≠ "") :
    root.text ⟨pretty, ignored⟩ ≠ "" := by
  obtain ⟨line, rest, hlines⟩ := List.exists_cons_of_ne_nil (lines_ne_nil hne)
  have hline : line.shown pretty ≠ "" := shown_ne_empty h line (by rw [hlines]; rfl)
  rw [text, hlines, ne_eq, ← String.toList_inj, Line.toList_render_cons hline]
  simp [hline]

/-- Where nothing is printed, the text is empty. -/
theorem text_of_items_eq_nil (h : root.items ignored = []) : root.text ⟨pretty, ignored⟩ = "" := by
  rw [text, lines_eq_linesOf, h]
  rfl

end Node

end QueryTree

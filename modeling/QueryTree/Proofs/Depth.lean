import QueryTree.Proofs.Spelling

/-!
# Proofs/Depth — levels and braces

Each line says at which level it stands, and the texts of the lines open and close braces. The two
agree: the level of a line is the number of braces that are open there (`level_eq_depth`), as long as
no name that can end a line has a brace in it. Lines are read from one depth to another
(`Line.Nested`), and an item is read from its level back to the same level.
-/

namespace QueryTree

namespace Line

/-- Whether the text of a line ends with a brace that it opens. -/
def opensBrace (line : Line) : Bool :=
  decide ([' ', '{'] <:+ line.text.toList)

/-- Whether a line is a closing brace. -/
def closesBrace (line : Line) : Bool :=
  decide (line.text = r"}")

/-- Lines that lead from one depth to another. Each stands at the depth reached before it; behind one
that opens a brace the depth is one more, and one that closes a brace stands at the depth it leads
back to. -/
inductive Nested : Nat → List Line → Nat → Prop
  | nil (depth : Nat) : Nested depth [] depth
  | plain {line : Line} {rest : List Line} {depth' : Nat} (hopens : line.opensBrace = false)
      (hcloses : line.closesBrace = false) (hrest : Nested line.level rest depth') :
      Nested line.level (line :: rest) depth'
  | opening {line : Line} {rest : List Line} {depth' : Nat} (hopens : line.opensBrace = true)
      (hcloses : line.closesBrace = false) (hrest : Nested (line.level + 1) rest depth') :
      Nested line.level (line :: rest) depth'
  | closing {line : Line} {rest : List Line} {depth' : Nat} (hopens : line.opensBrace = false)
      (hcloses : line.closesBrace = true) (hrest : Nested line.level rest depth') :
      Nested (line.level + 1) (line :: rest) depth'

namespace Nested

variable {depth depth' depth'' : Nat} {lines rest before after : List Line} {line : Line}

theorem append (h : Nested depth lines depth') (h' : Nested depth' rest depth'') :
    Nested depth (lines ++ rest) depth'' := by
  induction h with
  | nil => exact h'
  | plain hopens hcloses _ ih => exact .plain hopens hcloses (ih h')
  | opening hopens hcloses _ ih => exact .opening hopens hcloses (ih h')
  | closing hopens hcloses _ ih => exact .closing hopens hcloses (ih h')

/-- Between the two depths lie the braces that are opened and not closed. -/
theorem add_countP_closesBrace (h : Nested depth lines depth') :
    depth' + lines.countP closesBrace = depth + lines.countP opensBrace := by
  induction h with
  | nil => rfl
  | plain hopens hcloses _ ih =>
    simpa [hopens, hcloses] using ih
  | opening hopens hcloses _ ih =>
    simp only [List.countP_cons, hopens, hcloses, if_true] at ih ⊢
    simp only [Bool.false_eq_true, if_false]
    omega
  | closing hopens hcloses _ ih =>
    simp only [List.countP_cons, hopens, hcloses, if_true] at ih ⊢
    simp only [Bool.false_eq_true, if_false]
    omega

/-- What leads up to a line, and what follows it. -/
theorem exists_of_append_cons : ∀ {before : List Line} {depth : Nat},
    Nested depth (before ++ line :: after) depth' →
      ∃ reached, Nested depth before reached ∧ Nested reached (line :: after) depth'
  | [], depth, h => ⟨depth, .nil depth, h⟩
  | _ :: _, _, .plain hopens hcloses hrest => by
      obtain ⟨reached, hbefore, hafter⟩ := exists_of_append_cons hrest
      exact ⟨reached, .plain hopens hcloses hbefore, hafter⟩
  | _ :: _, _, .opening hopens hcloses hrest => by
      obtain ⟨reached, hbefore, hafter⟩ := exists_of_append_cons hrest
      exact ⟨reached, .opening hopens hcloses hbefore, hafter⟩
  | _ :: _, _, .closing hopens hcloses hrest => by
      obtain ⟨reached, hbefore, hafter⟩ := exists_of_append_cons hrest
      exact ⟨reached, .closing hopens hcloses hbefore, hafter⟩

/-- A closing brace counts for its own line, an opening one only for those below. -/
theorem level_add_of_cons (h : Nested depth (line :: rest) depth') :
    line.level + [line].countP closesBrace = depth := by
  cases h with
  | plain hopens hcloses _ => simp [hcloses]
  | opening hopens hcloses _ => simp [hcloses]
  | closing hopens hcloses _ => simp [hcloses]

/-- **The level of a line is the number of braces open there.** -/
theorem level_add_countP_closesBrace (h : Nested depth (before ++ line :: after) depth') :
    line.level + (before ++ [line]).countP closesBrace = depth + before.countP opensBrace := by
  obtain ⟨reached, hbefore, hafter⟩ := exists_of_append_cons h
  have hline := level_add_of_cons hafter
  have hcount := add_countP_closesBrace hbefore
  rw [List.countP_append]
  omega

end Nested

/-! ## The last character of a line -/

/-- Characters that do not end with a brace. -/
def Unbraced (cs : List Char) : Prop :=
  ∀ c ∈ cs.getLast?, c ≠ '{' ∧ c ≠ '}'

theorem unbraced_of_notMem {s : String} (h : '{' ∉ s.toList ∧ '}' ∉ s.toList) :
    Unbraced s.toList := by
  intro c hc
  have hmem := List.mem_of_getLast? (Option.mem_def.1 hc)
  exact ⟨fun heq => h.1 (heq ▸ hmem), fun heq => h.2 (heq ▸ hmem)⟩

theorem Unbraced.append {cs cs' : List Char} (h : Unbraced cs) (h' : Unbraced cs') :
    Unbraced (cs ++ cs') := by
  intro c hc
  rw [Option.mem_def, List.getLast?_append] at hc
  rcases Option.or_eq_some_iff.1 hc with hc | ⟨-, hc⟩
  · exact h' c hc
  · exact h c hc

/-- What stands before the last characters does not matter. -/
theorem Unbraced.append_left (cs : List Char) {cs' : List Char} (hne : cs' ≠ [])
    (h' : Unbraced cs') : Unbraced (cs ++ cs') := by
  intro c hc
  rw [Option.mem_def, List.getLast?_append] at hc
  rcases Option.or_eq_some_iff.1 hc with hc | ⟨hnone, -⟩
  · exact h' c hc
  · exact absurd (List.getLast?_eq_none_iff.1 hnone) hne

section

variable {line : Line}

/-- A line whose last character is no brace neither opens nor closes one. -/
theorem plain_of_unbraced (h : Unbraced line.text.toList) :
    line.opensBrace = false ∧ line.closesBrace = false := by
  refine ⟨decide_eq_false fun hsuffix => ?_, decide_eq_false fun htext => ?_⟩
  · obtain ⟨front, hfront⟩ := hsuffix
    exact (h '{' (by simp [← hfront])).1 rfl
  · exact (h '}' (by simp [htext])).2 rfl

theorem opening_brace (level : Nat) (text : String) :
    (Line.mk level (text ++ r" {")).opensBrace = true
      ∧ (Line.mk level (text ++ r" {")).closesBrace = false := by
  refine ⟨decide_eq_true ⟨text.toList, by simp⟩, decide_eq_false fun htext => ?_⟩
  have hlast := congrArg (·.toList.getLast?) htext
  simp at hlast

theorem closing_brace (level : Nat) : (Line.mk level r"}").opensBrace = false
    ∧ (Line.mk level r"}").closesBrace = true := by
  have hsuffix : ¬ [' ', '{'] <:+ ['}'] := by decide
  exact ⟨decide_eq_false (by simpa using hsuffix), decide_eq_true rfl⟩

end

/-- **Lines in braces** lead back to the depth they stand at. -/
theorem Nested.braced {level : Nat} {lines : List Line} (text : String)
    (h : Nested (level + 1) lines (level + 1)) :
    Nested level (⟨level, text ++ r" {"⟩ :: lines ++ [⟨level, r"}"⟩]) level := by
  obtain ⟨hopens, hcloses⟩ := opening_brace level text
  obtain ⟨hopens', hcloses'⟩ := closing_brace level
  exact .opening hopens hcloses (h.append (.closing hopens' hcloses' (.nil level)))

theorem Nested.single {level : Nat} {text : String} (h : Unbraced text.toList) :
    Nested level [⟨level, text⟩] level := by
  obtain ⟨hopens, hcloses⟩ : opensBrace ⟨level, text⟩ = false ∧ closesBrace ⟨level, text⟩ = false :=
    plain_of_unbraced h
  exact .plain hopens hcloses (.nil level)

end Line

namespace Item

/-- Items lead back to their level if each one does. -/
theorem nested_linesOf {level : Nat} {items : List Item}
    (h : ∀ item ∈ items, Line.Nested level (item.lines level) level) :
    Line.Nested level (linesOf level items) level := by
  induction items with
  | nil => exact .nil level
  | cons item items ih =>
    rw [linesOf]
    exact (h item List.mem_cons_self).append
      (ih fun item hitem => h item (List.mem_cons_of_mem _ hitem))

end Item

/-! ## The line of a field -/

section

variable {name : String} {head : Head}

/-- The names of a field end with its own name or with that of the field it is an alias for. -/
theorem unbraced_chain (hname : Line.Unbraced name.toList)
    (haliasFor : ∀ field ∈ head.aliasFor, Line.Unbraced field.toList) :
    Line.Unbraced (Item.chainChars (head.chain name)) := by
  have hmark : Line.Unbraced [':', ' '] := by simp [Line.Unbraced]
  have hnames : Line.Unbraced
      (name.toList ++ head.aliasFor.toList.flatMap fun field => ':' :: ' ' :: field.toList) := by
    cases hhead : head.aliasFor with
    | none => simpa using hname
    | some field => simpa using hname.append (hmark.append (haliasFor field hhead))
  cases haliasName : head.aliasName with
  | none => simpa [Head.chain, haliasName, Item.chainChars] using hnames
  | some aliasName =>
    have hbehind : Line.Unbraced ([':', ' '] ++ (name.toList
        ++ head.aliasFor.toList.flatMap fun field => ':' :: ' ' :: field.toList)) :=
      hmark.append hnames
    have hline := hbehind.append_left aliasName.toList (by simp)
    simpa [Head.chain, haliasName, Item.chainChars] using hline

/-- A directive ends with its name or with a parenthesis. -/
theorem unbraced_directive {directive : Directive}
    (h : Line.Unbraced directive.name.toList) : Line.Unbraced directive.chars := by
  unfold Directive.chars
  cases directive.arguments with
  | none => simpa [Directive.argumentsChars] using h
  | some arguments =>
    rw [Directive.argumentsChars, ← List.cons_append, ← List.append_assoc]
    exact Line.Unbraced.append_left _ (by simp) (by simp [Line.Unbraced])

theorem unbraced_attached
    (hdirective : ∀ directive ∈ head.directive, Line.Unbraced directive.name.toList) :
    Line.Unbraced head.attached.text.toList := by
  have hentries : ∀ entries : Option (List Entry), Line.Unbraced (optional '('
      (fun entries => listed Entry.chars entries ++ [')']) entries) := by
    rintro (_ | entries)
    · simp [optional, Line.Unbraced]
    · rw [optional, ← List.cons_append, ← List.cons_append]
      exact Line.Unbraced.append_left _ (by simp) (by simp [Line.Unbraced])
  rw [Attachment.toList_text]
  refine Line.Unbraced.append ?_ (hentries _)
  unfold Head.attached
  cases head.declared with
  | some declarations => simp [optional, Line.Unbraced]
  | none =>
    cases hhead : head.directive with
    | none => simp [optional, Line.Unbraced]
    | some directive =>
      have hmark : Line.Unbraced [' ', '@'] := by simp [Line.Unbraced]
      exact hmark.append (unbraced_directive (hdirective directive hhead))

end

/-! ## The lines of a tree -/

namespace Node

/-- The names at a node that can be the end of a line: those of its fields, the name it is an alias
for and the name of its directive. -/
def lastNames (node : Node) : List String :=
  node.fields.map (·.name) ++ node.head.aliasFor.toList
    ++ (node.head.directive.map (·.name)).toList

theorem mem_lastNames_of_field {node : Node} {field : Field} (h : field ∈ node.fields) :
    field.name ∈ node.lastNames :=
  List.mem_append_left _ (List.mem_append_left _ (List.mem_map_of_mem h))

/-- No name that can end a line has a brace in it. Aliases, arguments, types of variables and type
conditions may be anything. -/
def Unbraced (root : Node) : Prop :=
  ∀ node ∈ root.subnodes, ∀ name ∈ node.lastNames, '{' ∉ name.toList ∧ '}' ∉ name.toList

instance (root : Node) : Decidable root.Unbraced :=
  inferInstanceAs (Decidable (∀ node ∈ root.subnodes, ∀ name ∈ node.lastNames, _))

variable {root : Node}

/-- **Every item leads back to its level.** -/
theorem nested_lines (ignored : List String) (h : root.Unbraced) :
    ∀ item ∈ root.selection ignored, ∀ level, Line.Nested level (item.lines level) level := by
  have hnames : ∀ node ∈ root.subnodes, ∀ name ∈ node.lastNames, Line.Unbraced name.toList :=
    fun node hnode name hname => Line.unbraced_of_notMem (h node hnode name hname)
  refine @forall_selection ignored _ _ _ ?leaf ?field ?fragment root hnames fun node hnode =>
    hnames node (descendants_subset_subnodes _ hnode)
  case leaf =>
    intro node name value hnode hmem level
    have hname := hnode name (mem_lastNames_of_field hmem)
    exact .single (by simpa [Item.toList_token, Item.chainChars, Attachment.text] using hname)
  case field =>
    intro node name child hnode hchild hmem ih level
    have hname := hnode name (mem_lastNames_of_field hmem)
    have hline : Line.Unbraced (Item.token (child.head.chain name) child.head.attached).toList := by
      rw [Item.toList_token]
      refine (unbraced_chain hname fun field hfield => hchild field ?_).append
        (unbraced_attached fun directive hdirective => hchild directive.name ?_)
      · simp [lastNames, Option.mem_def.1 hfield]
      · simp [lastNames, Option.mem_def.1 hdirective]
    rw [fieldItem_eq]
    split
    · exact .braced _ (Item.nested_linesOf fun item hitem => ih item hitem (level + 1))
    · exact .single hline
  case fragment =>
    intro node condition child hnode hchild hmem ih level
    exact .braced _ (Item.nested_linesOf fun item hitem => ih item hitem (level + 1))

/-- The lines of a tree lead from no depth back to none. -/
theorem nested_lines_root (ignored : List String) (h : root.Unbraced) :
    Line.Nested 0 (root.lines ignored) 0 := by
  rw [lines_eq_linesOf]
  exact Item.nested_linesOf fun item hitem =>
    nested_lines ignored h item (List.mem_append_left _ hitem) 0

/-- **The level of a line is the depth of the braces around it**: the braces opened by earlier
lines, less those closed up to and including the line itself. These are never more, and by the end
of the lines every brace is closed. -/
theorem level_eq_depth (ignored : List String) (root : Node) (h : root.Unbraced) :
    Line.Nested 0 (root.lines ignored) 0
      ∧ (∀ before line after, root.lines ignored = before ++ line :: after →
        (before ++ [line]).countP Line.closesBrace ≤ before.countP Line.opensBrace
          ∧ line.level
            = before.countP Line.opensBrace - (before ++ [line]).countP Line.closesBrace)
      ∧ (root.lines ignored).countP Line.opensBrace
        = (root.lines ignored).countP Line.closesBrace := by
  have hnested := nested_lines_root ignored h
  refine ⟨hnested, fun before line after hlines => ?_, ?_⟩
  · have hlevel := (hlines ▸ hnested).level_add_countP_closesBrace
    omega
  · have hcount := hnested.add_countP_closesBrace
    omega

/-- A tree with braces in an alias, a string, a type and a type condition. -/
def bracedTree : Node :=
  { fields := [.node "query"
      { head := { declared := some [⟨"n", r"Int {"⟩] }
        fields := [.node "user"
          { head := { aliasName := some r"}", arguments := some [⟨"name", .string r"} {"⟩] }
            fields := [.leaf "id" (.bool true), .leaf "secret" (.bool true)]
            fragments := some [⟨r"{ }", { fields := [.leaf "since" (.int 1)] }⟩] }] }] }

theorem level_eq_depth_bracedTree : bracedTree.Unbraced ∧ ∃ above below,
    bracedTree.lines ["secret"] = above ++ ⟨3, "since"⟩ :: below
      ∧ 3 = above.countP Line.opensBrace - (above ++ [⟨3, "since"⟩]).countP Line.closesBrace
      ∧ (above ++ ⟨3, "since"⟩ :: below).countP Line.closesBrace = 3 := by
  have h : bracedTree.Unbraced := by decide
  obtain ⟨-, hlevel, -⟩ := level_eq_depth ["secret"] bracedTree h
  have hlines : bracedTree.lines ["secret"]
      = [⟨0, r"query ($n: Int {) {"⟩, ⟨1, r#"}: user (name: "} {") {"#⟩,
        ⟨2, "id"⟩, ⟨2, r"... on { } {"⟩] ++ ⟨3, "since"⟩
        :: [⟨2, r"}"⟩, ⟨1, r"}"⟩, ⟨0, r"}"⟩] := rfl
  exact ⟨h, _, _, hlines, (hlevel _ _ _ hlines).2, by decide⟩

end Node

end QueryTree

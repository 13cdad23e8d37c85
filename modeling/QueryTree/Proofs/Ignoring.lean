import QueryTree.Compile
import QueryTree.Proofs.Conversion
import QueryTree.Proofs.Printed

/-!
# Proofs/Ignoring — ignoring early and ignoring late

A name can be ignored while JSON is converted, so that the tree lacks its fields, or while lines are
made from a tree that has them. Ignoring names while lines are made is the same as making lines of
the tree `without` the fields of these names (`lines_ignored_eq_without`), and converting with more
names ignored gives just that tree, so both ways agree (`compileJson_of_ofJson`).
-/

namespace QueryTree

namespace Node

mutual

/-- A node without the fields of some names, at any depth and in fragments too. All else is kept. -/
def without (names : List String) : Node → Node
  | ⟨head, fields, fragments⟩ =>
    ⟨head, fieldsWithout names fields,
      match fragments with
      | none => none
      | some fragments => some (fragmentsWithout names fragments)⟩

/-- The fields of a list but those of some names, each without the fields of these names below. -/
def fieldsWithout (names : List String) : List Field → List Field
  | [] => []
  | .leaf name value :: rest =>
    if names.contains name then fieldsWithout names rest
    else .leaf name value :: fieldsWithout names rest
  | .node name child :: rest =>
    if names.contains name then fieldsWithout names rest
    else .node name (child.without names) :: fieldsWithout names rest

/-- Fragments without the fields of some names. -/
def fragmentsWithout (names : List String) : List Fragment → List Fragment
  | [] => []
  | ⟨condition, selection⟩ :: rest =>
    ⟨condition, selection.without names⟩ :: fragmentsWithout names rest

end

end Node

/-- A field without the fields of some names below it. -/
def Field.without (names : List String) : Field → Field
  | .leaf name value => .leaf name value
  | .node name child => .node name (child.without names)

/-- A control without the fields of some names in its fragments. -/
def Control.without (names : List String) : Control → Control
  | .fragments fs => .fragments (Node.fragmentsWithout names fs)
  | control => control

namespace Node

variable {names : List String}

/-- A field of one of the names is left out, with all that is below it. -/
theorem fieldsWithout_cons_of_mem {field : Field} (h : field.name ∈ names) (fields : List Field) :
    fieldsWithout names (field :: fields) = fieldsWithout names fields := by
  cases field with
  | leaf name value => rw [fieldsWithout, if_pos (by simpa [Field.name] using h)]
  | node name child => rw [fieldsWithout, if_pos (by simpa [Field.name] using h)]

/-- Another field stays, without the fields of these names below it. -/
theorem fieldsWithout_cons_of_not_mem {field : Field} (h : field.name ∉ names)
    (fields : List Field) :
    fieldsWithout names (field :: fields) = field.without names :: fieldsWithout names fields := by
  cases field with
  | leaf name value =>
    rw [fieldsWithout, if_neg (by simpa [Field.name] using h)]
    rfl
  | node name child =>
    rw [fieldsWithout, if_neg (by simpa [Field.name] using h)]
    rfl

/-- A node keeps its head, and its fragments stay, with the names left out inside. -/
theorem without_eq (names : List String) : ∀ node : Node, node.without names
    = ⟨node.head, fieldsWithout names node.fields, node.fragments.map (fragmentsWithout names)⟩
  | ⟨_, _, none⟩ => by
      rw [without]
      rfl
  | ⟨_, _, some _⟩ => by
      rw [without]
      rfl

/-- Controls are put in place before or after fields are removed. -/
theorem without_set (names : List String) (control : Control) (node : Node) :
    (Control.set node control).without names
      = Control.set (node.without names) (control.without names) := by
  cases control <;> simp [Control.set, Control.without, without_eq]

/-- To leave out names after the controls are set is to do so in each control before. -/
theorem without_foldl_set (names : List String) : ∀ (controls : List Control) (node : Node),
    (controls.foldl Control.set node).without names
      = (controls.map (Control.without names)).foldl Control.set (node.without names)
  | [], _ => rfl
  | control :: controls, node => by
      rw [List.foldl_cons, without_foldl_set names controls, without_set]
      rfl

/-! ## Ignoring early -/

/-- No control but that of fragments holds fields. -/
theorem without_of_headOf {field : String} {declares : Bool} {key : String} {json : Json}
    {control : Option Control} (h : headOf field declares key json = .ok control) :
    control.map (Control.without names) = control := by
  unfold headOf at h
  split at h
  · cases h
    rfl
  · unfold headControlOf at h
    split at h
    case h_5 =>
      split at h
      · cases h
        rfl
      · obtain ⟨d?, -, rfl⟩ := Except.map_eq_ok.1 h
        rfl
    all_goals
      cases h
      rfl

variable {A B : List String}

mutual

/-- **With more names ignored**, the fields of an object are those without the names. -/
theorem fieldsOf_of_subset (hsub : A ⊆ B) : ∀ {members : List (Named Json)} {fields : List Field},
    fieldsOf A members = .ok fields → fieldsOf B members = .ok (fieldsWithout B fields)
  | [], fields, h => by
      cases h
      rfl
  | ⟨key, json⟩ :: rest, fields, h => by
      by_cases hselects : selects A key
      · obtain ⟨hcontrol, hkept⟩ := (selects_eq_true_iff A).1 hselects
        rw [fieldsOf_cons_of_selects A hselects] at h
        obtain ⟨field, hfield, h⟩ := Except.bind_eq_ok.1 h
        obtain ⟨fields', hfields', h⟩ := Except.bind_eq_ok.1 h
        cases h
        have hrest := fieldsOf_of_subset hsub hfields'
        have hname := name_of_fieldOf A hfield
        by_cases hmem : key ∈ B
        · rw [fieldsOf_cons_of_not_selects B (by simp [selects, hmem]), hrest,
            fieldsWithout_cons_of_mem (hname ▸ hmem)]
        · rw [fieldsOf_cons_of_selects B ((selects_eq_true_iff B).2 ⟨hcontrol, hmem⟩),
            fieldOf_of_subset hsub hfield, hrest, fieldsWithout_cons_of_not_mem (hname ▸ hmem)]
          rfl
      · have hselects' : selects B key = false :=
          Bool.eq_false_iff.2 fun h => hselects (selects_of_subset A hsub h)
        rw [fieldsOf_cons_of_not_selects A (by simpa using hselects)] at h
        rw [fieldsOf_cons_of_not_selects B hselects']
        exact fieldsOf_of_subset hsub h
termination_by members => (sizeOf members, 0)

/-- …so is the node of a field, in its fields as well as in its fragments, -/
theorem fieldOf_of_subset (hsub : A ⊆ B) {name : String} : ∀ {json : Json} {field : Field},
    fieldOf A name json = .ok field → fieldOf B name json = .ok (field.without B)
  | .object members, field, h => by
      rw [fieldOf_object] at h ⊢
      obtain ⟨fields, hfields, h⟩ := Except.bind_eq_ok.1 h
      obtain ⟨controls, hcontrols, h⟩ := Except.bind_eq_ok.1 h
      cases h
      rw [fieldsOf_of_subset hsub hfields, controlsOf_of_subset hsub hcontrols, Field.without,
        without_foldl_set, without_eq]
      rfl
  | .null, _, h | .bool _, _, h | .number _, _, h | .string _, _, h | .array _, _, h => by
      cases h
      rfl
termination_by json => (sizeOf json, 0)

/-- …and the controls of an object. Of them only fragments have fields. -/
theorem controlsOf_of_subset (hsub : A ⊆ B) {name : String} {declares : Bool} :
    ∀ {members : List (Named Json)} {controls : List Control},
      controlsOf A name declares members = .ok controls →
        controlsOf B name declares members = .ok (controls.map (Control.without B))
  | [], controls, h => by
      cases h
      rfl
  | ⟨key, json⟩ :: rest, controls, h => by
      rw [controlsOf_cons] at h ⊢
      obtain ⟨control, hcontrol, h⟩ := Except.bind_eq_ok.1 h
      obtain ⟨controls', hcontrols', h⟩ := Except.bind_eq_ok.1 h
      cases h
      rw [controlOf_of_subset hsub hcontrol, controlsOf_of_subset hsub hcontrols']
      cases control <;> rfl
termination_by members => (sizeOf members, 0)

/-- One control key, by the kind of its value. -/
theorem controlOf_of_subset (hsub : A ⊆ B) {name : String} {declares : Bool} {key : String} :
    ∀ {json : Json} {control : Option Control}, controlOf A name declares key json = .ok control →
      controlOf B name declares key json = .ok (control.map (Control.without B))
  | .object members, control, h => by
      by_cases hkey : ControlKey.ofText? key = some .fragments
      · rw [controlOf_object hkey] at h ⊢
        obtain ⟨fragment, hfragment, rfl⟩ := Except.map_eq_ok.1 h
        rw [fragmentOf_of_subset hsub hfragment]
        cases fragment
        rfl
      · rw [controlOf_eq_headOf (absurd · hkey)] at h ⊢
        rw [h, without_of_headOf h]
  | .array items, control, h => by
      by_cases hkey : ControlKey.ofText? key = some .fragments
      · rw [controlOf_array hkey] at h ⊢
        obtain ⟨fragments, hfragments, rfl⟩ := Except.map_eq_ok.1 h
        rw [fragmentsOf_of_subset hsub hfragments]
        rfl
      · rw [controlOf_eq_headOf (absurd · hkey)] at h ⊢
        rw [h, without_of_headOf h]
  | .null, _, h | .bool _, _, h | .number _, _, h | .string _, _, h => by
      rw [controlOf_eq_headOf (by simp)] at h ⊢
      rw [h, without_of_headOf h]
termination_by json => (sizeOf json, 1)

/-- A fragment keeps its condition, and its selection is left without the names. -/
theorem fragmentOf_of_subset (hsub : A ⊆ B) : ∀ {json : Json} {fragment : Fragment},
    fragmentOf A json = .ok fragment →
      fragmentOf B json = .ok ⟨fragment.typeCondition, fragment.selection.without B⟩
  | .object members, fragment, h => by
      rw [fragmentOf_object] at h ⊢
      obtain ⟨condition, hcondition, h⟩ := Except.bind_eq_ok.1 h
      obtain ⟨fields, hfields, h⟩ := Except.bind_eq_ok.1 h
      cases h
      rw [hcondition, fieldsOf_of_subset hsub hfields, without_eq]
      rfl
  | .null, _, h | .bool _, _, h | .number _, _, h | .string _, _, h | .array _, _, h => by
      cases h
termination_by json => (sizeOf json, 0)

/-- The fragments of an array, each without the names. -/
theorem fragmentsOf_of_subset (hsub : A ⊆ B) : ∀ {items : List Json}
    {fragments : List Fragment},
    fragmentsOf A items = .ok fragments →
      fragmentsOf B items = .ok (fragmentsWithout B fragments)
  | [], fragments, h => by
      cases h
      rfl
  | json :: rest, fragments, h => by
      rw [fragmentsOf_cons] at h ⊢
      obtain ⟨fragment, hfragment, h⟩ := Except.bind_eq_ok.1 h
      obtain ⟨fragments', hfragments', h⟩ := Except.bind_eq_ok.1 h
      cases h
      rw [fragmentOf_of_subset hsub hfragment, fragmentsOf_of_subset hsub hfragments']
      cases fragment
      rfl
termination_by items => (sizeOf items, 0)

end

/-- **Ignoring more names never fails**, and leaves out their fields. -/
theorem ofJson_of_subset (hsub : A ⊆ B) {query : Json} {root : Node}
    (h : ofJson A query = .ok root) : ofJson B query = .ok (root.without B) := by
  unfold ofJson at h ⊢
  split at h
  · cases h
  · obtain ⟨fields, hfields, h⟩ := Except.bind_eq_ok.1 h
    cases h
    rw [fieldsOf_of_subset hsub hfields, without_eq]
    rfl
  · cases h

/-! ## Ignoring late -/

theorem name_without (field : Field) : (field.without names).name = field.name := by
  cases field <;> rfl

section

variable (A B : List String)

/-- Removed fields do not open a brace. -/
theorem any_fieldsWithout : ∀ fields : List Field,
    (fieldsWithout A fields).any (fun field => !B.contains field.name)
      = fields.any fun field => !(A ++ B).contains field.name
  | [] => rfl
  | field :: rest => by
      by_cases hmem : field.name ∈ A
      · rw [fieldsWithout_cons_of_mem hmem, any_fieldsWithout rest, List.any_cons]
        simp [hmem]
      · rw [fieldsWithout_cons_of_not_mem hmem, List.any_cons, any_fieldsWithout rest,
          List.any_cons, name_without]
        simp [hmem]

/-- A node opens a brace for what is left of it, just if it does so for what is not ignored. -/
theorem opens_without (node : Node) : (node.without A).opens B = node.opens (A ++ B) := by
  rw [without_eq, opens, opens, any_fieldsWithout, Option.isSome_map]

/-- A name that is left already is ignored just if it is one of the others. -/
theorem contains_append_of_not_mem {name : String} (h : name ∉ A) :
    (A ++ B).contains name = B.contains name := by
  simp [h]

mutual

/-- **Left out or ignored, a name is not printed**, in the node of a field… -/
theorem fieldLines_without (level : Nat) (name : String) : ∀ node : Node,
    fieldLines B level name (node.without A) = fieldLines (A ++ B) level name node
  | ⟨head, fields, fragments⟩ => by
      rw [fieldLines_eq, fieldLines_eq (A ++ B) level name ⟨head, fields, fragments⟩, opens_without,
        without_eq]
      simp only [selectionLines_without (level + 1) fields]
      cases fragments with
      | none => rfl
      | some fragments =>
        simp only [Option.map_some, Option.getD_some, fragmentLines_without (level + 1) fragments]

/-- …in a list of fields… -/
theorem selectionLines_without (level : Nat) : ∀ fields : List Field,
    selectionLines B level (fieldsWithout A fields) = selectionLines (A ++ B) level fields
  | [] => rfl
  | .leaf name value :: rest => by
      by_cases hmem : name ∈ A
      · rw [fieldsWithout_cons_of_mem hmem, selectionLines_without level rest, selectionLines]
        simp [hmem]
      · rw [fieldsWithout_cons_of_not_mem hmem, Field.without, selectionLines,
          selectionLines_without level rest, selectionLines, contains_append_of_not_mem A B hmem]
  | .node name child :: rest => by
      by_cases hmem : name ∈ A
      · rw [fieldsWithout_cons_of_mem hmem, selectionLines_without level rest, selectionLines]
        simp [hmem]
      · rw [fieldsWithout_cons_of_not_mem hmem, Field.without, selectionLines,
          selectionLines_without level rest, fieldLines_without level name child, selectionLines,
          contains_append_of_not_mem A B hmem]

/-- …and in a list of fragments. -/
theorem fragmentLines_without (level : Nat) : ∀ fragments : List Fragment,
    fragmentLines B level (fragmentsWithout A fragments) = fragmentLines (A ++ B) level fragments
  | [] => rfl
  | ⟨condition, ⟨head, fields, fragments⟩⟩ :: rest => by
      rw [fragmentsWithout, without_eq, fragmentLines, selectionLines_without (level + 1) fields,
        fragmentLines_without level rest, fragmentLines]

end

/-- **Removed fields are as good as ignored ones.** -/
theorem lines_without_append (root : Node) :
    (root.without A).lines B = root.lines (A ++ B) := by
  rw [without_eq]
  exact selectionLines_without A B 0 root.fields

end

/-! ## The set of names -/

mutual

/-- Only which names are in the list matters to what is left. -/
theorem without_congr (h : ∀ name, A.contains name = B.contains name) : ∀ node : Node,
    node.without A = node.without B
  | ⟨_, fields, none⟩ => by
      rw [without_eq, without_eq, fieldsWithout_congr h fields]
      rfl
  | ⟨_, fields, some fragments⟩ => by
      rw [without_eq, without_eq, fieldsWithout_congr h fields]
      simp only [Option.map_some, fragmentsWithout_congr h fragments]

theorem fieldsWithout_congr (h : ∀ name, A.contains name = B.contains name) :
    ∀ fields : List Field, fieldsWithout A fields = fieldsWithout B fields
  | [] => rfl
  | .leaf name _ :: rest => by
      rw [fieldsWithout, fieldsWithout, h name, fieldsWithout_congr h rest]
  | .node name child :: rest => by
      rw [fieldsWithout, fieldsWithout, h name, without_congr h child, fieldsWithout_congr h rest]

theorem fragmentsWithout_congr (h : ∀ name, A.contains name = B.contains name) :
    ∀ fragments : List Fragment, fragmentsWithout A fragments = fragmentsWithout B fragments
  | [] => rfl
  | ⟨_, selection⟩ :: rest => by
      rw [fragmentsWithout, fragmentsWithout, without_congr h selection,
        fragmentsWithout_congr h rest]

end

/-- **Neither the order nor the repetition of ignored names matters.** -/
theorem lines_congr (h : ∀ name, name ∈ A ↔ name ∈ B) (root : Node) :
    root.lines A = root.lines B := by
  have hcontains : ∀ name, A.contains name = B.contains name := fun name => by simp [h name]
  rw [← List.append_nil A, ← lines_without_append, without_congr hcontains, lines_without_append,
    List.append_nil]

/-- **Lines show the same with and without the fields of ignored names.** -/
theorem lines_without (ignored : List String) (root : Node) :
    (root.without ignored).lines ignored = root.lines ignored := by
  rw [lines_without_append]
  exact lines_congr (by simp) root

/-- **Ignoring names is deleting their fields.** A tree has the lines of the tree without the fields
of the ignored names, at any depth and in fragments too. Of a tree without some fields, ignoring
more names gives the lines that ignoring all of them gives; which names they are is all that
matters. -/
theorem lines_ignored_eq_without (root : Node) :
    (∀ names, root.lines names = (root.without names).lines [])
      ∧ (∀ A B, (root.without A).lines B = root.lines (A ++ B))
      ∧ ∀ A B, (∀ name, name ∈ A ↔ name ∈ B) → root.lines A = root.lines B := by
  refine ⟨fun names => ?_, fun A B => lines_without_append A B root,
    fun A B h => lines_congr h root⟩
  rw [lines_without_append, List.append_nil]

/-- A tree with a field that loses its braces without `secret`, and another one that keeps them. -/
def maskedTree : Node :=
  { fields := [
      .node "user" { fields := [.leaf "secret" (.bool true)] },
      .node "team"
        { fields := [.node "secret" { fields := [.leaf "id" (.bool true)] }]
          fragments := some [⟨"Open",
            { fields := [.leaf "secret" (.bool true), .leaf "id" (.bool true)] }⟩] }] }

theorem lines_ignored_eq_without_maskedTree :
    (∀ name, name ∈ ["secret", "owner"] ↔ name ∈ ["owner", "secret", "owner"])
      ∧ maskedTree.lines ["secret", "owner"] = maskedTree.lines ["owner", "secret", "owner"]
      ∧ maskedTree.lines ["secret", "owner"] = [⟨0, "user"⟩, ⟨0, r"team {"⟩,
        ⟨1, r"... on Open {"⟩, ⟨2, "id"⟩, ⟨1, r"}"⟩, ⟨0, r"}"⟩] := by
  have h : ∀ name, name ∈ ["secret", "owner"] ↔ name ∈ ["owner", "secret", "owner"] := by
    simp [or_comm]
  exact ⟨h, (lines_ignored_eq_without maskedTree).2.2 _ _ h, rfl⟩

end Node

/-- A query compiles to a text just if it is converted to a tree that has this text. -/
theorem compileJson_eq_ok {query : Json} {options : Options} {text : String} :
    compileJson query options = .ok text
      ↔ ∃ root, Node.ofJson options.ignored query = .ok root ∧ root.text options = text := by
  rw [compileJson, Except.bind_eq_ok]
  simp [pure, Except.pure]

/-- A converted tree holds its fields and nothing else. -/
theorem Node.isEmpty_of_ofJson {ignored : List String} {query : Json} {root : Node}
    (h : ofJson ignored query = .ok root) : root.isEmpty = root.fields.isEmpty := by
  unfold ofJson at h
  split at h
  · cases h
  · obtain ⟨fields, -, h⟩ := Except.bind_eq_ok.1 h
    cases h
    simp [isEmpty, Head.isEmpty]
  · cases h

/-- **Ignoring while converting agrees with ignoring while printing.** If a query converts with
some names ignored, it converts with more of them to the same tree without their fields, and
compiles to the lines of the first tree. Compiling that tree gives the same, unless it has no
fields at all: then the query is an empty text and the tree is refused. -/
theorem compileJson_of_ofJson {A B : List String} (hsub : A ⊆ B) {query : Json} {root : Node}
    (h : Node.ofJson A query = .ok root) :
    Node.ofJson B query = .ok (root.without B)
      ∧ ∀ pretty, compileJson query ⟨pretty, B⟩ = .ok (Line.render pretty (root.lines B))
        ∧ (root.fields ≠ [] → compileJson query ⟨pretty, B⟩ = compile root ⟨pretty, B⟩)
        ∧ (root.fields = [] → compileJson query ⟨pretty, B⟩ = .ok ""
          ∧ compile root ⟨pretty, B⟩ = .error .noData
          ∧ Fault.noData.report
            = { kind := .invalidInput, message := "query object has no data" }) := by
  have hB := Node.ofJson_of_subset hsub h
  refine ⟨hB, fun pretty => ?_⟩
  have htext : compileJson query ⟨pretty, B⟩ = .ok (Line.render pretty (root.lines B)) := by
    rw [compileJson_eq_ok]
    exact ⟨_, hB, by rw [Node.text, Node.lines_without]⟩
  refine ⟨htext, fun hne => ?_, fun hnil => ⟨?_, ?_, rfl⟩⟩
  · rw [htext, compile, Node.isEmpty_of_ofJson h]
    simp [hne, Node.text]
  · rw [htext, Node.lines, hnil]
    rfl
  · rw [compile, Node.isEmpty_of_ofJson h, hnil]
    rfl

/-- A query with a field of the same name in a selection and in a fragment. -/
def secretQuery : Json :=
  .object [⟨"user", .object [⟨"id", .bool true⟩, ⟨"secret", .bool true⟩,
    ⟨"__on", .object [⟨"__fragmentName", .string "Admin"⟩, ⟨"secret", .bool true⟩,
      ⟨"since", .bool true⟩]⟩]⟩]

/-- The tree of the query with nothing ignored. -/
def secretTree : Node :=
  { fields := [.node "user"
      { fields := [.leaf "id" (.bool true), .leaf "secret" (.bool true)],
        fragments := some [⟨"Admin",
          { fields := [.leaf "secret" (.bool true), .leaf "since" (.bool true)] }⟩] }] }

theorem compileJson_of_ofJson_secretQuery : compileJson secretQuery ⟨false, ["secret"]⟩
    = .ok (Line.render false (secretTree.lines ["secret"])) :=
  ((compileJson_of_ofJson (List.nil_subset ["secret"]) (by rfl)).2 false).1

end QueryTree

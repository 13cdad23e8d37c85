import QueryTree.Proofs.Insertion
import QueryTree.Proofs.Frames

/-!
# Proofs/Directives — directives are checked where they are printed

A mapping of directives in a JSON query is looked at only as part of a field whose line shows it. In
any other place every mapping will do; there, a mapping is refused or is one piece of text more.
Main result: `compileJson_directives`.
-/

namespace QueryTree

/-! ## The line of a field with a directive -/

/-- What a directive adds to a line. -/
def Directive.piece : Option Directive → String
  | none => ""
  | some directive => " @" ++ directive.writes.text

theorem Directive.piece_some_ne_empty (directive : Directive) : piece (some directive) ≠ "" := by
  simp [piece]

/-- The directive that a member of directives is: a bare name if its value is a boolean, with
arguments if it is an object. -/
def Directive.ofMember? : Named Json → Option Directive
  | ⟨name, .bool _⟩ => some ⟨name, none⟩
  | ⟨name, .object members⟩ => some ⟨name, some (Value.ofMembers members)⟩
  | _ => none

namespace Head

theorem token_ne_empty (head : Head) {name : String} (h : name ≠ "") : head.token name ≠ "" := by
  simp [token, h]

/-- The directive stands in one place of the line. -/
theorem exists_token_eq {head : Head} (h : head.declared = none) (name : String) :
    ∃ left right, (left = "" → name = "") ∧ ∀ directive : Option Directive,
      ({ head with directive } : Head).token name
        = left ++ (Directive.piece directive ++ right) := by
  let names : Head := { aliasName := head.aliasName, aliasFor := head.aliasFor }
  let arguments : Head := { arguments := head.arguments }
  refine ⟨names.token name, arguments.attachment, fun hempty => ?_, fun directive => ?_⟩
  · exact Classical.byContradiction fun hname => names.token_ne_empty hname hempty
  · cases directive <;>
      simp [names, arguments, token, attachment, h, Directive.piece, String.append_assoc]

end Head

namespace Node

/-- A field whose name is not empty begins with a line that shows something. -/
theorem text_fieldLines_ne_empty (ignored : List String) (level : Nat) {name : String}
    (hname : name ≠ "") (node : Node) :
    ∀ line ∈ (fieldLines ignored level name node).head?, line.text ≠ "" := by
  intro line hline
  rw [fieldLines_eq] at hline
  split at hline
  · obtain rfl : _ = line := by simpa using hline
    simp
  · obtain rfl : _ = line := by simpa using hline
    exact node.head.token_ne_empty hname

theorem text_selectionLines_ne_empty (ignored : List String) (level : Nat) :
    ∀ {fields : List Field}, (∀ field ∈ fields, field.name ≠ "") →
      ∀ line ∈ (selectionLines ignored level fields).head?, line.text ≠ ""
  | [], _ => by simp [selectionLines]
  | .leaf name value :: rest, h => by
      have ih := text_selectionLines_ne_empty ignored level fun f hf =>
        h f (List.mem_cons_of_mem _ hf)
      rw [selectionLines]
      split
      · exact ih
      · intro line hline
        obtain rfl : _ = line := by simpa using hline
        exact h _ List.mem_cons_self
  | .node name child :: rest, h => by
      have ih := text_selectionLines_ne_empty ignored level fun f hf =>
        h f (List.mem_cons_of_mem _ hf)
      have hname : name ≠ "" := h _ List.mem_cons_self
      rw [selectionLines]
      split
      · exact ih
      · have hhead := text_fieldLines_ne_empty ignored level hname child
        have hne : fieldLines ignored level name child ≠ [] := by
          rw [fieldLines_eq]
          split <;> simp
        obtain ⟨first, others, heq⟩ := List.exists_cons_of_ne_nil hne
        rw [heq] at hhead ⊢
        exact hhead

/-- The directive of a field that declares no variables stands on its first line. Where that line
shows nothing else, the field has no other and no name. -/
theorem exists_fieldLines_eq (ignored : List String) (level : Nat) (name : String) {node : Node}
    (h : node.head.declared = none) :
    ∃ left right below, (left ++ right = "" → name = "" ∧ below = [])
      ∧ ∀ directive : Option Directive,
        fieldLines ignored level name (Control.set node (.directive directive))
          = Line.inserted level left right (Directive.piece directive) :: below := by
  obtain ⟨left, right, hname, htoken⟩ := Head.exists_token_eq h name
  cases hopens : node.opens ignored with
  | false =>
    refine ⟨left, right, [], fun hempty => ?_, fun directive => ?_⟩
    · exact ⟨hname (String.append_eq_empty_iff.1 hempty).1, rfl⟩
    · have hopens' : (Control.set node (.directive directive)).opens ignored = false := hopens
      rw [fieldLines_of_not_opens level name hopens', Line.inserted, ← htoken]
      rfl
  | true =>
    refine ⟨left, right ++ r" {", selectionLines ignored (level + 1) node.fields
      ++ fragmentLines ignored (level + 1) (node.fragments.getD []) ++ [⟨level, r"}"⟩],
      fun hempty => ?_, fun directive => ?_⟩
    · simp at hempty
    · have hopens' : (Control.set node (.directive directive)).opens ignored = true := hopens
      have htoken' : (Control.set node (.directive directive)).head.token name
          = left ++ (Directive.piece directive ++ right) := htoken directive
      rw [fieldLines_of_opens level name hopens', htoken', Line.inserted, String.append_assoc,
        String.append_assoc]
      rfl

/-- What an object of directives says to the field that it stands in. -/
theorem controlOf_directives (ignored : List String) (name : String) (declares : Bool)
    (directives : List (Named Json)) :
    controlOf ignored name declares ControlKey.directives.text (.object directives)
      = if declares then .ok none
        else (directiveOf name directives).map (some ∘ .directive) := by
  rw [controlOf_eq_headOf (by simp [ControlKey.ofText?_text]), headOf, ControlKey.ofText?_text]
  rfl

end Node

/-! ## The root -/

section

open Node

variable {options : Options} {before after : List (Named Json)} {key : String}

theorem compileJson_object (before after : List (Named Json)) (key : String) (json : Json) :
    compileJson (.object (before ++ ⟨key, json⟩ :: after)) options
      = (fieldsOf options.ignored (before ++ ⟨key, json⟩ :: after)).map fun fields =>
          Line.render options.pretty (selectionLines options.ignored 0 fields) := by
  have hne : before ++ ⟨key, json⟩ :: after ≠ [] := by simp
  rw [compileJson, ofJson_of_ne_nil _ hne]
  cases fieldsOf options.ignored (before ++ ⟨key, json⟩ :: after) <;> rfl

theorem exists_fieldsOf_eq {json : Json} {text : String} (hselects : selects options.ignored key)
    (h : compileJson (.object (before ++ ⟨key, json⟩ :: after)) options = .ok text) :
    ∃ above below, fieldsOf options.ignored before = .ok above
      ∧ fieldsOf options.ignored after = .ok below := by
  rw [compileJson_object] at h
  obtain ⟨fields, hfields, -⟩ := Except.map_eq_ok.1 h
  obtain ⟨above, below, habove, hbelow, -⟩ := fieldsOf_open hselects hfields
  exact ⟨above, below, habove, hbelow⟩

/-- The text of a query around one of its fields. -/
theorem compileJson_of_selects (hselects : selects options.ignored key) {above below : List Field}
    (hbefore : fieldsOf options.ignored before = .ok above)
    (hafter : fieldsOf options.ignored after = .ok below) (json : Json) :
    compileJson (.object (before ++ ⟨key, json⟩ :: after)) options
      = ((Reading.field key).lines options.ignored 0 json).map fun ls =>
          Line.render options.pretty (selectionLines options.ignored 0 above
            ++ (ls ++ selectionLines options.ignored 0 below)) := by
  rw [compileJson_object, fieldsOf_append, hbefore,
    fieldsOf_cons_of_selects options.ignored hselects, hafter, Reading.lines]
  cases fieldOf options.ignored key json with
  | error fault => rfl
  | ok field =>
    refine congrArg Except.ok (congrArg (Line.render options.pretty) ?_)
    exact selectionLines_around 0 above below field

end

/-! ## Places for directives -/

/-- A place for directives: the other members of the object that they are in, and the values around
that object, the outermost first. -/
structure Place where
  frames : List Frame
  before : List (Named Json)
  after : List (Named Json)
  /-- The way does not go through data of a field. -/
  isOpen : ∀ frame ∈ frames, frame.Open
  unrepeated : ∀ frame ∈ frames, frame.Unrepeated
  single : (Frame.member before ControlKey.directives.text after).Unrepeated

namespace Place

open Node

variable (place : Place) (options : Options)

/-- The object with these directives. -/
def holder (directives : List (Named Json)) : Json :=
  .object (place.before ++ ⟨ControlKey.directives.text, .object directives⟩ :: place.after)

/-- The whole query with these directives. -/
def query (directives : List (Named Json)) : Json :=
  Frame.fillAll place.frames (place.holder directives)

/-- What the object is read as, if it is read at all. The root is no field. -/
def reading? (ignored : List String) : Option Reading :=
  match place.frames with
  | .member _ key _ :: frames =>
    if selects ignored key then (Reading.field key).follow ignored frames else none
  | _ => none

/-- The field whose line shows the directives. There is none if it declares variables, which are
shown instead. -/
def field? (ignored : List String) : Option String :=
  match place.reading? ignored with
  | some (.field name) =>
    if declaresVariables (place.before ++ place.after) then none else some name
  | _ => none

/-- Whether nothing is shown up to the line of the directives without them. That takes a field of
the root. -/
def leads : Bool :=
  match place.frames with
  | [.member before key _] =>
    match compileJson (.object (before ++ [⟨key, place.holder []⟩])) options with
    | .ok lead => lead = ""
    | .error _ => false
  | _ => false

/-- Any directives will do, and none is shown. -/
def Unread (text : String) : Prop :=
  ∀ directives, compileJson (place.query directives) options = .ok text

/-- The directives of a field are looked at: several of them are too many, and a single one is
refused or is one piece of text more. -/
structure Checked (field text : String) : Prop where
  several : ∀ directives, 2 ≤ directives.length → compileJson (place.query directives) options
    = .error (.tooManyDirectives field directives.length)
  unsupported : ∀ member, Directive.ofMember? member = none →
    compileJson (place.query [member]) options = .error (.unsupportedDirective member)
  shown : ∃ before after, text = before ++ after ∧ ∀ member directive,
    Directive.ofMember? member = some directive → compileJson (place.query [member]) options
      = .ok (before ++ (" @" ++ directive.writes.text
          ++ (Line.ending options.pretty (place.leads options) text ++ after)))

/-! ## Where directives are not looked at -/

variable {place} {options} {ignored : List String} {level : Nat} {ls : List Line} {text : String}

theorem query_of_frames {above below : List (Named Json)} {key : String} {frames : List Frame}
    (hframes : place.frames = .member above key below :: frames)
    (directives : List (Named Json)) : place.query directives
      = .object (above ++ ⟨key, Frame.fillAll frames (place.holder directives)⟩ :: below) := by
  rw [query, hframes]
  rfl

/-- A fragment, or a field that declares variables, does not look at directives. -/
theorem lines_holder {r : Reading}
    (hr : ∀ name, r = .field name → declaresVariables (place.before ++ place.after))
    (h : r.lines ignored level (place.holder []) = .ok ls) (directives : List (Named Json)) :
    r.lines ignored level (place.holder directives) = .ok ls := by
  have hfragment : fragmentOf ignored (place.holder directives)
      = fragmentOf ignored (place.holder []) :=
    fragmentOf_container (selects_text ignored _) rfl rfl
  rw [← h]
  cases r with
  | field name =>
    obtain ⟨new, hnew, -⟩ := Except.map_eq_ok.1 h
    obtain ⟨node, -, hopen⟩ := fieldOf_open_control (by decide) place.single hnew
    have hfield : ∀ directives, fieldOf ignored name (place.holder directives)
        = .ok (.node name node) := fun directives => by
      rw [holder, hopen, controlOf_directives, hr name rfl]
      rfl
    rw [Reading.lines, Reading.lines, hfield, hfield]
  | fragments => exact congrArg (Except.map _) hfragment
  | fragment => exact congrArg (Except.map _) hfragment

theorem isContainer_holder (directives : List (Named Json)) :
    (place.holder directives).isContainer :=
  rfl

/-- Below a field of the root, what is not looked at does not change its lines. -/
theorem lines_fillAll_of_field?_eq_none {frames : List Frame} {key : String}
    (hkept : key ∉ ignored) (hfollow : ∀ name,
      (Reading.field key).follow ignored frames = some (.field name) →
        declaresVariables (place.before ++ place.after))
    (hopen : ∀ frame ∈ frames, frame.Open) (hunrepeated : ∀ frame ∈ frames, frame.Unrepeated)
    (h : (Reading.field key).lines ignored 0 (Frame.fillAll frames (place.holder [])) = .ok ls)
    (directives : List (Named Json)) :
    (Reading.field key).lines ignored 0 (Frame.fillAll frames (place.holder directives))
      = .ok ls := by
  have hnothing := place.isContainer_holder []
  have hcontainer := place.isContainer_holder directives
  cases hr : (Reading.field key).follow ignored frames with
  | none =>
    exact Reading.lines_fillAll_of_follow_eq_none hnothing hcontainer hr hkept hunrepeated hopen h
  | some r =>
    obtain ⟨level, above, below, -, hbetween⟩ :=
      Reading.between_fillAll hr hkept hunrepeated hnothing h
    obtain ⟨ls', h'⟩ := (hbetween _ hnothing).exists_eq_ok h
    have hsame := lines_holder (fun name hname => hfollow name (hname ▸ hr)) h' directives
    have hbefore := hbetween _ hnothing
    have hbehind := hbetween _ hcontainer
    rw [Reading.Between, h', ← hsame, ← hbehind] at hbefore
    exact hbefore.symm.trans h

/-- **Where no field shows directives, none is looked at.** -/
theorem unread (hfield : place.field? options.ignored = none)
    (h : compileJson (place.query []) options = .ok text) : place.Unread options text := by
  intro directives
  cases hframes : place.frames with
  | nil =>
    simp only [query, hframes, Frame.fillAll, List.foldr_nil, holder] at h ⊢
    rwa [compileJson_object, fieldsOf_open_of_not_selects (selects_text options.ignored _)] at h ⊢
  | cons frame frames =>
    have hisOpen := fun f hf => place.isOpen f (hframes ▸ List.mem_cons_of_mem frame hf)
    have hunrepeated := fun f hf => place.unrepeated f (hframes ▸ List.mem_cons_of_mem frame hf)
    cases frame with
    | item _ _ =>
      rw [query, hframes] at h
      cases h
    | member above key below =>
      rw [query_of_frames hframes] at h ⊢
      cases hkey : selects options.ignored key with
      | false => rwa [compileJson_object, fieldsOf_open_of_not_selects hkey] at h ⊢
      | true =>
        obtain ⟨as, bs, has, hbs⟩ := exists_fieldsOf_eq hkey h
        rw [compileJson_of_selects hkey has hbs] at h ⊢
        obtain ⟨ls, hls, rfl⟩ := Except.map_eq_ok.1 h
        have hfollow : ∀ name, (Reading.field key).follow options.ignored frames
            = some (.field name) → declaresVariables (place.before ++ place.after) := by
          intro name hr
          simpa [field?, reading?, hframes, hkey, hr] using hfield
        have hkept := ((selects_eq_true_iff options.ignored).1 hkey).2
        exact congrArg (Except.map _) <|
          lines_fillAll_of_field?_eq_none hkept hfollow hisOpen hunrepeated hls directives

/-! ## Where a directive is shown -/

/-- A field that declares no variables shows its directive on its first line. -/
theorem exists_lines_holder_eq {name : String} (hkept : name ∉ ignored)
    (hdeclares : declaresVariables (place.before ++ place.after) = false)
    (h : (Reading.field name).lines ignored level (place.holder []) = .ok ls) :
    ∃ left right below, (left ++ right = "" → name = "" ∧ below = []) ∧ ∀ directives,
      (Reading.field name).lines ignored level (place.holder directives)
        = (directiveOf name directives).map fun directive =>
            Line.inserted level left right (Directive.piece directive) :: below := by
  obtain ⟨new, hnew, -⟩ := Except.map_eq_ok.1 h
  obtain ⟨node, hdeclared, hopen⟩ := fieldOf_open_control (by decide) place.single hnew
  obtain ⟨left, right, below, hempty, hlines⟩ :=
    exists_fieldLines_eq ignored level name (hdeclared hdeclares)
  refine ⟨left, right, below, hempty, fun directives => ?_⟩
  rw [Reading.lines, holder, hopen, controlOf_directives, hdeclares, if_neg Bool.false_ne_true]
  cases directiveOf name directives with
  | error fault => rfl
  | ok directive =>
    exact congrArg Except.ok ((selectionLines_node level hkept _).trans (hlines directive))

/-- The lines of a query that shows directives: theirs, and others that do not depend on them. -/
def ShownOn (place : Place) (options : Options) (name : String) : Prop :=
  ∃ level left right above below,
    (place.leads options ↔ Line.render options.pretty above = ""
      ∧ (Line.inserted level left right "").shown options.pretty = "")
    ∧ (place.leads options → ∀ line ∈ below.head?, line.text ≠ "")
    ∧ ∀ directives, compileJson (place.query directives) options
      = (directiveOf name directives).map fun directive => Line.render options.pretty
          (above ++ Line.inserted level left right (Directive.piece directive) :: below)

/-- A field of the root shows directives, and then it may be the first that shows anything. -/
theorem shownOn_root {above below : List (Named Json)} {key : String}
    (hframes : place.frames = [.member above key below]) (hkey : selects options.ignored key)
    (hdeclares : declaresVariables (place.before ++ place.after) = false)
    (h : compileJson (place.query []) options = .ok text) : place.ShownOn options key := by
  have hquery : ∀ directives, place.query directives
      = .object (above ++ ⟨key, place.holder directives⟩ :: below) := query_of_frames hframes
  rw [hquery] at h
  obtain ⟨as, bs, has, hbs⟩ := exists_fieldsOf_eq hkey h
  have hkept := ((selects_eq_true_iff options.ignored).1 hkey).2
  rw [compileJson_of_selects hkey has hbs] at h
  obtain ⟨ls, hls, -⟩ := Except.map_eq_ok.1 h
  obtain ⟨left, right, rest, hempty, hlines⟩ := exists_lines_holder_eq hkept hdeclares hls
  have hshown : (Line.inserted 0 left right "").shown options.pretty = "" →
      key = "" ∧ rest = [] := fun hshown => hempty <| by
    simpa [Line.inserted] using (String.append_eq_empty_iff.1 hshown).2
  have hleads : place.leads options ↔
      Line.render options.pretty (selectionLines options.ignored 0 as) = ""
        ∧ (Line.inserted 0 left right "").shown options.pretty = "" := by
    have hlead : compileJson (.object (above ++ [⟨key, place.holder []⟩])) options
        = .ok (Line.render options.pretty
            (selectionLines options.ignored 0 as ++ Line.inserted 0 left right "" :: rest)) := by
      rw [compileJson_of_selects hkey has rfl, hlines, selectionLines]
      simp [directiveOf, Directive.piece, Except.map]
    rw [leads, hframes, ← Line.render_append_cons_eq_empty_iff fun h => (hshown h).2]
    simp [hlead]
  refine ⟨0, left, right, selectionLines options.ignored 0 as,
    rest ++ selectionLines options.ignored 0 bs, hleads, fun h => ?_, fun directives => ?_⟩
  · -- the field has no name, so every field below it has one
    obtain ⟨hname, hrest⟩ := hshown (hleads.1 h).2
    rw [hrest, List.nil_append]
    have hunrepeated := place.unrepeated (.member above key below) (by simp [hframes])
    have hnodup : key ∉ below.map (·.name) :=
      (List.nodup_cons.1 (List.nodup_append.1 hunrepeated).2.1).1
    refine text_selectionLines_ne_empty _ _ fun field hfield hfieldName => hnodup ?_
    rw [hname, ← hfieldName]
    exact mem_names_of_fieldsOf _ hbs field hfield
  · rw [hquery, compileJson_of_selects hkey has hbs, hlines]
    cases directiveOf key directives <;> rfl

/-- A field inside of another one shows directives, below the line of the other. -/
theorem shownOn_of_follow {above below : List (Named Json)} {key name : String}
    {frames : List Frame} (hframes : place.frames = .member above key below :: frames)
    (hne : frames ≠ []) (hkey : selects options.ignored key)
    (hfollow : (Reading.field key).follow options.ignored frames = some (.field name))
    (hdeclares : declaresVariables (place.before ++ place.after) = false)
    (h : compileJson (place.query []) options = .ok text) : place.ShownOn options name := by
  have hquery := query_of_frames hframes
  have hunrepeated := fun f hf => place.unrepeated f (hframes ▸ List.mem_cons_of_mem _ hf)
  rw [hquery] at h
  obtain ⟨as, bs, has, hbs⟩ := exists_fieldsOf_eq hkey h
  have hkept : (Reading.field key).Kept options.ignored :=
    ((selects_eq_true_iff options.ignored).1 hkey).2
  rw [compileJson_of_selects hkey has hbs] at h
  obtain ⟨ls, hls, -⟩ := Except.map_eq_ok.1 h
  obtain ⟨level, above', below', hshows, hbetween⟩ :=
    Reading.between_fillAll hfollow hkept hunrepeated (isContainer_holder []) hls
  obtain ⟨ls', hls'⟩ := (hbetween _ (isContainer_holder [])).exists_eq_ok hls
  obtain ⟨left, right, rest, -, hlines⟩ :=
    exists_lines_holder_eq (Reading.kept_of_follow hfollow hkept) hdeclares hls'
  obtain ⟨line, others, rfl, hline⟩ := hshows hne key rfl
  have hleads : place.leads options = false := by
    obtain ⟨second, others, rfl⟩ := List.exists_cons_of_ne_nil hne
    rw [leads, hframes]
  refine ⟨level, left, right, selectionLines options.ignored 0 as ++ line :: others,
    rest ++ below' ++ selectionLines options.ignored 0 bs, ?_, by simp [hleads],
    fun directives => ?_⟩
  · rw [hleads, Line.render_eq_empty_iff]
    refine ⟨fun h => absurd h Bool.false_ne_true, fun ⟨habove, _⟩ => absurd ?_ hline⟩
    exact (String.append_eq_empty_iff.1 (habove line (by simp))).2
  · rw [hquery, compileJson_of_selects hkey has hbs, hbetween _ (isContainer_holder directives),
      hlines]
    cases directiveOf name directives with
    | error fault => rfl
    | ok directive => simp [Except.map]

theorem shownOn {name : String} (hfield : place.field? options.ignored = some name)
    (h : compileJson (place.query []) options = .ok text) : place.ShownOn options name := by
  obtain ⟨hreading, hdeclares⟩ : place.reading? options.ignored = some (.field name)
      ∧ declaresVariables (place.before ++ place.after) = false := by
    unfold field? at hfield
    split at hfield
    · next hreading =>
      obtain ⟨hdeclares, ⟨⟩⟩ := Option.ite_none_left_eq_some.1 hfield
      exact ⟨hreading, by simpa using hdeclares⟩
    · cases hfield
  unfold reading? at hreading
  split at hreading
  · next above key below frames hframes =>
    obtain ⟨hkey, hfollow⟩ := Option.ite_none_right_eq_some.1 hreading
    cases frames with
    | nil =>
      cases hfollow
      exact shownOn_root hframes hkey hdeclares h
    | cons frame frames => exact shownOn_of_follow hframes (by simp) hkey hfollow hdeclares h
  · cases hreading

/-! ## Directives by their number -/

theorem directiveOf_of_two_le (field : String) : ∀ {directives : List (Named Json)},
    2 ≤ directives.length →
      directiveOf field directives = .error (.tooManyDirectives field directives.length)
  | [], h => absurd h (by decide)
  | [_], h => absurd h (by simp)
  | _ :: _ :: _, _ => by simp [directiveOf]

theorem directiveOf_singleton (field : String) (member : Named Json) :
    directiveOf field [member]
      = match Directive.ofMember? member with
        | none => .error (.unsupportedDirective member)
        | some directive => .ok (some directive) := by
  obtain ⟨name, json⟩ := member
  cases json <;> rfl

/-- **Where a directive is shown, directives are checked.** -/
theorem ShownOn.checked {name : String} (hshown : place.ShownOn options name)
    (h : compileJson (place.query []) options = .ok text) :
    place.Checked options name text := by
  obtain ⟨level, left, right, above, below, hleads, hbelow, hquery⟩ := hshown
  obtain ⟨before, after, hwhole, hpiece⟩ := Line.exists_render_inserted hleads hbelow
  have htext : Line.render options.pretty (above ++ Line.inserted level left right "" :: below)
      = text := Except.ok.inj ((hquery []).symm.trans h)
  rw [htext] at hwhole hpiece
  refine ⟨fun directives htwo => ?_, fun member hmember => ?_, before, after, hwhole,
    fun member directive hmember => ?_⟩
  · rw [hquery, directiveOf_of_two_le name htwo]
    rfl
  · rw [hquery, directiveOf_singleton, hmember]
    rfl
  · rw [hquery, directiveOf_singleton, hmember]
    exact congrArg Except.ok (hpiece _ (Directive.piece_some_ne_empty directive))

/-- No place is both. -/
theorem Checked.not_unread {name : String} (hchecked : place.Checked options name text) :
    ¬ place.Unread options text := by
  intro hunread
  have htwo := hchecked.several [⟨"", .null⟩, ⟨"", .null⟩] (by decide)
  rw [hunread] at htwo
  cases htwo

end Place

/-- **Directives are checked exactly where one is shown.** Take any place for directives in a query
that compiles without them. If a field shows the directives, several of them are refused, one of
the wrong type is, and any other one is a piece of text more. If none does, all directives give the
same text. -/
theorem compileJson_directives (place : Place) (options : Options) {text : String}
    (h : compileJson (place.query []) options = .ok text) :
    (∃ field, place.field? options.ignored = some field ∧ place.Checked options field text
        ∧ ¬ place.Unread options text)
      ∨ (place.field? options.ignored = none ∧ place.Unread options text
        ∧ ∀ field, ¬ place.Checked options field text) := by
  cases hfield : place.field? options.ignored with
  | some field =>
    have hchecked := (Place.shownOn hfield h).checked h
    exact .inl ⟨field, rfl, hchecked, hchecked.not_unread⟩
  | none =>
    have hunread := Place.unread hfield h
    exact .inr ⟨rfl, hunread, fun field hchecked => hchecked.not_unread hunread⟩

/-- The directives of a field of a fragment: `{"me": {"__on": [{"__fragmentName": "User",
"posts": {"__directives": …, "title": true}}]}}`. -/
def postsPlace : Place where
  frames := [.member [] "me" [], .member [] "__on" [], .item [] [],
    .member [⟨"__fragmentName", .string "User"⟩] "posts" []]
  before := []
  after := [⟨"title", .bool true⟩]
  isOpen := by simp [Frame.Open, ControlKey.text]
  unrepeated := by simp [Frame.Unrepeated]
  single := by simp [Frame.Unrepeated, ControlKey.text]

theorem compileJson_directives_posts :
    compileJson (postsPlace.query []) {} = .ok "me { ... on User { posts { title } } }"
      ∧ postsPlace.Checked {} "posts" "me { ... on User { posts { title } } }" := by
  have h : compileJson (postsPlace.query []) {} = .ok "me { ... on User { posts { title } } }" := by
    rfl
  obtain ⟨field, hfield, hchecked, -⟩ | ⟨hnone, -⟩ := compileJson_directives postsPlace {} h
  · cases hfield
    exact ⟨h, hchecked⟩
  · cases hnone

/-- The directives of a field without a name that shows nothing else, above another field:
`{"": {"__directives": …}, "b": true}`. -/
def namelessPlace : Place where
  frames := [.member [] "" [⟨"b", .bool true⟩]]
  before := []
  after := []
  isOpen := by simp [Frame.Open, ControlKey.text]
  unrepeated := by simp [Frame.Unrepeated]
  single := by simp [Frame.Unrepeated, ControlKey.text]

/-- The ending cannot be left out: a directive that leads the text is more than its own piece. -/
theorem separator_behind_nameless :
    compileJson (namelessPlace.query []) {} = .ok "b"
      ∧ ¬ namelessPlace.Unread {} "b"
      ∧ ¬ ∃ before after, "b" = before ++ after
        ∧ compileJson (namelessPlace.query [⟨"d", .bool true⟩]) {}
          = .ok (before ++ (" @" ++ (Directive.mk "d" none).writes.text ++ after)) := by
  have hone : compileJson (namelessPlace.query [⟨"d", .bool true⟩]) {} = .ok " @d b" := by rfl
  refine ⟨by rfl, fun hunread => ?_, ?_⟩
  · have hsame := hone.symm.trans (hunread _)
    simp at hsame
  · rintro ⟨before, after, htext, hcompiled⟩
    rw [hone] at hcompiled
    have hlength := congrArg String.length (Except.ok.inj hcompiled)
    have hb := congrArg String.length htext
    have hd : (" @" ++ (Directive.mk "d" none).writes.text).length = 3 := by decide
    simp only [String.length_append, hd] at hlength hb
    have : " @d b".length = 5 := by decide
    have : "b".length = 1 := by decide
    omega

end QueryTree

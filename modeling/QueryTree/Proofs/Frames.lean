import QueryTree.Proofs.Controls
import QueryTree.Proofs.Printed

/-!
# Proofs/Frames — the way to a place in a JSON query

A place is told by the values around it, frame by frame. What stands there is read as a field, as
fragments, as a single fragment, or not at all: `Reading.step` follows one frame down. As long as
something is read, the lines of the whole are those of the part, between lines that do not depend on
it (`between_fillAll`); where nothing is read, the part does not matter
(`lines_fillAll_of_follow_eq_none`).
-/

namespace QueryTree

/-- One step from a JSON value to the value around it. -/
inductive Frame where
  | member (before : List (Named Json)) (key : String) (after : List (Named Json))
  | item (before after : List Json)

namespace Frame

/-- The value around. -/
def fill : Frame → Json → Json
  | member before key after, json => .object (before ++ ⟨key, json⟩ :: after)
  | item before after, json => .array (before ++ json :: after)

/-- A member under none of the keys whose values are data of a field. -/
def Open : Frame → Prop
  | member _ key _ =>
    key ∉ [ControlKey.arguments.text, ControlKey.declared.text, ControlKey.directives.text]
  | item _ _ => True

/-- The value around with several frames, the outermost first. -/
def fillAll (frames : List Frame) (json : Json) : Json :=
  frames.foldr fill json

/-- An object has no key twice. -/
def Unrepeated : Frame → Prop
  | member before key after => (before.map (·.name) ++ key :: after.map (·.name)).Nodup
  | item _ _ => True

end Frame

/-- Whether something can be inside of a value. -/
def Json.isContainer : Json → Bool
  | .object _ | .array _ => true
  | _ => false

theorem Frame.isContainer_fillAll {json : Json} (h : json.isContainer) :
    ∀ frames : List Frame, (fillAll frames json).isContainer
  | [] => h
  | .member _ _ _ :: _ => rfl
  | .item _ _ :: _ => rfl

/-! ## One open member or item -/

namespace Node

variable {ignored : List String} {before after : List (Named Json)} {key : String} {json : Json}

/-- Fields around a selected member are as they are, whatever the member. -/
theorem fieldsOf_open (hselects : selects ignored key) {fields : List Field}
    (h : fieldsOf ignored (before ++ ⟨key, json⟩ :: after) = .ok fields) :
    ∃ above below, fieldsOf ignored before = .ok above ∧ fieldsOf ignored after = .ok below
      ∧ ∀ json, fieldsOf ignored (before ++ ⟨key, json⟩ :: after)
        = (fieldOf ignored key json).map fun field => above ++ field :: below := by
  rw [fieldsOf_append] at h
  obtain ⟨above, habove, h⟩ := Except.bind_eq_ok.1 h
  obtain ⟨rest, hrest, -⟩ := Except.bind_eq_ok.1 h
  rw [fieldsOf_cons_of_selects ignored hselects] at hrest
  obtain ⟨field, -, hrest⟩ := Except.bind_eq_ok.1 hrest
  obtain ⟨below, hbelow, -⟩ := Except.bind_eq_ok.1 hrest
  refine ⟨above, below, habove, hbelow, fun json => ?_⟩
  rw [fieldsOf_append, habove, fieldsOf_cons_of_selects ignored hselects, hbelow]
  cases fieldOf ignored key json <;> rfl

/-- A member that is not selected does not matter. -/
theorem fieldsOf_open_of_not_selects (hselects : selects ignored key = false) :
    fieldsOf ignored (before ++ ⟨key, json⟩ :: after) = fieldsOf ignored (before ++ after) := by
  rw [fieldsOf_append, fieldsOf_cons_of_not_selects ignored hselects, ← fieldsOf_append]

/-- Controls around a member are as they are, whatever the member. -/
theorem controlsOf_open {name : String} {declares : Bool} {controls : List Control}
    (h : controlsOf ignored name declares (before ++ ⟨key, json⟩ :: after) = .ok controls) :
    ∃ above below, controlsOf ignored name declares before = .ok above
      ∧ controlsOf ignored name declares after = .ok below
      ∧ ∀ json, controlsOf ignored name declares (before ++ ⟨key, json⟩ :: after)
        = (controlOf ignored name declares key json).map fun control =>
            above ++ (control.toList ++ below) := by
  rw [controlsOf_append] at h
  obtain ⟨above, habove, h⟩ := Except.bind_eq_ok.1 h
  obtain ⟨rest, hrest, -⟩ := Except.bind_eq_ok.1 h
  rw [controlsOf_cons] at hrest
  obtain ⟨control, -, hrest⟩ := Except.bind_eq_ok.1 hrest
  obtain ⟨below, hbelow, -⟩ := Except.bind_eq_ok.1 hrest
  refine ⟨above, below, habove, hbelow, fun json => ?_⟩
  rw [controlsOf_append, habove, controlsOf_cons, hbelow]
  cases controlOf ignored name declares key json <;> rfl

theorem fragmentsOf_open {before after : List Json} {fragments : List Fragment}
    (h : fragmentsOf ignored (before ++ json :: after) = .ok fragments) :
    ∃ above below, ∀ json, fragmentsOf ignored (before ++ json :: after)
      = (fragmentOf ignored json).map fun fragment => above ++ fragment :: below := by
  rw [fragmentsOf_append] at h
  obtain ⟨above, habove, h⟩ := Except.bind_eq_ok.1 h
  obtain ⟨rest, hrest, -⟩ := Except.bind_eq_ok.1 h
  rw [fragmentsOf_cons] at hrest
  obtain ⟨fragment, -, hrest⟩ := Except.bind_eq_ok.1 hrest
  obtain ⟨below, hbelow, -⟩ := Except.bind_eq_ok.1 hrest
  refine ⟨above, below, fun json => ?_⟩
  rw [fragmentsOf_append, habove, fragmentsOf_cons, hbelow]
  cases fragmentOf ignored json <;> rfl

theorem declaresVariables_open (hkey : key ≠ ControlKey.declared.text) :
    declaresVariables (before ++ ⟨key, json⟩ :: after) = declaresVariables (before ++ after) := by
  rw [declaresVariables, declaresVariables, Named.find?_append_cons_of_ne hkey]

theorem typeConditionOf_open (hkey : key ≠ ControlKey.fragmentName.text) :
    typeConditionOf (before ++ ⟨key, json⟩ :: after) = typeConditionOf (before ++ after) := by
  rw [typeConditionOf, typeConditionOf, Named.find?_append_cons_of_ne hkey]

/-- **A field with an open member that it selects**: all else in its node is as it is. -/
theorem fieldOf_open_field {name : String} (hselects : selects ignored key) {new : Field}
    (h : fieldOf ignored name (.object (before ++ ⟨key, json⟩ :: after)) = .ok new) :
    ∃ (above below : List Field) (node : Node), ∀ json,
      fieldOf ignored name (.object (before ++ ⟨key, json⟩ :: after))
        = (fieldOf ignored key json).map fun field =>
            .node name { node with fields := above ++ field :: below } := by
  have hdeclared := ne_text_of_selects hselects .declared
  rw [fieldOf_object, declaresVariables_open hdeclared] at h
  obtain ⟨fields, hfields, h⟩ := Except.bind_eq_ok.1 h
  obtain ⟨controls, hcontrols, -⟩ := Except.bind_eq_ok.1 h
  obtain ⟨above, below, -, -, hfields⟩ := fieldsOf_open hselects hfields
  obtain ⟨cs, ds, -, -, hcontrols⟩ := controlsOf_open hcontrols
  have hnone : ∀ json, controlOf ignored name (declaresVariables (before ++ after)) key json
      = .ok none := controlOf_of_no_key ((selects_eq_true_iff ignored).1 hselects).1
  refine ⟨above, below, (cs ++ ds).foldl Control.set {}, fun json => ?_⟩
  rw [fieldOf_object, declaresVariables_open hdeclared, hfields, hcontrols, hnone]
  cases fieldOf ignored key json with
  | error fault => rfl
  | ok field =>
    have hset := Control.foldl_set_fields (above ++ field :: below) (cs ++ ds) {}
    exact congrArg (fun node => Except.ok (Field.node name node)) hset

/-- **A field with an open control**: its node, with the control put in place if there is one. -/
theorem fieldOf_open_control {name : String} {control : ControlKey} {new : Field}
    (hne : control ≠ .declared)
    (hnodup : (before.map (·.name) ++ control.text :: after.map (·.name)).Nodup)
    (h : fieldOf ignored name (.object (before ++ ⟨control.text, json⟩ :: after)) = .ok new) :
    ∃ node : Node, (declaresVariables (before ++ after) = false → node.head.declared = none)
      ∧ ∀ json, fieldOf ignored name (.object (before ++ ⟨control.text, json⟩ :: after))
        = (controlOf ignored name (declaresVariables (before ++ after)) control.text json).map
            fun c => .node name (c.elim node (Control.set node)) := by
  have hdeclared : control.text ≠ ControlKey.declared.text := fun heq =>
    hne (ControlKey.text_inj heq)
  have hselects := selects_text ignored control
  rw [fieldOf_object, declaresVariables_open hdeclared, fieldsOf_open_of_not_selects hselects] at h
  obtain ⟨fields, hfields, h⟩ := Except.bind_eq_ok.1 h
  obtain ⟨controls, hcontrols, -⟩ := Except.bind_eq_ok.1 h
  obtain ⟨cs, ds, hcs, hds, hcontrols⟩ := controlsOf_open hcontrols
  have hafter : control.text ∉ after.map (·.name) :=
    (List.nodup_cons.1 (List.nodup_append.1 hnodup).2.1).1
  have hrest : ((before ++ after).map (·.name)).Nodup := by
    rw [List.map_append]
    exact hnodup.sublist ((List.sublist_cons_self _ _).append_left _)
  refine ⟨(cs ++ ds).foldl Control.set { fields }, fun hdeclares => ?_, fun json => ?_⟩
  · have hboth : controlsOf ignored name (declaresVariables (before ++ after)) (before ++ after)
        = .ok (cs ++ ds) := by
      rw [controlsOf_append, hcs, hds]
      rfl
    exact Control.declared_foldl_set (key_ne_declared hrest hdeclares hboth) _
  · rw [fieldOf_object, declaresVariables_open hdeclared, fieldsOf_open_of_not_selects hselects,
      hfields, hcontrols]
    cases hcontrol : controlOf ignored name (declaresVariables (before ++ after)) control.text json
      with
    | error fault => rfl
    | ok c =>
      cases c with
      | none => rfl
      | some c =>
        exact congrArg (fun node => Except.ok (Field.node name node))
          (foldl_set_of_controlOf hafter hds hcontrol cs _)

/-! ## Containers that are not read -/

/-- Objects and arrays say nothing under the keys of aliases and of the name of a fragment. -/
theorem controlOf_container {name : String} {declares : Bool} (hjson : json.isContainer)
    (hfragments : key ≠ ControlKey.fragments.text)
    (hopen : (Frame.member before key after).Open) :
    controlOf ignored name declares key json = .ok none := by
  cases hkey : ControlKey.ofText? key with
  | none => exact controlOf_of_no_key hkey json
  | some control =>
    obtain rfl := ControlKey.text_of_ofText? hkey
    rw [controlOf_eq_headOf (by rw [hkey]; rintro ⟨⟩; exact absurd rfl hfragments), headOf, hkey]
    cases control with
    | fragments => exact absurd rfl hfragments
    | arguments | declared | directives => exact absurd hopen (by simp [Frame.Open])
    | aliasName | aliasFor | fragmentName =>
      cases json <;> first | rfl | exact absurd hjson Bool.false_ne_true

/-- A container is no name of a fragment, so it does not matter which one stands there. -/
theorem typeConditionOf_container {json' : Json} (hjson : json.isContainer)
    (hjson' : json'.isContainer) : typeConditionOf (before ++ ⟨key, json'⟩ :: after)
      = typeConditionOf (before ++ ⟨key, json⟩ :: after) := by
  by_cases hkey : key = ControlKey.fragmentName.text
  · subst hkey
    rw [typeConditionOf, typeConditionOf, Named.find?_append, Named.find?_append,
      Named.find?_cons_self, Named.find?_cons_self]
    cases Named.find? ControlKey.fragmentName.text before with
    | some condition => rfl
    | none =>
      cases json <;> cases json' <;>
        first
          | rfl
          | exact absurd hjson Bool.false_ne_true
          | exact absurd hjson' Bool.false_ne_true
  · rw [typeConditionOf_open hkey, typeConditionOf_open hkey]

/-- A fragment has its fields from selected members alone. -/
theorem fragmentOf_container {json' : Json} (hselects : selects ignored key = false)
    (hjson : json.isContainer) (hjson' : json'.isContainer) :
    fragmentOf ignored (.object (before ++ ⟨key, json'⟩ :: after))
      = fragmentOf ignored (.object (before ++ ⟨key, json⟩ :: after)) := by
  rw [fragmentOf_object, fragmentOf_object, typeConditionOf_container hjson hjson',
    fieldsOf_open_of_not_selects hselects, fieldsOf_open_of_not_selects hselects]

/-- A field has its node from selected members and from the keys of data and of fragments. -/
theorem fieldOf_container {json' : Json} {name : String} {new : Field}
    (hselects : selects ignored key = false)
    (hfragments : key ≠ ControlKey.fragments.text) (hopen : (Frame.member before key after).Open)
    (hjson : json.isContainer) (hjson' : json'.isContainer)
    (h : fieldOf ignored name (.object (before ++ ⟨key, json⟩ :: after)) = .ok new) :
    fieldOf ignored name (.object (before ++ ⟨key, json'⟩ :: after)) = .ok new := by
  have hdeclared : key ≠ ControlKey.declared.text := by
    rintro rfl
    exact absurd hopen (by simp [Frame.Open])
  have hnone : ∀ json : Json, json.isContainer →
      controlOf ignored name (declaresVariables (before ++ after)) key json = .ok none :=
    fun json hjson => controlOf_container hjson hfragments hopen
  rw [fieldOf_object, fieldsOf_open_of_not_selects hselects, declaresVariables_open hdeclared]
    at h ⊢
  obtain ⟨fields, hfields, hnew⟩ := Except.bind_eq_ok.1 h
  obtain ⟨controls, hcontrols, -⟩ := Except.bind_eq_ok.1 hnew
  obtain ⟨cs, ds, -, -, hcontrols⟩ := controlsOf_open hcontrols
  rwa [hcontrols, hnone json' hjson', ← hnone json hjson, ← hcontrols]

end Node

/-! ## What a place is read as -/

/-- What the conversion takes a JSON value below the root for. -/
inductive Reading where
  | field (name : String)
  /-- What stands under the key of fragments: one of them, or an array. -/
  | fragments
  | fragment

namespace Reading

open Node

/-- What a value is read as that stands in another one, if it is read at all. -/
def step (ignored : List String) : Reading → Frame → Option Reading
  | field _, .member _ key _ =>
    if key = ControlKey.fragments.text then some fragments
    else if selects ignored key then some (field key) else none
  | fragments, .item _ _ => some fragment
  | fragments, .member _ key _ | fragment, .member _ key _ =>
    if selects ignored key then some (field key) else none
  | field _, .item _ _ | fragment, .item _ _ => none

/-- The lines of what is read. -/
def lines (ignored : List String) (level : Nat) : Reading → Json → Except Fault (List Line)
  | field name, json =>
    (fieldOf ignored name json).map fun field => selectionLines ignored level [field]
  | fragments, .array items => (fragmentsOf ignored items).map (fragmentLines ignored level)
  | fragments, json | fragment, json =>
    (fragmentOf ignored json).map fun fragment => fragmentLines ignored level [fragment]

/-- Some lines are others between fixed ones, or fail as they do. -/
def Between (above below : List Line) (whole part : Except Fault (List Line)) : Prop :=
  whole = part.map fun lines => above ++ (lines ++ below)

/-- Lines of which the first shows something. -/
def Shows (lines : List Line) : Prop :=
  ∃ line rest, lines = line :: rest ∧ line.text ≠ ""

theorem Between.trans {above below above' below' : List Line}
    {whole part part' : Except Fault (List Line)} (h : Between above below whole part)
    (h' : Between above' below' part part') :
    Between (above ++ above') (below' ++ below) whole part' := by
  rw [Between, h, h']
  cases part' <;> simp [Except.map]

variable {ignored : List String} {before after : List (Named Json)} {key name : String}
  {level : Nat} {json : Json} {ls : List Line}

/-- From a field to one that it selects. -/
theorem between_field_field (hkept : name ∉ ignored) (hselects : selects ignored key)
    (h : (field name).lines ignored level (.object (before ++ ⟨key, json⟩ :: after)) = .ok ls) :
    ∃ above below, Shows above ∧ ∀ json, Between above below
      ((field name).lines ignored level (.object (before ++ ⟨key, json⟩ :: after)))
      ((field key).lines ignored (level + 1) json) := by
  obtain ⟨new, hnew, -⟩ := Except.map_eq_ok.1 h
  obtain ⟨as, bs, node, hopen⟩ := fieldOf_open_field hselects hnew
  refine ⟨⟨level, node.head.token name ++ r" {"⟩ :: selectionLines ignored (level + 1) as,
    selectionLines ignored (level + 1) bs
      ++ (fragmentLines ignored (level + 1) (node.fragments.getD []) ++ [⟨level, r"}"⟩]),
    ⟨_, _, rfl, by simp⟩, fun json => ?_⟩
  rw [Between, lines, lines, hopen]
  cases hfield : fieldOf ignored key json with
  | error fault => rfl
  | ok new =>
    have hnew : new.name ∉ ignored := by
      rw [name_of_fieldOf ignored hfield]
      exact ((selects_eq_true_iff ignored).1 hselects).2
    have hopens : opens ignored { node with fields := as ++ new :: bs } = true :=
      opens_of_mem (List.mem_append_right as List.mem_cons_self) hnew
    simp only [Except.map]
    rw [selectionLines_node _ hkept, fieldLines_of_opens _ _ hopens, selectionLines_around]
    simp

/-- From a field to its fragments. -/
theorem between_field_fragments (hkept : name ∉ ignored)
    (hnodup : (before.map (·.name) ++ ControlKey.fragments.text :: after.map (·.name)).Nodup)
    (h : (field name).lines ignored level
      (.object (before ++ ⟨ControlKey.fragments.text, json⟩ :: after)) = .ok ls) :
    ∃ above below, Shows above ∧ ∀ json, json.isContainer → Between above below
      ((field name).lines ignored level
        (.object (before ++ ⟨ControlKey.fragments.text, json⟩ :: after)))
      (fragments.lines ignored (level + 1) json) := by
  obtain ⟨new, hnew, -⟩ := Except.map_eq_ok.1 h
  obtain ⟨node, -, hopen⟩ := fieldOf_open_control (by decide) hnodup hnew
  have hkey := ControlKey.ofText?_text .fragments
  have hlines : ∀ fs : List Fragment,
      selectionLines ignored level [.node name (Control.set node (.fragments fs))]
        = ⟨level, node.head.token name ++ r" {"⟩ :: selectionLines ignored (level + 1) node.fields
          ++ (fragmentLines ignored (level + 1) fs ++ [⟨level, r"}"⟩]) := by
    intro fs
    rw [selectionLines_node _ hkept, fieldLines_of_opens _ _ (by simp [opens, Control.set])]
    simp [Control.set]
  refine ⟨⟨level, node.head.token name ++ r" {"⟩
      :: selectionLines ignored (level + 1) node.fields,
    [⟨level, r"}"⟩], ⟨_, _, rfl, by simp⟩, fun json hjson => ?_⟩
  rw [Between, lines, hopen]
  cases json with
  | object members =>
    rw [controlOf_object hkey, lines]
    · cases fragmentOf ignored (.object members) with
      | error fault => rfl
      | ok fragment => exact congrArg Except.ok (hlines [fragment])
    · simp
  | array items =>
    rw [controlOf_array hkey, lines]
    cases fragmentsOf ignored items with
    | error fault => rfl
    | ok fragments => exact congrArg Except.ok (hlines fragments)
  | _ => cases hjson

/-- From an array of fragments to one of them. -/
theorem between_fragments_fragment {before after : List Json}
    (h : fragments.lines ignored level (.array (before ++ json :: after)) = .ok ls) :
    ∃ above below, ∀ json, Between above below
      (fragments.lines ignored level (.array (before ++ json :: after)))
      (fragment.lines ignored level json) := by
  obtain ⟨new, hnew, -⟩ := Except.map_eq_ok.1 h
  obtain ⟨as, bs, hopen⟩ := fragmentsOf_open hnew
  refine ⟨fragmentLines ignored level as, fragmentLines ignored level bs, fun json => ?_⟩
  rw [Between, lines, lines, hopen]
  cases fragmentOf ignored json with
  | error fault => rfl
  | ok new =>
    simp only [Except.map]
    rw [fragmentLines_around]

/-- From a fragment to a field that it selects. -/
theorem between_fragment_field (hselects : selects ignored key)
    (h : fragment.lines ignored level (.object (before ++ ⟨key, json⟩ :: after)) = .ok ls) :
    ∃ above below, ∀ json, Between above below
      (fragment.lines ignored level (.object (before ++ ⟨key, json⟩ :: after)))
      ((field key).lines ignored (level + 1) json) := by
  obtain ⟨new, hnew, -⟩ := Except.map_eq_ok.1 h
  have hcondition := ne_text_of_selects hselects .fragmentName
  rw [fragmentOf_object, typeConditionOf_open hcondition] at hnew
  obtain ⟨condition, htype, hnew⟩ := Except.bind_eq_ok.1 hnew
  obtain ⟨fields, hfields, -⟩ := Except.bind_eq_ok.1 hnew
  obtain ⟨as, bs, -, -, hopen⟩ := fieldsOf_open hselects hfields
  refine ⟨⟨level, "... on " ++ condition ++ r" {"⟩ :: selectionLines ignored (level + 1) as,
    selectionLines ignored (level + 1) bs ++ [⟨level, r"}"⟩], fun json => ?_⟩
  rw [Between, lines, lines, fragmentOf_object, typeConditionOf_open hcondition, htype, hopen]
  cases fieldOf ignored key json with
  | error fault => rfl
  | ok new =>
    change Except.ok (fragmentLines ignored level [⟨condition, { fields := as ++ new :: bs }⟩]) = _
    rw [fragmentLines, selectionLines_around]
    simp [Except.map, fragmentLines]

/-- A field that is read has a name that is kept. -/
def Kept (ignored : List String) : Reading → Prop
  | field name => name ∉ ignored
  | fragments | fragment => True

theorem kept_of_step {r r' : Reading} {frame : Frame} (h : r.step ignored frame = some r') :
    r'.Kept ignored := by
  have hfield : ∀ key : String,
      (if selects ignored key then some (field key) else none) = some r' → r'.Kept ignored := by
    intro key h
    obtain ⟨hselects, ⟨⟩⟩ := Option.ite_none_right_eq_some.1 h
    exact ((selects_eq_true_iff ignored).1 hselects).2
  unfold step at h
  split at h
  · split at h
    · cases h
      trivial
    · exact hfield _ h
  · cases h
    trivial
  · exact hfield _ h
  · exact hfield _ h
  · cases h
  · cases h

/-- **One frame down**: the lines of the whole are those of the part, between others. -/
theorem between_fill {r r' : Reading} {frame : Frame} (hstep : r.step ignored frame = some r')
    (hkept : r.Kept ignored) (hunrepeated : frame.Unrepeated)
    (h : r.lines ignored level (frame.fill json) = .ok ls) :
    ∃ level' above below, (∀ name, r = field name → Shows above)
      ∧ ∀ json, json.isContainer → Between above below
        (r.lines ignored level (frame.fill json)) (r'.lines ignored level' json) := by
  cases r with
  | field name =>
    cases frame with
    | item before after => cases hstep
    | member before key after =>
      by_cases hkey : key = ControlKey.fragments.text
      · subst hkey
        obtain rfl : fragments = r' := by simpa [step] using hstep
        obtain ⟨above, below, hshows, hbetween⟩ := between_field_fragments hkept hunrepeated h
        exact ⟨level + 1, above, below, fun _ _ => hshows, hbetween⟩
      · rw [step, if_neg hkey] at hstep
        obtain ⟨hselects, ⟨⟩⟩ := Option.ite_none_right_eq_some.1 hstep
        obtain ⟨above, below, hshows, hbetween⟩ := between_field_field hkept hselects h
        exact ⟨level + 1, above, below, fun _ _ => hshows, fun json _ => hbetween json⟩
  | fragments =>
    cases frame with
    | item before after =>
      cases hstep
      obtain ⟨above, below, hbetween⟩ := between_fragments_fragment h
      exact ⟨level, above, below, by simp, fun json _ => hbetween json⟩
    | member before key after =>
      obtain ⟨hselects, ⟨⟩⟩ := Option.ite_none_right_eq_some.1 hstep
      obtain ⟨above, below, hbetween⟩ := between_fragment_field hselects h
      exact ⟨level + 1, above, below, by simp, fun json _ => hbetween json⟩
  | fragment =>
    cases frame with
    | item before after => cases hstep
    | member before key after =>
      obtain ⟨hselects, ⟨⟩⟩ := Option.ite_none_right_eq_some.1 hstep
      obtain ⟨above, below, hbetween⟩ := between_fragment_field hselects h
      exact ⟨level + 1, above, below, by simp, fun json _ => hbetween json⟩

/-! ## Where nothing is read -/

/-- **Where nothing is read, what stands there does not matter.** -/
theorem lines_fill_of_step_eq_none {r : Reading} {frame : Frame}
    (hstep : r.step ignored frame = none) (hopen : frame.Open) (hjson : json.isContainer)
    (h : r.lines ignored level (frame.fill json) = .ok ls) {json' : Json}
    (hjson' : json'.isContainer) : r.lines ignored level (frame.fill json') = .ok ls := by
  cases frame with
  | item before after =>
    cases r with
    | field name => exact h
    | fragments => cases hstep
    | fragment => cases h
  | member before key after =>
    cases r with
    | field name =>
      obtain ⟨hfragments, hselects⟩ : key ≠ ControlKey.fragments.text
          ∧ selects ignored key = false := by
        by_cases hkey : key = ControlKey.fragments.text
        · simp [step, hkey] at hstep
        · exact ⟨hkey, by simpa [step, hkey] using hstep⟩
      obtain ⟨new, hnew, rfl⟩ := Except.map_eq_ok.1 h
      rw [lines, Frame.fill, fieldOf_container hselects hfragments hopen hjson hjson' hnew]
      rfl
    | fragments | fragment =>
      have hselects : selects ignored key = false := by simpa [step] using hstep
      rw [← h]
      exact congrArg (Except.map _) (fragmentOf_container hselects hjson hjson')

/-! ## Down several frames -/

/-- What a value is read as that stands deep in another one, if it is read at all. -/
def follow (ignored : List String) : Reading → List Frame → Option Reading
  | r, [] => some r
  | r, frame :: frames => (r.step ignored frame).bind fun r' => follow ignored r' frames

theorem kept_of_follow {frames : List Frame} {r r' : Reading}
    (hfollow : r.follow ignored frames = some r') (hkept : r.Kept ignored) : r'.Kept ignored := by
  induction frames generalizing r with
  | nil => exact Option.some.inj hfollow ▸ hkept
  | cons frame frames ih =>
    obtain ⟨next, hstep, hfollow⟩ := Option.bind_eq_some_iff.1 hfollow
    exact ih hfollow (kept_of_step hstep)

theorem Between.exists_eq_ok {above below : List Line} {whole part : Except Fault (List Line)}
    (h : Between above below whole part) (hwhole : whole = .ok ls) : ∃ ls', part = .ok ls' := by
  rw [h] at hwhole
  obtain ⟨ls', hpart, -⟩ := Except.map_eq_ok.1 hwhole
  exact ⟨ls', hpart⟩

/-- **Down to what is read**, lines are added above and below. -/
theorem between_fillAll {frames : List Frame} {r r' : Reading}
    (hfollow : r.follow ignored frames = some r') (hkept : r.Kept ignored)
    (hunrepeated : ∀ frame ∈ frames, frame.Unrepeated) (hjson : json.isContainer)
    (h : r.lines ignored level (Frame.fillAll frames json) = .ok ls) :
    ∃ level' above below, (frames ≠ [] → ∀ name, r = field name → Shows above)
      ∧ ∀ json, json.isContainer → Between above below
        (r.lines ignored level (Frame.fillAll frames json)) (r'.lines ignored level' json) := by
  induction frames generalizing r level ls with
  | nil =>
    obtain rfl := Option.some.inj hfollow
    refine ⟨level, [], [], fun h => absurd rfl h, fun json _ => ?_⟩
    rw [Between, Frame.fillAll, List.foldr_nil]
    cases r.lines ignored level json <;> simp [Except.map]
  | cons frame frames ih =>
    obtain ⟨next, hstep, hfollow⟩ := Option.bind_eq_some_iff.1 hfollow
    have hinner : ∀ json : Json, json.isContainer → (Frame.fillAll frames json).isContainer :=
      fun json hjson => Frame.isContainer_fillAll hjson frames
    obtain ⟨level₁, above, below, hshows, hbetween⟩ :=
      between_fill hstep hkept (hunrepeated frame List.mem_cons_self) h
    obtain ⟨ls', h'⟩ := (hbetween _ (hinner json hjson)).exists_eq_ok h
    obtain ⟨level₂, above', below', -, hbetween'⟩ := ih hfollow (kept_of_step hstep)
      (fun f hf => hunrepeated f (List.mem_cons_of_mem _ hf)) h'
    refine ⟨level₂, above ++ above', below' ++ below, fun _ name hname => ?_, fun json hjson => ?_⟩
    · obtain ⟨line, rest, rfl, hline⟩ := hshows name hname
      exact ⟨line, rest ++ above', rfl, hline⟩
    · exact (hbetween _ (hinner json hjson)).trans (hbetween' json hjson)

/-- **Below what is not read, nothing matters.** -/
theorem lines_fillAll_of_follow_eq_none {json' : Json} {frames : List Frame} {r : Reading}
    (hjson : json.isContainer) (hjson' : json'.isContainer)
    (hfollow : r.follow ignored frames = none) (hkept : r.Kept ignored)
    (hunrepeated : ∀ frame ∈ frames, frame.Unrepeated) (hopen : ∀ frame ∈ frames, frame.Open)
    (h : r.lines ignored level (Frame.fillAll frames json) = .ok ls) :
    r.lines ignored level (Frame.fillAll frames json') = .ok ls := by
  induction frames generalizing r level ls with
  | nil => cases hfollow
  | cons frame frames ih =>
    have hinner := Frame.isContainer_fillAll hjson frames
    have hinner' := Frame.isContainer_fillAll hjson' frames
    cases hstep : r.step ignored frame with
    | none =>
      exact lines_fill_of_step_eq_none hstep (hopen frame List.mem_cons_self) hinner h hinner'
    | some next =>
      have hnext : next.follow ignored frames = none := by simpa [follow, hstep] using hfollow
      obtain ⟨level₁, above, below, -, hbetween⟩ :=
        between_fill hstep hkept (hunrepeated frame List.mem_cons_self) h
      obtain ⟨ls₁, h₁⟩ := (hbetween _ hinner).exists_eq_ok h
      have hsame := ih hnext (kept_of_step hstep)
        (fun f hf => hunrepeated f (List.mem_cons_of_mem _ hf))
        (fun f hf => hopen f (List.mem_cons_of_mem _ hf)) h₁
      have hwhole := hbetween _ hinner
      rw [Between, h₁] at hwhole
      have hwhole' := hbetween _ hinner'
      rw [Between, hsame, ← hwhole] at hwhole'
      exact hwhole'.trans h

end Reading

end QueryTree

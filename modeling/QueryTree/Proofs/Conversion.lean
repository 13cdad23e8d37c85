import QueryTree.Node.OfJson

/-!
# Proofs/Conversion — the conversion step by step

A conversion of several parts succeeds if each part does. Here it is taken apart: what it says of an
empty list, of a member before others, and of one list behind another. Proofs about it go by these
equations and never unfold it.
-/

namespace QueryTree

/-! ## Steps that may fail -/

namespace Except

variable {ε α β : Type}

theorem bind_eq_ok {x : Except ε α} {f : α → Except ε β} {b : β} :
    x >>= f = .ok b ↔ ∃ a, x = .ok a ∧ f a = .ok b := by
  cases x with
  | error e => simp [bind, Except.bind]
  | ok a => simp [bind, Except.bind]

theorem map_eq_ok {x : Except ε α} {f : α → β} {b : β} :
    x.map f = .ok b ↔ ∃ a, x = .ok a ∧ f a = b := by
  cases x with
  | error e => simp [Except.map]
  | ok a => simp [Except.map]

end Except

/-! ## Control keys -/

namespace ControlKey

theorem text_inj {key key' : ControlKey} (h : key.text = key'.text) : key = key' := by
  have hkey := ofText?_text key
  rw [h, ofText?_text] at hkey
  exact (Option.some.inj hkey).symm

/-- A key is no control key if it is written differently from each. -/
theorem ofText?_eq_none_iff {name : String} :
    ofText? name = none ↔ ∀ key : ControlKey, name ≠ key.text := by
  refine ⟨fun h key heq => ?_, fun h => ?_⟩
  · rw [heq, ofText?_text] at h
    cases h
  · rw [Option.eq_none_iff_forall_not_mem]
    exact fun key hkey => h key (text_of_ofText? hkey).symm

end ControlKey

namespace Node

variable (ignored : List String)

/-! ## Fields -/

/-- A key selects a field if it is no control key and is not ignored. -/
theorem selects_eq_true_iff {key : String} :
    selects ignored key = true ↔ ControlKey.ofText? key = none ∧ key ∉ ignored := by
  simp [selects]

/-- Ignoring more selects less. -/
theorem selects_of_subset {ignored' : List String} (h : ignored ⊆ ignored') {key : String}
    (hselects : selects ignored' key) : selects ignored key := by
  obtain ⟨hcontrol, hkept⟩ := (selects_eq_true_iff ignored').1 hselects
  exact (selects_eq_true_iff ignored).2 ⟨hcontrol, fun hmem => hkept (h hmem)⟩

theorem selects_text (control : ControlKey) : selects ignored control.text = false := by
  rw [selects, ControlKey.ofText?_text]
  rfl

/-- A control key is none of the names that are selected. -/
theorem ne_text_of_selects {ignored : List String} {key : String} (h : selects ignored key)
    (control : ControlKey) : key ≠ control.text :=
  ControlKey.ofText?_eq_none_iff.1 ((selects_eq_true_iff ignored).1 h).1 control

theorem fieldsOf_cons_of_selects {key : String} (h : selects ignored key) (json : Json)
    (rest : List (Named Json)) : fieldsOf ignored (⟨key, json⟩ :: rest)
      = do
        let field ← fieldOf ignored key json
        let fields ← fieldsOf ignored rest
        return field :: fields := by
  rw [fieldsOf, if_pos h]

/-- A control key or an ignored name is passed over. -/
theorem fieldsOf_cons_of_not_selects {key : String} (h : selects ignored key = false) (json : Json)
    (rest : List (Named Json)) :
    fieldsOf ignored (⟨key, json⟩ :: rest) = fieldsOf ignored rest := by
  rw [fieldsOf, if_neg (by simp [h])]

/-- The fields of members in a row, which are converted if both parts are. -/
theorem fieldsOf_append (members rest : List (Named Json)) :
    fieldsOf ignored (members ++ rest)
      = do
        let fields ← fieldsOf ignored members
        let fields' ← fieldsOf ignored rest
        return fields ++ fields' := by
  induction members with
  | nil =>
    rw [List.nil_append]
    cases fieldsOf ignored rest <;> rfl
  | cons member members ih =>
    obtain ⟨key, json⟩ := member
    cases hselects : selects ignored key with
    | true =>
      rw [List.cons_append, fieldsOf_cons_of_selects ignored hselects,
        fieldsOf_cons_of_selects ignored hselects, ih]
      simp
    | false =>
      rw [List.cons_append, fieldsOf_cons_of_not_selects ignored hselects,
        fieldsOf_cons_of_not_selects ignored hselects, ih]

/-- Control keys select nothing. -/
theorem fieldsOf_of_text : ∀ {members : List (Named Json)},
    (∀ member ∈ members, ∃ key : ControlKey, member.name = key.text) →
      fieldsOf ignored members = .ok []
  | [], _ => rfl
  | ⟨_, json⟩ :: rest, h => by
      obtain ⟨⟨key, rfl⟩, hrest⟩ := List.forall_mem_cons.1 h
      rw [fieldsOf_cons_of_not_selects ignored (selects_text ignored key) json rest,
        fieldsOf_of_text hrest]

theorem fieldOf_of_ne_object {name : String} {json : Json}
    (h : ∀ members, json ≠ .object members) :
    fieldOf ignored name json = .ok (.leaf name (Value.ofJson json)) := by
  cases json with
  | object members => exact absurd rfl (h members)
  | _ => rfl

/-- A field has the name it was converted under. -/
theorem name_of_fieldOf {key : String} {json : Json} {field : Field}
    (h : fieldOf ignored key json = .ok field) : field.name = key := by
  cases json with
  | object members =>
    obtain ⟨fields, -, h⟩ := Except.bind_eq_ok.1 h
    obtain ⟨controls, -, h⟩ := Except.bind_eq_ok.1 h
    cases h
    rfl
  | _ =>
    cases h
    rfl

/-- Fields have the names of their members. -/
theorem mem_names_of_fieldsOf : ∀ {members : List (Named Json)}
    {fields : List Field}, fieldsOf ignored members = .ok fields → ∀ field ∈ fields,
      field.name ∈ members.map (·.name)
  | [], fields, h => by
      cases h
      simp
  | ⟨key, json⟩ :: rest, fields, h => by
      intro field hfield
      cases hselects : selects ignored key with
      | false =>
        rw [fieldsOf_cons_of_not_selects ignored hselects] at h
        exact List.mem_cons_of_mem _ (mem_names_of_fieldsOf h field hfield)
      | true =>
        rw [fieldsOf_cons_of_selects ignored hselects] at h
        obtain ⟨new, hnew, h⟩ := Except.bind_eq_ok.1 h
        obtain ⟨fields', hfields', h⟩ := Except.bind_eq_ok.1 h
        cases h
        rcases List.mem_cons.1 hfield with rfl | hfield
        · rw [name_of_fieldOf ignored hnew]
          exact List.mem_cons_self
        · exact List.mem_cons_of_mem _ (mem_names_of_fieldsOf hfields' field hfield)

/-! ## Controls -/

/-- What one member of a field's object says of the head of the field. -/
def headOf (name : String) (declares : Bool) (key : String) (json : Json) :
    Except Fault (Option Control) :=
  match ControlKey.ofText? key with
  | none => .ok none
  | some control => headControlOf name declares control json

/-- What one member of a field's object says besides the fields. -/
def controlOf (name : String) (declares : Bool) (key : String) (json : Json) :
    Except Fault (Option Control) :=
  match ControlKey.ofText? key, json with
  | some .fragments, .object members =>
    (fragmentOf ignored (.object members)).map fun fragment => some (.fragments [fragment])
  | some .fragments, .array items => (fragmentsOf ignored items).map (some ∘ .fragments)
  | some control, json => headControlOf name declares control json
  | none, _ => .ok none

section

variable {ignored} {name : String} {declares : Bool} {key : String}

/-- The object of fragments is a single one. -/
theorem controlOf_object (h : ControlKey.ofText? key = some .fragments)
    (members : List (Named Json)) : controlOf ignored name declares key (.object members)
      = (fragmentOf ignored (.object members)).map fun fragment =>
          some (.fragments [fragment]) := by
  simp [controlOf, h]

/-- Fragments may also stand in an array. -/
theorem controlOf_array (h : ControlKey.ofText? key = some .fragments) (items : List Json) :
    controlOf ignored name declares key (.array items)
      = (fragmentsOf ignored items).map (some ∘ .fragments) := by
  simp [controlOf, h]

/-- All else is data of the head, or nothing, whatever names are ignored. -/
theorem controlOf_eq_headOf {json : Json} (h : ControlKey.ofText? key = some .fragments →
      (∀ members, json ≠ .object members) ∧ ∀ items, json ≠ .array items) :
    controlOf ignored name declares key json = headOf name declares key json := by
  unfold controlOf headOf
  cases hkey : ControlKey.ofText? key with
  | none => rfl
  | some control =>
    cases control with
    | fragments =>
      cases json with
      | object members => exact absurd rfl ((h hkey).1 members)
      | array items => exact absurd rfl ((h hkey).2 items)
      | _ => rfl
    | _ => rfl

/-- Only control keys say anything. -/
theorem controlOf_of_no_key (h : ControlKey.ofText? key = none) (json : Json) :
    controlOf ignored name declares key json = .ok none := by
  simp [controlOf, h]

end

theorem controlsOf_cons (name : String) (declares : Bool) (key : String) (json : Json)
    (rest : List (Named Json)) : controlsOf ignored name declares (⟨key, json⟩ :: rest)
      = do
        let control ← controlOf ignored name declares key json
        let controls ← controlsOf ignored name declares rest
        return control.toList ++ controls := by
  rw [controlsOf.eq_def]
  simp only [controlOf]
  generalize ControlKey.ofText? key = control
  cases control with
  | none => rfl
  | some control => cases control <;> cases json <;> rfl

theorem controlsOf_append (name : String) (declares : Bool) (members rest : List (Named Json)) :
    controlsOf ignored name declares (members ++ rest)
      = do
        let controls ← controlsOf ignored name declares members
        let controls' ← controlsOf ignored name declares rest
        return controls ++ controls' := by
  induction members with
  | nil =>
    rw [List.nil_append]
    cases controlsOf ignored name declares rest <;> rfl
  | cons member members ih =>
    obtain ⟨key, json⟩ := member
    rw [List.cons_append, controlsOf_cons, controlsOf_cons, ih]
    simp [← List.append_assoc]

section

variable {ignored} {name : String} {declares : Bool}

theorem controlsOf_append_eq_ok {members members' : List (Named Json)}
    {controls controls' : List Control}
    (h : controlsOf ignored name declares members = .ok controls)
    (h' : controlsOf ignored name declares members' = .ok controls') :
    controlsOf ignored name declares (members ++ members') = .ok (controls ++ controls') := by
  rw [controlsOf_append, h, h']
  rfl

/-- Without control keys there are no controls. -/
theorem controlsOf_of_no_key : ∀ {members : List (Named Json)},
    (∀ member ∈ members, ControlKey.ofText? member.name = none) →
      controlsOf ignored name declares members = .ok []
  | [], _ => rfl
  | ⟨key, json⟩ :: rest, h => by
      rw [List.forall_mem_cons] at h
      obtain ⟨hkey, hrest⟩ := h
      rw [controlsOf_cons, controlOf_of_no_key hkey, controlsOf_of_no_key hrest]
      rfl

end

/-- **An object gives a node**: first its fields, and then its control keys are set on it. -/
theorem fieldOf_object (name : String) (members : List (Named Json)) :
    fieldOf ignored name (.object members)
      = do
        let fields ← fieldsOf ignored members
        let controls ← controlsOf ignored name (declaresVariables members) members
        return .node name (controls.foldl Control.set { fields }) := by
  rw [fieldOf]

/-! ## Fragments -/

/-- A fragment is its condition and its fields. Control keys are not looked at. -/
theorem fragmentOf_object (members : List (Named Json)) :
    fragmentOf ignored (.object members)
      = do
        let condition ← typeConditionOf members
        let fields ← fieldsOf ignored members
        return ⟨condition, { fields }⟩ := by
  rw [fragmentOf]

theorem fragmentsOf_cons (json : Json) (rest : List Json) :
    fragmentsOf ignored (json :: rest)
      = do
        let fragment ← fragmentOf ignored json
        let fragments ← fragmentsOf ignored rest
        return fragment :: fragments := by
  rw [fragmentsOf]

theorem fragmentsOf_append (items rest : List Json) :
    fragmentsOf ignored (items ++ rest)
      = do
        let fragments ← fragmentsOf ignored items
        let fragments' ← fragmentsOf ignored rest
        return fragments ++ fragments' := by
  induction items with
  | nil =>
    rw [List.nil_append]
    cases fragmentsOf ignored rest <;> rfl
  | cons json items ih =>
    rw [List.cons_append, fragmentsOf_cons, fragmentsOf_cons, ih]
    simp

/-! ## Queries -/

/-- A query with members is converted to its fields. -/
theorem ofJson_of_ne_nil {members : List (Named Json)} (h : members ≠ []) :
    ofJson ignored (.object members) = (fieldsOf ignored members).map fun fields => { fields } := by
  obtain ⟨member, rest, rfl⟩ := List.exists_cons_of_ne_nil h
  rw [ofJson.eq_def]
  change (fieldsOf ignored (member :: rest) >>= _) = _
  cases fieldsOf ignored (member :: rest) <;> rfl

end Node

end QueryTree

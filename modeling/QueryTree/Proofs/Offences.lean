import QueryTree.Compile
import QueryTree.Proofs.Conversion

/-!
# Proofs/Offences — the first fault of a query

Whether a query is malformed is decided in a few places only: mappings of directives that a field
could show, and what stands for a fragment. `Checkpoint` is such a place, `Checkpoint.offence?` what
is wrong there, and `Checkpoint.ofSelection` lists the places of a query in the order they are met.
The conversion fails just if something is wrong at one of them, and reports the first
(`ofJson_reports_first_offence`).
-/

namespace QueryTree

/-- A place of a query that can be at fault. -/
inductive Checkpoint where
  /-- The directives of the field of that name. -/
  | directives (field : String) (mapping : List (Named Json))
  /-- What stands for a fragment. -/
  | fragment (json : Json)

namespace Checkpoint

/-- What is wrong at a place, if anything. There may be one directive, a boolean or an object, and a
fragment is an object with a string for its name. -/
def offence? : Checkpoint → Option Report
  | directives field mapping =>
    if 1 < mapping.length then
      some {
        kind := .tooManyDirectives
        message := "Too many directives. The field '" ++ field ++ "' had " ++ mapping.length.repr
          ++ " directives, but only 1 directive per field is supported." }
    else
      match mapping.head? with
      | none | some ⟨_, .bool _⟩ | some ⟨_, .object _⟩ => none
      | some ⟨_, value⟩ => some {
          kind := .unsupportedDirectiveValue
          message := "Unsupported type for directive: " ++ value.typeName
            ++ ". Types allowed: object, boolean."
          context := some ("Offending object: " ++ (Json.object mapping).text) }
  | fragment (.object members) =>
    match (Json.object members).member? "__fragmentName" with
    | some (.string _) => none
    | _ => some {
        kind := .invalidInput
        message := "Inline fragments require a __fragmentName string" }
  | fragment json => some {
      kind := .invalidInput
      message := "Inline fragments must be objects, got: " ++ json.typeName }

/-- The keys that select no field. -/
def controlKeys : List String :=
  ["__args", "__alias", "__aliasFor", "__variables", "__directives", "__on", "__fragmentName"]

mutual

/-- The places met in a selection: those of its fields, in the order of their keys. -/
def ofSelection (ignored : List String) : List (Named Json) → List Checkpoint
  | [] => []
  | ⟨key, json⟩ :: rest =>
    (if key ∈ controlKeys ∨ key ∈ ignored then [] else ofField ignored key json)
      ++ ofSelection ignored rest

/-- The places met in a field: those of its selection, then those under its own control keys. Its
directives are no such place if it declares variables anywhere. -/
def ofField (ignored : List String) (field : String) : Json → List Checkpoint
  | .object members =>
    ofSelection ignored members
      ++ ofControls ignored field (((Json.object members).member? "__variables").any Json.isObject)
        members
  | _ => []

/-- The places met under the control keys of a field, in the order of the keys. -/
def ofControls (ignored : List String) (field : String) (declares : Bool) :
    List (Named Json) → List Checkpoint
  | [] => []
  | ⟨key, json⟩ :: rest =>
    ofControl ignored field declares key json ++ ofControls ignored field declares rest

/-- The places met under one key of a field. -/
def ofControl (ignored : List String) (field : String) (declares : Bool) (key : String) :
    Json → List Checkpoint
  | .object members =>
    if key = "__directives" then
      if declares then [] else [.directives field members]
    else if key = "__on" then .fragment (.object members) :: ofSelection ignored members
    else []
  | .array items => if key = "__on" then ofFragments ignored items else []
  | _ => []

/-- The places met in a list of fragments: each item, and behind it its selection. -/
def ofFragments (ignored : List String) : List Json → List Checkpoint
  | [] => []
  | .object members :: rest =>
    .fragment (.object members) :: ofSelection ignored members ++ ofFragments ignored rest
  | json :: rest => .fragment json :: ofFragments ignored rest

end

/-- What is wrong with a query: it is no object, it is empty, or the first thing wrong in its
selection. -/
def first? (ignored : List String) : Json → Option Report
  | .object [] => some { kind := .invalidInput, message := "query object has no data" }
  | .object members => (ofSelection ignored members).findSome? offence?
  | _ => some { kind := .invalidInput, message := "query object not specified" }

end Checkpoint

/-! ## Reports of steps -/

namespace Fault

variable {α β γ : Type}

/-- The report of a step that fails. -/
def report? : Except Fault α → Option Report
  | .ok _ => none
  | .error fault => some fault.report

/-- A report is that of the fault a conversion ended with. -/
theorem report?_eq_some_iff {x : Except Fault α} {report : Report} :
    report? x = some report ↔ ∃ fault, x = .error fault ∧ fault.report = report := by
  cases x <;> simp [report?]

/-- Of two steps the first that fails is reported. -/
theorem report?_bind (x : Except Fault α) (y : Except Fault β) (f : α → β → γ) :
    report? (do
      let a ← x
      let b ← y
      return f a b) = (report? x).or (report? y) := by
  cases x with
  | error fault => rfl
  | ok a => cases y <;> rfl

/-- What is done with a result does not matter to the fault. -/
theorem report?_map (x : Except Fault α) (f : α → β) : report? (x.map f) = report? x := by
  cases x <;> rfl

end Fault

namespace Node

open Fault Checkpoint

variable {ignored : List String}

/-! ## Places that hold no selection -/

/-- A key is passed over just if it is a control key or an ignored name. -/
theorem selects_eq_false_iff {key : String} :
    selects ignored key = false ↔ key ∈ controlKeys ∨ key ∈ ignored := by
  have hkeys : controlKeys = ControlKey.all.map ControlKey.text := rfl
  have hkey : ControlKey.ofText? key = none ↔ key ∉ controlKeys := by
    simp [ControlKey.ofText?, hkeys]
  rw [← Bool.not_eq_true, selects_eq_true_iff, hkey]
  simp [Classical.or_iff_not_imp_left]

/-- A mapping of directives is refused for what is wrong with it, and for nothing else. -/
theorem report?_directiveOf (field : String) : ∀ mapping : List (Named Json),
    report? (directiveOf field mapping) = offence? (.directives field mapping)
  | [] => rfl
  | [⟨_, json⟩] => by cases json <;> rfl
  | first :: second :: rest => by simp [directiveOf, report?, offence?, report]

/-- An object is refused as a fragment if no string stands for its name. -/
theorem report?_typeConditionOf (members : List (Named Json)) :
    report? (typeConditionOf members) = offence? (.fragment (.object members)) := by
  have hkey : ControlKey.fragmentName.text = "__fragmentName" := rfl
  rw [typeConditionOf, hkey, offence?, Json.member?, Json.members]
  cases Named.find? "__fragmentName" members with
  | none => rfl
  | some json => cases json <;> rfl

/-- The key of directives alone can be at fault among the data of a head, and only without declared
variables. -/
theorem report?_headOf (field : String) (declares : Bool) (key : String) (json : Json) :
    report? (headOf field declares key json)
      = match json with
        | .object mapping =>
          if key = "__directives" then
            if declares then none else offence? (.directives field mapping)
          else none
        | _ => none := by
  by_cases hkey : key = "__directives"
  · subst hkey
    rw [headOf, show ControlKey.ofText? "__directives" = some .directives from rfl]
    cases json with
    | object mapping =>
      cases declares with
      | true => rfl
      | false => simp [headControlOf, report?_map, report?_directiveOf]
    | _ => rfl
  · have hnone : report? (headOf field declares key json) = none := by
      unfold headOf
      split
      · rfl
      · next control hcontrol =>
        cases control with
        | directives => exact absurd (ControlKey.text_of_ofText? hcontrol).symm hkey
        | _ => cases json <;> rfl
    rw [hnone]
    cases json <;> simp [hkey]

/-! ## Selections -/

/-- The checkpoints of fragments, those of the first one before the others. -/
theorem ofFragments_cons (json : Json) (rest : List Json) :
    ofFragments ignored (json :: rest) = ofFragments ignored [json] ++ ofFragments ignored rest := by
  cases json <;> simp [ofFragments]

mutual

/-- **A selection reports what is wrong first.** -/
theorem report?_fieldsOf : ∀ members : List (Named Json),
    report? (fieldsOf ignored members) = (ofSelection ignored members).findSome? offence?
  | [] => rfl
  | ⟨key, json⟩ :: rest => by
      rw [ofSelection, List.findSome?_append, ← report?_fieldsOf rest]
      cases hselects : selects ignored key with
      | true =>
        rw [fieldsOf_cons_of_selects ignored hselects, report?_bind, report?_fieldOf key json,
          if_neg fun h => by simp [selects_eq_false_iff.2 h] at hselects]
      | false =>
        rw [fieldsOf_cons_of_not_selects ignored hselects,
          if_pos (selects_eq_false_iff.1 hselects)]
        rfl
termination_by members => (sizeOf members, 0)

/-- **A field is refused for the first offence below it**: its fields come before its controls. -/
theorem report?_fieldOf (field : String) : ∀ json : Json,
    report? (fieldOf ignored field json) = (ofField ignored field json).findSome? offence?
  | .object members => by
      rw [fieldOf_object, report?_bind, report?_fieldsOf members,
        report?_controlsOf field (declaresVariables members) members, ofField,
        List.findSome?_append]
      rfl
  | .null | .bool _ | .number _ | .string _ | .array _ => rfl
termination_by json => (sizeOf json, 0)

/-- Control keys are refused for the first offence in the order of the members. -/
theorem report?_controlsOf (field : String) (declares : Bool) : ∀ members : List (Named Json),
    report? (controlsOf ignored field declares members)
      = (ofControls ignored field declares members).findSome? offence?
  | [] => rfl
  | ⟨key, json⟩ :: rest => by
      rw [controlsOf_cons, report?_bind, report?_controlOf field declares key json,
        report?_controlsOf field declares rest, ofControls, List.findSome?_append]
termination_by members => (sizeOf members, 0)

/-- …and each for the first offence in its value. -/
theorem report?_controlOf (field : String) (declares : Bool) (key : String) : ∀ json : Json,
    report? (controlOf ignored field declares key json)
      = (ofControl ignored field declares key json).findSome? offence?
  | .object members => by
      by_cases hkey : key = "__on"
      · subst hkey
        rw [controlOf_object rfl, report?_map, report?_fragmentOf (.object members)]
        simp [ofControl, ofFragments]
      · have hcontrol : ControlKey.ofText? key ≠ some .fragments := fun h =>
          hkey (ControlKey.text_of_ofText? h).symm
        rw [controlOf_eq_headOf (absurd · hcontrol), report?_headOf, ofControl, if_neg hkey]
        by_cases hdirectives : key = "__directives" <;> cases declares <;> simp [hdirectives]
  | .array items => by
      by_cases hkey : key = "__on"
      · subst hkey
        rw [controlOf_array rfl, report?_map, report?_fragmentsOf items, ofControl, if_pos rfl]
      · have hcontrol : ControlKey.ofText? key ≠ some .fragments := fun h =>
          hkey (ControlKey.text_of_ofText? h).symm
        rw [controlOf_eq_headOf (absurd · hcontrol), report?_headOf, ofControl, if_neg hkey]
        rfl
  | .null | .bool _ | .number _ | .string _ => by
      rw [controlOf_eq_headOf (by simp), report?_headOf]
      rfl
termination_by json => (sizeOf json, 1)

/-- A fragment is refused for its condition, or else for its fields. -/
theorem report?_fragmentOf : ∀ json : Json,
    report? (fragmentOf ignored json) = (ofFragments ignored [json]).findSome? offence?
  | .object members => by
      rw [fragmentOf_object, report?_bind, report?_typeConditionOf, report?_fieldsOf members]
      simp only [ofFragments, List.append_nil]
      cases hoffence : offence? (.fragment (.object members)) <;> simp [hoffence]
  | .null | .bool _ | .number _ | .string _ | .array _ => rfl
termination_by json => (sizeOf json, 0)

/-- Fragments are refused for the first offence in the order of the array. -/
theorem report?_fragmentsOf : ∀ items : List Json,
    report? (fragmentsOf ignored items) = (ofFragments ignored items).findSome? offence?
  | [] => rfl
  | json :: rest => by
      rw [fragmentsOf_cons, report?_bind, report?_fragmentOf json, report?_fragmentsOf rest,
        ofFragments_cons json rest, List.findSome?_append]
termination_by items => (sizeOf items, 0)

end

/-- A query is refused for the first offence of the traversal. -/
theorem report?_ofJson : ∀ query : Json, report? (ofJson ignored query) = first? ignored query
  | .object [] => rfl
  | .object (member :: members) => by
      rw [first?, ← report?_fieldsOf, ofJson]
      · cases fieldsOf ignored (member :: members) <;> rfl
      · simp
      · simp
  | .null | .bool _ | .number _ | .string _ | .array _ => rfl

end Node

/-- A fault below a field comes before one under its own control keys. -/
example : Checkpoint.first? [] (.object [⟨"user", .object [⟨"__on", .array [.null]⟩,
      ⟨"posts", .object [⟨"__directives", .object [⟨"skip", .null⟩]⟩]⟩]⟩])
    = some {
        kind := .unsupportedDirectiveValue
        message := "Unsupported type for directive: null. Types allowed: object, boolean."
        context := some r#"Offending object: {"skip":null}"# } := by
  rfl

end QueryTree

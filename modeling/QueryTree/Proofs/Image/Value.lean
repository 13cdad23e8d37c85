import QueryTree.Proofs.Finite
import QueryTree.Value.OfJson

/-!
# Proofs/Image/Value — the values that come from JSON

JSON has neither enum constants nor variables, no infinite numbers, and no object with a name twice.
The values without these (`Value.IsJson`) are just those that come from JSON: every converted value
is one, and for each `Value.toJson` writes JSON that is converted back to it (`ofJson_toJson`).
-/

namespace QueryTree

/-- No object in a JSON value has a name twice. -/
inductive Json.Unrepeated : Json → Prop
  | null : Unrepeated .null
  | bool (b : Bool) : Unrepeated (.bool b)
  | number (n : Json.Number) : Unrepeated (.number n)
  | string (s : String) : Unrepeated (.string s)
  | array {items : List Json} (hitems : ∀ item ∈ items, Unrepeated item) :
      Unrepeated (.array items)
  | object {members : List (Named Json)} (hnodup : (members.map (·.name)).Nodup)
      (hmembers : ∀ member ∈ members, Unrepeated member.value) : Unrepeated (.object members)

namespace Value

/-- A value that JSON can express: doubles are finite and names of objects distinct, and it holds
neither enum constants nor variables. -/
inductive IsJson : Value → Prop
  | null : IsJson .null
  | bool (b : Bool) : IsJson (.bool b)
  | int (n : Int64) : IsJson (.int n)
  | float {x : Float} (hfinite : x.isFinite = true) : IsJson (.float x)
  | string (s : String) : IsJson (.string s)
  | list {items : List Value} (hitems : ∀ item ∈ items, IsJson item) : IsJson (.list items)
  | object {fields : List (Named Value)} (hnodup : (fields.map (·.name)).Nodup)
      (hfields : ∀ field ∈ fields, IsJson field.value) : IsJson (.object fields)

/-- Named values that an object of JSON can express. -/
structure AreJson (arguments : Arguments) : Prop where
  distinct : (arguments.map (·.name)).Nodup
  values : ∀ argument ∈ arguments, argument.value.IsJson

/-! ## Values from JSON -/

theorem ofMembers_eq_map (members : List (Named Json)) :
    ofMembers members = members.map fun member => ⟨member.name, ofJson member.value⟩ := by
  induction members with
  | nil => rfl
  | cons member members ih => rw [ofMembers, ih, List.map_cons]

theorem names_ofMembers (members : List (Named Json)) :
    (ofMembers members).map (·.name) = members.map (·.name) := by
  rw [ofMembers_eq_map, List.map_map]
  rfl

/-- Integers too large for a signed word become doubles, which are finite nevertheless. -/
theorem isJson_ofNumber (n : Json.Number) : (ofNumber n).IsJson := by
  cases n with
  | int n hrange =>
    rw [ofNumber]
    split
    · exact .int _
    · exact .float (Double.isFinite_ofInt (by omega))
  | float x hfinite => exact .float hfinite

/-- **What comes from JSON can be expressed in it.** -/
theorem isJson_ofJson {json : Json} (h : json.Unrepeated) : (ofJson json).IsJson := by
  induction h with
  | null => exact .null
  | bool b => exact .bool b
  | number n => exact isJson_ofNumber n
  | string s => exact .string s
  | array _ ih =>
    rw [ofJson, ofItems_eq_map]
    exact .list (List.forall_mem_map.2 ih)
  | object hnodup _ ih =>
    rw [ofJson]
    refine .object (by rwa [names_ofMembers]) ?_
    rw [ofMembers_eq_map]
    exact List.forall_mem_map.2 ih

/-- The members of an object become arguments that come from JSON. -/
theorem areJson_ofMembers {members : List (Named Json)} (h : (Json.object members).Unrepeated) :
    AreJson (ofMembers members) := by
  have hobject := isJson_ofJson h
  rw [ofJson] at hobject
  cases hobject with
  | object hnodup hfields => exact ⟨hnodup, hfields⟩

/-- Objects alone become objects. -/
theorem ofJson_ne_object {json : Json} (h : ∀ members, json ≠ .object members)
    (fields : List (Named Value)) : ofJson json ≠ .object fields := by
  cases json with
  | object members => exact absurd rfl (h members)
  | number n =>
    cases n with
    | int n _ =>
      rw [ofJson, ofNumber]
      split <;> nofun
    | float x _ => nofun
  | _ => nofun

/-! ## Values as JSON -/

/-- Signed words are among the integers of JSON. -/
theorem toInt_inRange (n : Int64) :
    -0x8000000000000000 ≤ n.toInt ∧ n.toInt < 0x10000000000000000 := by
  have hle : -0x8000000000000000 ≤ n.toInt := n.le_toInt
  have hlt : n.toInt < 0x8000000000000000 := n.toInt_lt
  omega

mutual

/-- A value as JSON. Whatever JSON cannot express becomes `null`. -/
def toJson : Value → Json
  | .var _ | .enum _ | .null => .null
  | .string s => .string s
  | .int n => .number (.int n.toInt (toInt_inRange n))
  | .float x => if hfinite : x.isFinite = true then .number (.float x hfinite) else .null
  | .bool b => .bool b
  | .list items => .array (toItems items)
  | .object fields => .object (toMembers fields)

/-- Values as the items of an array. -/
def toItems : List Value → List Json
  | [] => []
  | item :: items => item.toJson :: toItems items

/-- Named values as the members of an object. -/
def toMembers : List (Named Value) → List (Named Json)
  | [] => []
  | ⟨name, value⟩ :: fields => ⟨name, value.toJson⟩ :: toMembers fields

end

theorem toItems_eq_map (items : List Value) : toItems items = items.map toJson := by
  induction items with
  | nil => rfl
  | cons item items ih => rw [toItems, ih, List.map_cons]

theorem toMembers_eq_map (fields : List (Named Value)) :
    toMembers fields = fields.map fun field => ⟨field.name, field.value.toJson⟩ := by
  induction fields with
  | nil => rfl
  | cons field fields ih => rw [toMembers, ih, List.map_cons]

theorem names_toMembers (fields : List (Named Value)) :
    (toMembers fields).map (·.name) = fields.map (·.name) := by
  rw [toMembers_eq_map, List.map_map]
  rfl

/-- Objects alone are written as objects. -/
theorem toJson_ne_object {v : Value} (h : ∀ fields, v ≠ .object fields)
    (members : List (Named Json)) : v.toJson ≠ .object members := by
  cases v with
  | object fields => exact absurd rfl (h fields)
  | float x =>
    rw [toJson]
    split <;> nofun
  | _ => nofun

/-- A value that comes from JSON is written without a repeated key. -/
theorem unrepeated_toJson {v : Value} (h : v.IsJson) : v.toJson.Unrepeated := by
  induction h with
  | null => exact .null
  | bool b => exact .bool b
  | int n => exact .number _
  | float hfinite =>
    rw [toJson, dif_pos hfinite]
    exact .number _
  | string s => exact .string s
  | list _ ih =>
    rw [toJson, toItems_eq_map]
    exact .array (List.forall_mem_map.2 ih)
  | object hnodup _ ih =>
    rw [toJson]
    refine .object (by rwa [names_toMembers]) ?_
    rw [toMembers_eq_map]
    exact List.forall_mem_map.2 ih

/-- **A value that JSON can express is converted back to itself.** -/
theorem ofJson_toJson {v : Value} (h : v.IsJson) : ofJson v.toJson = v := by
  induction h with
  | null => rfl
  | bool b => rfl
  | int n =>
    have hlt : n.toInt < 0x8000000000000000 := n.toInt_lt
    rw [toJson, ofJson, ofNumber, if_pos hlt, Int64.ofInt_toInt]
  | float hfinite => rw [toJson, dif_pos hfinite, ofJson, ofNumber]
  | string s => rfl
  | list _ ih =>
    rw [toJson, ofJson, ofItems_eq_map, toItems_eq_map, List.map_map]
    congr 1
    exact List.map_congr_left ih |>.trans (List.map_id _)
  | object _ _ ih =>
    rw [toJson, ofJson, ofMembers_eq_map, toMembers_eq_map, List.map_map]
    congr 1
    refine (List.map_congr_left fun field hfield => ?_).trans (List.map_id _)
    rw [Function.comp_apply, ih field hfield]
    rfl

section

variable {arguments : Arguments} (h : AreJson arguments)

include h

theorem unrepeated_toMembers : (Json.object (toMembers arguments)).Unrepeated :=
  unrepeated_toJson (.object h.distinct h.values)

/-- Arguments are converted back from what they are written as. -/
theorem ofMembers_toMembers : ofMembers (toMembers arguments) = arguments := by
  have hobject := ofJson_toJson (.object h.distinct h.values)
  rw [toJson, ofJson] at hobject
  exact Value.object.inj hobject

end

end Value

end QueryTree

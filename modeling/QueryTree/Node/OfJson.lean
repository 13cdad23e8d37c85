import QueryTree.Error.Fault
import QueryTree.Node.Control
import QueryTree.Value.OfJson

/-!
# Node/OfJson — JSON queries as query trees

An object selects its members in order, but for control keys and ignored names: an object becomes a
field with a node, anything else a leaf. The node of a field takes its head and its fragments from
the control keys of the object. The root and the fragments have a selection only; their other
control keys are passed over, faulty or not.

The first fault met ends the conversion. The selection of an object comes before its own control
keys, those in the order they are written, and a fragment needs its name before its selection.
Main definition: `Node.ofJson`.
-/

namespace QueryTree.Node

/-! ## Control data without a selection -/

/-- The declared variables. A type that is not a string is written as JSON. -/
def declarationsOf (members : List (Named Json)) : Variables :=
  members.map fun ⟨name, type⟩ =>
    ⟨name, match type with
      | .string s => s
      | type => type.text⟩

/-- The directive of the field of that name. The truth value of a boolean does not matter. -/
def directiveOf (field : String) : List (Named Json) → Except Fault (Option Directive)
  | [] => .ok none
  | [⟨name, .bool _⟩] => .ok (some ⟨name, none⟩)
  | [⟨name, .object members⟩] => .ok (some ⟨name, some (Value.ofMembers members)⟩)
  | [directive] => .error (.unsupportedDirective directive)
  | members => .error (.tooManyDirectives field members.length)

/-- Whether an object declares variables. A field that does prints no directive, so none of its
directives is looked at. -/
def declaresVariables (members : List (Named Json)) : Bool :=
  (Named.find? ControlKey.declared.text members).any Json.isObject

/-- The type that a fragment is for. -/
def typeConditionOf (members : List (Named Json)) : Except Fault String :=
  match Named.find? ControlKey.fragmentName.text members with
  | some (.string condition) => .ok condition
  | _ => .error .unnamedFragment

/-- What a control key says, but for fragments. A value of any other type than the key's own says
nothing. -/
def headControlOf (field : String) (declares : Bool) :
    ControlKey → Json → Except Fault (Option Control)
  | .arguments, .object members => .ok (some (.arguments (Value.ofMembers members)))
  | .aliasName, .string name => .ok (some (.aliasName name))
  | .aliasFor, .string field => .ok (some (.aliasFor field))
  | .declared, .object members => .ok (some (.declared (declarationsOf members)))
  | .directives, .object members =>
    if declares then .ok none
    else (directiveOf field members).map (some ∘ .directive)
  | _, _ => .ok none

/-- Whether a member selects a field. -/
def selects (ignored : List String) (key : String) : Bool :=
  (ControlKey.ofText? key).isNone && !ignored.contains key

/-! ## Selections -/

mutual

/-- The fields that the members of an object select. -/
def fieldsOf (ignored : List String) : List (Named Json) → Except Fault (List Field)
  | [] => .ok []
  | ⟨key, json⟩ :: rest =>
    if selects ignored key then do
      let field ← fieldOf ignored key json
      let fields ← fieldsOf ignored rest
      return field :: fields
    else
      fieldsOf ignored rest

/-- The field of that name that a JSON value stands for. -/
def fieldOf (ignored : List String) (name : String) : Json → Except Fault Field
  | .object members => do
    let fields ← fieldsOf ignored members
    let controls ← controlsOf ignored name (declaresVariables members) members
    return .node name (controls.foldl Control.set { fields })
  | json => .ok (.leaf name (Value.ofJson json))

/-- What the control keys of a field's object say, in the order they are written. An object of
fragments is a single fragment, an array a list of them. -/
def controlsOf (ignored : List String) (name : String) (declares : Bool) :
    List (Named Json) → Except Fault (List Control)
  | [] => .ok []
  | ⟨key, json⟩ :: rest => do
    let control ← match ControlKey.ofText? key, json with
      | some .fragments, .object members =>
        (fragmentOf ignored (.object members)).map fun fragment => some (.fragments [fragment])
      | some .fragments, .array items => (fragmentsOf ignored items).map (some ∘ .fragments)
      | some control, json => headControlOf name declares control json
      | none, _ => .ok none
    let controls ← controlsOf ignored name declares rest
    return control.toList ++ controls

/-- The fragment that a JSON value stands for. -/
def fragmentOf (ignored : List String) : Json → Except Fault Fragment
  | .object members => do
    let condition ← typeConditionOf members
    let fields ← fieldsOf ignored members
    return ⟨condition, { fields }⟩
  | json => .error (.fragmentNotAnObject json)

/-- The fragments that the items of an array stand for. -/
def fragmentsOf (ignored : List String) : List Json → Except Fault (List Fragment)
  | [] => .ok []
  | json :: rest => do
    let fragment ← fragmentOf ignored json
    let fragments ← fragmentsOf ignored rest
    return fragment :: fragments

end

/-- The query tree of a JSON query, fields with an ignored name left out at every level. -/
def ofJson (ignored : List String) : Json → Except Fault Node
  | .object [] => .error .noData
  | .object members => do
    let fields ← fieldsOf ignored members
    return { fields }
  | _ => .error .notAnObject

end QueryTree.Node

import QueryTree.Proofs.Image.Tree

/-!
# Proofs/Image — which trees queries are converted to

A tree that comes from JSON has a bare root, and its nodes are as JSON objects give them
(`Proofs/Image/Tree`). Nothing else limits what trees there are: `Node.toJson` writes the object of a
field, with one control key for each part of the head and one for the fragments, and such an object
is converted back to the node it was written for. So the conversion reaches just these trees
(`exists_ofJson_iff`).
-/

namespace QueryTree

/-! ## Control keys of a node -/

/-- The member for a part of a node, if the part is there. -/
def ControlKey.slot {α : Type} (key : ControlKey) (json : α → Json) (part : Option α) :
    List (Named Json) :=
  part.toList.map fun a => ⟨key.text, json a⟩

/-- Declared variables as JSON. -/
def Variables.toJson (declarations : Variables) : Json :=
  .object (declarations.map fun declaration => ⟨declaration.name, .string declaration.value⟩)

/-- A directive as JSON. Without arguments, a boolean stands for it. -/
def Directive.toJson (directive : Directive) : Json :=
  .object [⟨directive.name, match directive.arguments with
    | none => .bool true
    | some as => .object (Value.toMembers as)⟩]

/-- The control keys for a head. -/
def Head.toMembers (head : Head) : List (Named Json) :=
  ControlKey.arguments.slot (fun as => .object (Value.toMembers as)) head.arguments
    ++ ControlKey.aliasName.slot .string head.aliasName
    ++ ControlKey.aliasFor.slot .string head.aliasFor
    ++ ControlKey.declared.slot Variables.toJson head.declared
    ++ ControlKey.directives.slot Directive.toJson head.directive

/-- The parts of a head as control keys give them. -/
def Head.controls (head : Head) : List Control :=
  head.arguments.toList.map .arguments
    ++ head.aliasName.toList.map .aliasName
    ++ head.aliasFor.toList.map .aliasFor
    ++ head.declared.toList.map .declared
    ++ head.directive.toList.map fun directive => .directive (some directive)

namespace Node

mutual

/-- The object that a field of this node is converted from. -/
def toJson : Node → Json
  | ⟨head, fields, fragments⟩ =>
    .object (toMembers fields ++ (head.toMembers ++ match fragments with
      | none => []
      | some fragments => [⟨ControlKey.fragments.text, .array (toItems fragments)⟩]))

/-- Fields as the members of an object. -/
def toMembers : List Field → List (Named Json)
  | [] => []
  | .leaf name value :: rest => ⟨name, value.toJson⟩ :: toMembers rest
  | .node name child :: rest => ⟨name, child.toJson⟩ :: toMembers rest

/-- Fragments as the items of an array. -/
def toItems : List Fragment → List Json
  | [] => []
  | ⟨condition, ⟨_, fields, _⟩⟩ :: rest =>
    .object (⟨ControlKey.fragmentName.text, .string condition⟩ :: toMembers fields) :: toItems rest

end

/-- The control keys for a node. -/
def controlMembers (node : Node) : List (Named Json) :=
  node.head.toMembers
    ++ ControlKey.fragments.slot (fun fragments => .array (toItems fragments)) node.fragments

/-- The parts of a node as control keys give them. -/
def controls (node : Node) : List Control :=
  node.head.controls ++ node.fragments.toList.map .fragments

theorem toJson_eq : ∀ node : Node,
    node.toJson = .object (toMembers node.fields ++ node.controlMembers)
  | ⟨_, _, none⟩ => by
      rw [toJson]
      rfl
  | ⟨_, _, some _⟩ => by
      rw [toJson]
      rfl

/-- A node is put together from its parts. -/
theorem foldl_set_controls (node : Node) :
    node.controls.foldl Control.set { fields := node.fields } = node := by
  obtain ⟨⟨arguments, aliasName, aliasFor, declared, directive⟩, fields, fragments⟩ := node
  cases arguments <;> cases aliasName <;> cases aliasFor <;> cases declared <;> cases directive <;>
    cases fragments <;> rfl

end Node

/-! ## One member for each part -/

section

variable {α : Type} {key : ControlKey} {json : α → Json} {part : Option α}

namespace ControlKey

theorem names_slot_sublist : ((key.slot json part).map (·.name)).Sublist [key.text] := by
  cases part with
  | none => exact List.nil_sublist _
  | some a => exact List.Sublist.refl _

theorem find?_slot_of_ne {key' : ControlKey} (h : key ≠ key') :
    Named.find? key'.text (key.slot json part) = none := by
  cases part with
  | none => rfl
  | some a => exact Named.find?_cons_of_ne (fun heq => h (text_inj heq)) []

theorem forall_mem_slot {kind : Json → Prop} (h : ∀ a ∈ part, kind (json a)) :
    ∀ member ∈ key.slot json part, kind member.value :=
  List.forall_mem_map.2 fun a ha => h a (Option.mem_toList.1 ha)

end ControlKey

theorem Node.controlsOf_slot {ignored : List String} {name : String} {declares : Bool}
    {control : α → Control} (h : ∀ a ∈ part,
      controlOf ignored name declares key.text (json a) = .ok (some (control a))) :
    controlsOf ignored name declares (key.slot json part) = .ok (part.toList.map control) := by
  cases part with
  | none => rfl
  | some a =>
    have hslot : key.slot json (some a) = [⟨key.text, json a⟩] := rfl
    rw [hslot, controlsOf_cons, h a rfl]
    rfl

end

namespace Node

variable {ignored : List String} {name : String} {declares : Bool}

/-- **The control keys of a node are different.** -/
theorem names_controlMembers_sublist (node : Node) :
    (node.controlMembers.map (·.name)).Sublist (ControlKey.all.map ControlKey.text) := by
  simp only [controlMembers, Head.toMembers, List.map_append]
  exact (((((ControlKey.names_slot_sublist.append ControlKey.names_slot_sublist).append
    ControlKey.names_slot_sublist).append ControlKey.names_slot_sublist).append
    ControlKey.names_slot_sublist).append ControlKey.names_slot_sublist).trans
      (List.sublist_append_left _ [ControlKey.fragmentName.text])

theorem exists_key_of_mem_controlMembers {node : Node} {member : Named Json}
    (h : member ∈ node.controlMembers) : ∃ key : ControlKey, member.name = key.text := by
  have hmem := (names_controlMembers_sublist node).subset (List.mem_map_of_mem h)
  obtain ⟨key, -, hkey⟩ := List.mem_map.1 hmem
  exact ⟨key, hkey.symm⟩

theorem unrepeated_controlMembers {node : Node} (hhead : node.head.IsConverted)
    (hfragments : ∀ fragments ∈ node.fragments, (Json.array (toItems fragments)).Unrepeated) :
    (Json.object node.controlMembers).Unrepeated := by
  refine .object ((names_controlMembers_sublist node).nodup (by decide)) ?_
  simp only [controlMembers, Head.toMembers, List.forall_mem_append]
  refine ⟨⟨⟨⟨⟨?arguments, ?aliasName⟩, ?aliasFor⟩, ?declared⟩, ?directive⟩, ?fragments⟩
  case arguments =>
    exact ControlKey.forall_mem_slot fun as has =>
      Value.unrepeated_toMembers (hhead.arguments as has)
  case aliasName => exact ControlKey.forall_mem_slot fun s _ => .string s
  case aliasFor => exact ControlKey.forall_mem_slot fun s _ => .string s
  case declared =>
    refine ControlKey.forall_mem_slot fun vs hvs => .object ?_ ?_
    · simpa [Function.comp_def] using hhead.declared vs hvs
    · exact List.forall_mem_map.2 fun declaration _ => .string _
  case directive =>
    refine ControlKey.forall_mem_slot fun d hd => .object (by simp) ?_
    refine List.forall_mem_singleton.2 ?_
    obtain ⟨name, _ | as⟩ := d
    · exact .bool true
    · exact Value.unrepeated_toMembers (hhead.directive _ hd as rfl)
  case fragments => exact ControlKey.forall_mem_slot hfragments

/-- Under a key for the head, a member says what the head has there. -/
theorem controlsOf_slot_of_head {α : Type} {key : ControlKey} (hkey : key ≠ .fragments)
    {json : α → Json} {part : Option α} {control : α → Control} (h : ∀ a ∈ part,
      headControlOf name declares key (json a) = .ok (some (control a))) :
    controlsOf ignored name declares (key.slot json part) = .ok (part.toList.map control) := by
  refine controlsOf_slot fun a ha => ?_
  have hne : ControlKey.ofText? key.text ≠ some .fragments := by
    rw [ControlKey.ofText?_text]
    exact fun heq => hkey (Option.some.inj heq)
  rw [controlOf_eq_headOf (absurd · hne), headOf, ControlKey.ofText?_text]
  exact h a ha

theorem declarationsOf_map (declarations : Variables) :
    declarationsOf (declarations.map fun declaration =>
      ⟨declaration.name, .string declaration.value⟩) = declarations := by
  rw [declarationsOf, List.map_map]
  exact List.map_id _

theorem directiveOf_toJson {directive : Directive}
    (h : ∀ arguments ∈ directive.arguments, Value.AreJson arguments) :
    headControlOf name false .directives directive.toJson
      = .ok (some (.directive (some directive))) := by
  obtain ⟨directiveName, _ | arguments⟩ := directive
  · rfl
  · have harguments := Value.ofMembers_toMembers (h arguments rfl)
    rw [Directive.toJson, headControlOf, if_neg Bool.false_ne_true, directiveOf, harguments]
    rfl

/-- **The control keys of a node give its parts back.** -/
theorem controlsOf_controlMembers {node : Node} (hhead : node.head.IsConverted)
    (hdeclares : ∀ directive ∈ node.head.directive, declares = false)
    (hfragments : ∀ fragments ∈ node.fragments,
      fragmentsOf ignored (toItems fragments) = .ok fragments) :
    controlsOf ignored name declares node.controlMembers = .ok node.controls := by
  refine controlsOf_append_eq_ok (controlsOf_append_eq_ok (controlsOf_append_eq_ok
    (controlsOf_append_eq_ok (controlsOf_append_eq_ok ?arguments ?aliasName) ?aliasFor) ?declared)
    ?directive) ?fragments
  case arguments =>
    refine controlsOf_slot_of_head (by decide) fun as has => ?_
    rw [headControlOf, Value.ofMembers_toMembers (hhead.arguments as has)]
  case aliasName => exact controlsOf_slot_of_head (by decide) fun s _ => rfl
  case aliasFor => exact controlsOf_slot_of_head (by decide) fun s _ => rfl
  case declared =>
    refine controlsOf_slot_of_head (by decide) fun vs _ => ?_
    rw [Variables.toJson, headControlOf, declarationsOf_map]
  case directive =>
    refine controlsOf_slot_of_head (by decide) fun d hd => ?_
    rw [hdeclares d hd, directiveOf_toJson (hhead.directive d hd)]
  case fragments =>
    refine controlsOf_slot fun fs hfs => ?_
    rw [controlOf_array (ControlKey.ofText?_text _), hfragments fs hfs]
    rfl

/-! ## There and back -/

theorem names_toMembers : ∀ fields : List Field,
    (toMembers fields).map (·.name) = fields.map (·.name)
  | [] => rfl
  | .leaf _ _ :: rest => by rw [toMembers, List.map_cons, names_toMembers rest, List.map_cons]; rfl
  | .node _ _ :: rest => by rw [toMembers, List.map_cons, names_toMembers rest, List.map_cons]; rfl

theorem ofText?_of_mem_toMembers {fields : List Field} (hfields : IsSelection ignored fields)
    {member : Named Json} (h : member ∈ toMembers fields) :
    ControlKey.ofText? member.name = none := by
  have hmem : member.name ∈ (toMembers fields).map (·.name) := List.mem_map_of_mem h
  rw [names_toMembers] at hmem
  obtain ⟨field, hfield, heq⟩ := List.mem_map.1 hmem
  exact heq ▸ ControlKey.ofText?_eq_none_iff.2 (hfields.selected field hfield).key

/-- No control key stands among fields. -/
theorem text_ne_of_mem_toMembers {fields : List Field} (hfields : IsSelection ignored fields)
    (key : ControlKey) {member : Named Json} (h : member ∈ toMembers fields) :
    member.name ≠ key.text :=
  ControlKey.ofText?_eq_none_iff.1 (ofText?_of_mem_toMembers hfields h) key

theorem fieldsOf_controlMembers (node : Node) :
    fieldsOf ignored node.controlMembers = .ok [] :=
  fieldsOf_of_text ignored fun _ hmem => exists_key_of_mem_controlMembers hmem

theorem controlsOf_toMembers {fields : List Field} (hfields : IsSelection ignored fields) :
    controlsOf ignored name declares (toMembers fields) = .ok [] :=
  controlsOf_of_no_key fun _ hmem => ofText?_of_mem_toMembers hfields hmem

/-- A control key in front does not change a selection. -/
theorem fieldsOf_text_cons {fields : List Field} (hfields : IsSelection ignored fields)
    (key : ControlKey) {json : Json} (hjson : json.Unrepeated)
    (h : (Json.object (toMembers fields)).Unrepeated
      ∧ fieldsOf ignored (toMembers fields) = .ok fields) :
    (Json.object (⟨key.text, json⟩ :: toMembers fields)).Unrepeated
      ∧ fieldsOf ignored (⟨key.text, json⟩ :: toMembers fields) = .ok fields := by
  refine ⟨Json.unrepeated_object_cons.2 ⟨fun hmem => ?_, hjson, h.1⟩, ?_⟩
  · obtain ⟨member, hmember, heq⟩ := List.mem_map.1 hmem
    exact text_ne_of_mem_toMembers hfields key hmember heq
  · rw [fieldsOf_cons_of_not_selects ignored (selects_text ignored key), h.2]

/-- No member declares variables beside a directive. -/
theorem declaresVariables_members {node : Node} (h : node.IsConverted ignored) :
    ∀ directive ∈ node.head.directive,
      declaresVariables (toMembers node.fields ++ node.controlMembers) = false := by
  intro directive hdirective
  have hnone : node.head.declared = none := by
    refine Option.not_isSome_iff_eq_none.1 fun hsome => ?_
    rw [h.head.exclusive hsome] at hdirective
    cases hdirective
  have hfields : Named.find? ControlKey.declared.text (toMembers node.fields) = none := by
    rw [Named.find?, Option.map_eq_none_iff, List.find?_eq_none]
    exact fun member hmem => by simpa using text_ne_of_mem_toMembers h.selection .declared hmem
  have hdeclared : ControlKey.declared.slot Variables.toJson node.head.declared = [] := by
    rw [hnone]
    rfl
  rw [declaresVariables, Named.find?_append, hfields, controlMembers, Head.toMembers, hdeclared]
  simp only [Named.find?_append, ControlKey.find?_slot_of_ne, ne_eq, reduceCtorEq, not_false_iff]
  rfl

/-- The members of a node are distinct if its fields are. -/
theorem unrepeated_members {node : Node} (hselection : IsSelection ignored node.fields)
    (hfields : (Json.object (toMembers node.fields)).Unrepeated)
    (hcontrols : (Json.object node.controlMembers).Unrepeated) :
    (Json.object (toMembers node.fields ++ node.controlMembers)).Unrepeated := by
  cases hfields with
  | object hnodup hmembers =>
    cases hcontrols with
    | object hnodup' hmembers' =>
      refine .object ?_ (List.forall_mem_append.2 ⟨hmembers, hmembers'⟩)
      rw [List.map_append, List.nodup_append]
      refine ⟨hnodup, hnodup', fun name hname name' hname' heq => ?_⟩
      obtain ⟨member, hmember, rfl⟩ := List.mem_map.1 hname
      obtain ⟨member', hmember', rfl⟩ := List.mem_map.1 hname'
      obtain ⟨key, hkey⟩ := exists_key_of_mem_controlMembers hmember'
      exact text_ne_of_mem_toMembers hselection key hmember (heq.trans hkey)

/-- One more field in front of a selection. -/
theorem fieldsOf_member_cons {field : Field} {rest : List Field}
    (hselection : IsSelection ignored (field :: rest)) {json : Json}
    (hfield : json.Unrepeated ∧ fieldOf ignored field.name json = .ok field)
    (hrest : (Json.object (toMembers rest)).Unrepeated
      ∧ fieldsOf ignored (toMembers rest) = .ok rest) :
    (Json.object (⟨field.name, json⟩ :: toMembers rest)).Unrepeated
      ∧ fieldsOf ignored (⟨field.name, json⟩ :: toMembers rest) = .ok (field :: rest) := by
  obtain ⟨hselected, hnew, -⟩ := isSelection_cons.1 hselection
  rw [Json.unrepeated_object_cons, names_toMembers]
  refine ⟨⟨hnew, hfield.1, hrest.1⟩, ?_⟩
  rw [fieldsOf_cons_of_selects ignored hselected.selects, hfield.2, hrest.2]
  rfl

/-- A node is read back from its members if its selection and its fragments are. -/
theorem fieldOf_members {node : Node} (hself : node.IsConverted ignored)
    (hfields : (Json.object (toMembers node.fields)).Unrepeated
      ∧ fieldsOf ignored (toMembers node.fields) = .ok node.fields)
    (hfragments : ∀ fragments ∈ node.fragments, (Json.array (toItems fragments)).Unrepeated
      ∧ fragmentsOf ignored (toItems fragments) = .ok fragments) :
    node.toJson.Unrepeated ∧ fieldOf ignored name node.toJson = .ok (.node name node) := by
  rw [toJson_eq]
  refine ⟨unrepeated_members hself.selection hfields.1
    (unrepeated_controlMembers hself.head fun fs hfs => (hfragments fs hfs).1), ?_⟩
  rw [fieldOf_object, fieldsOf_append, hfields.2, fieldsOf_controlMembers,
    controlsOf_append_eq_ok (controlsOf_toMembers hself.selection)
      (controlsOf_controlMembers hself.head (declaresVariables_members hself)
        fun fs hfs => (hfragments fs hfs).2)]
  have hnode := foldl_set_controls node
  rw [← List.append_nil node.fields] at hnode
  exact congrArg (fun n => Except.ok (Field.node name n)) hnode

mutual

/-- **A selection is read back from its members.** -/
theorem fieldsOf_toMembers : ∀ fields : List Field, IsSelection ignored fields →
    (∀ node ∈ fieldSubnodes fields, node.IsConverted ignored) →
      (Json.object (toMembers fields)).Unrepeated
        ∧ fieldsOf ignored (toMembers fields) = .ok fields
  | [], _, _ => ⟨.object .nil nofun, rfl⟩
  | .leaf name value :: rest, hselection, hnodes => by
      obtain ⟨hfield, -, hrest⟩ := isSelection_cons.1 hselection
      obtain ⟨hvalue, hobject⟩ := hfield.leaf name value rfl
      have hleaf : fieldOf ignored name value.toJson = .ok (.leaf name value) := by
        rw [fieldOf_of_ne_object ignored (Value.toJson_ne_object hobject), Value.ofJson_toJson hvalue]
      rw [toMembers]
      exact fieldsOf_member_cons hselection ⟨Value.unrepeated_toJson hvalue, hleaf⟩
        (fieldsOf_toMembers rest hrest hnodes)
  | .node name child :: rest, hselection, hnodes => by
      obtain ⟨-, -, hrest⟩ := isSelection_cons.1 hselection
      rw [fieldSubnodes, List.forall_mem_append] at hnodes
      rw [toMembers]
      exact fieldsOf_member_cons hselection (fieldOf_toJson name child hnodes.1)
        (fieldsOf_toMembers rest hrest hnodes.2)

/-- **A field is read back from its object.** -/
theorem fieldOf_toJson (name : String) : ∀ node : Node,
    (∀ n ∈ node.subnodes, n.IsConverted ignored) →
      node.toJson.Unrepeated ∧ fieldOf ignored name node.toJson = .ok (.node name node)
  | ⟨head, fields, fragments⟩, hnodes => by
      rw [subnodes_eq, List.forall_mem_cons, descendants, List.forall_mem_append] at hnodes
      obtain ⟨hself, hfields, hfragments⟩ := hnodes
      refine fieldOf_members hself (fieldsOf_toMembers fields hself.selection hfields) ?_
      cases fragments with
      | none => nofun
      | some fragments =>
        intro _ hmem
        cases hmem
        exact fragmentsOf_toItems fragments hself.fragments hfragments

/-- **Fragments are read back from an array.** -/
theorem fragmentsOf_toItems : ∀ fragments : List Fragment,
    (∀ fragment ∈ fragments, fragment.selection.IsBare) →
    (∀ node ∈ fragmentSubnodes fragments, node.IsConverted ignored) →
      (Json.array (toItems fragments)).Unrepeated
        ∧ fragmentsOf ignored (toItems fragments) = .ok fragments
  | [], _, _ => ⟨.array nofun, rfl⟩
  | ⟨condition, ⟨head, fields, fragments⟩⟩ :: rest, hbare, hnodes => by
      obtain ⟨⟨hhead, hfragments⟩, hbares⟩ := List.forall_mem_cons.1 hbare
      obtain rfl : head = {} := hhead
      obtain rfl : fragments = none := hfragments
      rw [fragmentSubnodes, List.forall_mem_append, subnodes_eq, List.forall_mem_cons, descendants,
        List.forall_mem_append] at hnodes
      obtain ⟨⟨hself, hbelow, -⟩, hrest⟩ := hnodes
      obtain ⟨hjson, hfields⟩ := fieldsOf_text_cons hself.selection .fragmentName (.string condition)
        (fieldsOf_toMembers fields hself.selection hbelow)
      obtain ⟨hjsons, hrest⟩ := fragmentsOf_toItems rest hbares hrest
      rw [toItems, Json.unrepeated_array_iff, List.forall_mem_cons]
      refine ⟨⟨hjson, Json.unrepeated_array_iff.1 hjsons⟩, ?_⟩
      rw [fragmentsOf_cons, fragmentOf_object, typeConditionOf, Named.find?_cons_self, hfields, hrest]
      rfl

end

/-- **Which trees come from JSON**: those with a bare root and nodes as objects give them. At every
level, field names are distinct, and neither control keys nor ignored; leaves have values from JSON
that are no objects; heads have arguments and variables of distinct names, values from JSON, and no
directive beside variables; and the nodes of fragments have nothing but fields. -/
theorem exists_ofJson_iff (ignored : List String) (root : Node) :
    (∃ query : Json, query.Unrepeated ∧ ofJson ignored query = .ok root)
      ↔ root.IsBare ∧ ∀ node ∈ root.subnodes, node.IsConverted ignored := by
  refine ⟨fun ⟨query, hquery, h⟩ => isConverted_ofJson hquery h, fun ⟨hbare, hnodes⟩ => ?_⟩
  obtain ⟨head, fields, fragments⟩ := root
  obtain rfl : head = {} := hbare.head
  obtain rfl : fragments = none := hbare.fragments
  rw [subnodes_eq, List.forall_mem_cons, descendants, List.forall_mem_append] at hnodes
  -- a control key keeps the query from being empty where there are no fields
  obtain ⟨hquery, hfields⟩ := fieldsOf_text_cons hnodes.1.selection .fragmentName (.string "")
    (fieldsOf_toMembers fields hnodes.1.selection hnodes.2.1)
  refine ⟨_, hquery, ?_⟩
  rw [ofJson, hfields]
  · rfl
  · nofun

end Node

end QueryTree

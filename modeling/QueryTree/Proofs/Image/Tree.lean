import QueryTree.Proofs.Controls
import QueryTree.Proofs.Image.Value
import QueryTree.Proofs.Parts

/-!
# Proofs/Image/Tree — the trees that come from JSON

The members of an object have distinct keys, so the fields of a node have distinct names, and none
has the name of a control key or an ignored one (`IsSelection`). The other control keys give the
parts of a head one by one, each from JSON (`Control.IsConverted`). A tree that comes from a query is
made of such nodes throughout (`isConverted_ofJson`).
-/

namespace QueryTree

/-! ## Nodes as JSON gives them -/

/-- A field as a member of an object gives it: its name is neither that of a control key nor an
ignored one, and a leaf has a value from JSON, but no object. -/
structure Field.IsSelected (ignored : List String) (field : Field) : Prop where
  key : ∀ control : ControlKey, field.name ≠ control.text
  kept : field.name ∉ ignored
  leaf : ∀ name value, field = .leaf name value →
    value.IsJson ∧ ∀ fields, value ≠ .object fields

/-- A head as control keys give it: arguments and variables have distinct names, values are from
JSON, and there is no directive beside variables. -/
structure Head.IsConverted (head : Head) : Prop where
  arguments : ∀ arguments ∈ head.arguments, Value.AreJson arguments
  declared : ∀ declarations ∈ head.declared, (declarations.map (·.name)).Nodup
  exclusive : head.declared.isSome → head.directive = none
  directive : ∀ directive ∈ head.directive, ∀ arguments ∈ directive.arguments,
    Value.AreJson arguments

/-- A head with nothing in it comes from an object without control keys. -/
theorem Head.isConverted_empty : Head.IsConverted {} where
  arguments := by simp
  declared := by simp
  exclusive := by simp
  directive := by simp

namespace Node

/-- Fields as the members of an object give them. -/
structure IsSelection (ignored : List String) (fields : List Field) : Prop where
  distinct : (fields.map (·.name)).Nodup
  selected : ∀ field ∈ fields, field.IsSelected ignored

/-- A node that has nothing but fields, as the root and the nodes of fragments are. -/
structure IsBare (node : Node) : Prop where
  head : node.head = {}
  fragments : node.fragments = none

/-- A node as an object of a query gives it. -/
structure IsConverted (ignored : List String) (node : Node) : Prop where
  head : node.head.IsConverted
  selection : IsSelection ignored node.fields
  fragments : ∀ fragment ∈ node.fragments.getD [], fragment.selection.IsBare

end Node

/-- A field that is selected has a key that the conversion does not pass over. -/
theorem Field.IsSelected.selects {ignored : List String} {field : Field}
    (h : field.IsSelected ignored) : Node.selects ignored field.name = true :=
  (Node.selects_eq_true_iff ignored).2 ⟨ControlKey.ofText?_eq_none_iff.2 h.key, h.kept⟩

namespace Json

/-- An object is free of repetition if its first member is, and the others are. -/
theorem unrepeated_object_cons {key : String} {json : Json} {rest : List (Named Json)} :
    (object (⟨key, json⟩ :: rest)).Unrepeated
      ↔ key ∉ rest.map (·.name) ∧ json.Unrepeated ∧ (object rest).Unrepeated := by
  refine ⟨fun h => ?_, fun ⟨hnew, hjson, hrest⟩ => ?_⟩
  · cases h with
    | object hnodup hmembers =>
      rw [List.map_cons, List.nodup_cons] at hnodup
      rw [List.forall_mem_cons] at hmembers
      exact ⟨hnodup.1, hmembers.1, .object hnodup.2 hmembers.2⟩
  · cases hrest with
    | object hnodup hmembers =>
      refine .object ?_ (List.forall_mem_cons.2 ⟨hjson, hmembers⟩)
      rw [List.map_cons, List.nodup_cons]
      exact ⟨hnew, hnodup⟩

/-- An array repeats no key just if none of its items does. -/
theorem unrepeated_array_iff {items : List Json} :
    (array items).Unrepeated ↔ ∀ item ∈ items, item.Unrepeated := by
  refine ⟨fun h => ?_, .array⟩
  cases h with
  | array hitems => exact hitems

end Json

/-! ## Controls -/

/-- A fragment as an object gives it. -/
structure Fragment.IsConverted (ignored : List String) (fragment : Fragment) : Prop where
  bare : fragment.selection.IsBare
  nodes : ∀ node ∈ fragment.selection.subnodes, node.IsConverted ignored

/-- A control as a member gives it. There are no directives beside variables. -/
def Control.IsConverted (ignored : List String) (declares : Bool) : Control → Prop
  | .arguments as => Value.AreJson as
  | .aliasName _ | .aliasFor _ => True
  | .declared vs => (vs.map (·.name)).Nodup
  | .directive d? => declares = false ∧ ∀ d ∈ d?, ∀ as ∈ d.arguments, Value.AreJson as
  | .fragments fs => ∀ fragment ∈ fs, fragment.IsConverted ignored

namespace Node

/-- A node whose parts besides the fields have been set by controls that members give. -/
structure IsGiven (ignored : List String) (declares : Bool) (node : Node) : Prop where
  arguments : ∀ arguments ∈ node.head.arguments, Value.AreJson arguments
  declared : ∀ declarations ∈ node.head.declared, (declarations.map (·.name)).Nodup
  directive : ∀ directive ∈ node.head.directive, declares = false
    ∧ ∀ arguments ∈ directive.arguments, Value.AreJson arguments
  fragments : ∀ fragment ∈ node.fragments.getD [], fragment.IsConverted ignored

variable {ignored : List String} {name : String} {declares : Bool}

/-- **A control from JSON** keeps a node as JSON gives it. -/
theorem isGiven_set {control : Control} (hcontrol : control.IsConverted ignored declares)
    {node : Node} (h : node.IsGiven ignored declares) :
    (Control.set node control).IsGiven ignored declares := by
  cases control with
  | arguments as => exact { h with arguments := fun _ has => Option.mem_some.1 has ▸ hcontrol }
  | aliasName | aliasFor => exact { h with }
  | declared vs => exact { h with declared := fun _ hvs => Option.mem_some.1 hvs ▸ hcontrol }
  | directive d? =>
    exact { h with directive := fun d hd => ⟨hcontrol.1, hcontrol.2 d hd⟩ }
  | fragments fs => exact { h with fragments := hcontrol }

/-- …and so do all controls of an object, set one after another. -/
theorem isGiven_foldl_set {controls : List Control}
    (hcontrols : ∀ control ∈ controls, control.IsConverted ignored declares) {node : Node}
    (h : node.IsGiven ignored declares) :
    (controls.foldl Control.set node).IsGiven ignored declares := by
  induction controls generalizing node with
  | nil => exact h
  | cons control controls ih =>
    rw [List.forall_mem_cons] at hcontrols
    exact ih hcontrols.2 (isGiven_set hcontrols.1 h)

/-- A declaration has the name of its member, whatever stands for the type. -/
theorem names_declarationsOf (members : List (Named Json)) :
    (declarationsOf members).map (·.name) = members.map (·.name) := by
  rw [declarationsOf, List.map_map]
  rfl

/-- The arguments of a directive are values that come from JSON. -/
theorem areJson_of_directiveOf {mapping : List (Named Json)}
    (hmapping : (Json.object mapping).Unrepeated) {d? : Option Directive}
    (h : directiveOf name mapping = .ok d?) : ∀ directive ∈ d?,
      ∀ arguments ∈ directive.arguments, Value.AreJson arguments := by
  unfold directiveOf at h
  split at h
  · cases h
    nofun
  · cases h
    intro directive hdirective arguments harguments
    cases Option.mem_some.1 hdirective
    cases harguments
  · next members =>
    cases h
    intro directive hdirective arguments harguments
    cases Option.mem_some.1 hdirective
    cases Option.mem_some.1 harguments
    exact Value.areJson_ofMembers (Json.unrepeated_object_cons.1 hmapping).2.1
  · cases h
  · cases h

/-- What a member says of the head comes from JSON. -/
theorem isConverted_of_headOf {key : String} {json : Json} (hjson : json.Unrepeated)
    {control : Control} (h : headOf name declares key json = .ok (some control)) :
    control.IsConverted ignored declares := by
  unfold headOf at h
  split at h
  · cases h
  · unfold headControlOf at h
    split at h
    · cases h
      exact Value.areJson_ofMembers hjson
    · cases h
      trivial
    · cases h
      trivial
    · cases h
      cases hjson with
      | object hnodup hmembers => rwa [Control.IsConverted, names_declarationsOf]
    · split at h
      · cases h
      · next hdeclares =>
        obtain ⟨d?, hd?, heq⟩ := Except.map_eq_ok.1 h
        cases heq
        exact ⟨by simpa using hdeclares, areJson_of_directiveOf hjson hd?⟩
    · cases h

/-! ## Conversion -/

/-- The field of a key that is not passed over is selected: if it is a leaf, its value comes from
JSON and is no object. -/
theorem isSelected_of_fieldOf {key : String} {json : Json} (hjson : json.Unrepeated)
    (hselects : selects ignored key) {field : Field} (h : fieldOf ignored key json = .ok field) :
    field.IsSelected ignored := by
  have hname := name_of_fieldOf ignored h
  have hkept := ((selects_eq_true_iff ignored).1 hselects).2
  refine ⟨hname ▸ ne_text_of_selects hselects, hname ▸ hkept, fun name value heq => ?_⟩
  subst heq
  cases json with
  | object members =>
    rw [fieldOf_object] at h
    obtain ⟨fields, -, h⟩ := Except.bind_eq_ok.1 h
    obtain ⟨controls, -, h⟩ := Except.bind_eq_ok.1 h
    cases h
  | _ =>
    cases h
    exact ⟨Value.isJson_ofJson hjson, Value.ofJson_ne_object nofun⟩

/-- A selection is a field of its own name before a selection. -/
theorem isSelection_cons {field : Field} {fields : List Field} :
    IsSelection ignored (field :: fields)
      ↔ field.IsSelected ignored ∧ field.name ∉ fields.map (·.name) ∧ IsSelection ignored fields := by
  refine ⟨fun h => ?_, fun ⟨hfield, hnew, h⟩ =>
    ⟨List.nodup_cons.2 ⟨hnew, h.distinct⟩, List.forall_mem_cons.2 ⟨hfield, h.selected⟩⟩⟩
  obtain ⟨hnew, hdistinct⟩ := List.nodup_cons.1 h.distinct
  obtain ⟨hfield, hselected⟩ := List.forall_mem_cons.1 h.selected
  exact ⟨hfield, hnew, hdistinct, hselected⟩

/-- A selection alone is a converted node. -/
theorem IsSelection.forall_subnodes {fields : List Field} (h : IsSelection ignored fields)
    (hnodes : ∀ node ∈ fieldSubnodes fields, node.IsConverted ignored) :
    ∀ node ∈ subnodes { fields }, node.IsConverted ignored := by
  intro node hnode
  rw [subnodes_eq, List.mem_cons, descendants, List.mem_append] at hnode
  rcases hnode with rfl | hnode | hnode
  · exact ⟨Head.isConverted_empty, h, by simp⟩
  · exact hnodes node hnode
  · exact absurd hnode List.not_mem_nil

/-- Controls set on a selection make up a converted node, with converted fragments. -/
theorem isConverted_foldl_set {fields : List Field} (hfields : IsSelection ignored fields)
    {controls : List Control}
    (hcontrols : ∀ control ∈ controls, control.IsConverted ignored declares)
    (hdeclared : declares = false → ∀ control ∈ controls, control.key ≠ .declared) :
    (controls.foldl Control.set { fields }).IsConverted ignored
      ∧ ∀ fragment ∈ (controls.foldl Control.set { fields }).fragments.getD [],
        fragment.IsConverted ignored := by
  have hgiven : (controls.foldl Control.set { fields }).IsGiven ignored declares :=
    isGiven_foldl_set hcontrols ⟨nofun, nofun, nofun, nofun⟩
  have hselection : IsSelection ignored (controls.foldl Control.set { fields }).fields := by
    rwa [Control.fields_foldl_set]
  refine ⟨⟨⟨hgiven.arguments, hgiven.declared, fun hsome => ?_, fun d hd => (hgiven.directive d hd).2⟩,
    hselection, fun fragment hmem => (hgiven.fragments fragment hmem).bare⟩, hgiven.fragments⟩
  -- a directive is only read where nothing declares variables
  rw [Option.eq_none_iff_forall_not_mem]
  intro directive hdirective
  have hdeclares := (hgiven.directive directive hdirective).1
  rw [Control.declared_foldl_set (hdeclared hdeclares) { fields }] at hsome
  cases hsome

/-- The subnodes of a list of fields, those of the first one before the others. -/
theorem fieldSubnodes_cons (field : Field) (fields : List Field) :
    fieldSubnodes (field :: fields) = fieldSubnodes [field] ++ fieldSubnodes fields := by
  cases field <;> simp [fieldSubnodes]

/-- A subnode of fragments is one of the selection of one of them. -/
theorem mem_fragmentSubnodes {node : Node} : ∀ {fragments : List Fragment},
    node ∈ fragmentSubnodes fragments → ∃ fragment ∈ fragments, node ∈ fragment.selection.subnodes
  | [], h => absurd h List.not_mem_nil
  | ⟨_, _⟩ :: rest, h => by
      rw [fragmentSubnodes] at h
      rcases List.mem_append.1 h with h | h
      · exact ⟨_, List.mem_cons_self, h⟩
      · obtain ⟨fragment, hmem, hnode⟩ := mem_fragmentSubnodes h
        exact ⟨fragment, List.mem_cons_of_mem _ hmem, hnode⟩

mutual

/-- **The fields of an object are a selection**, and what is below them is converted. -/
theorem isConverted_fieldsOf : ∀ {members : List (Named Json)} {fields : List Field},
    (Json.object members).Unrepeated → fieldsOf ignored members = .ok fields →
      IsSelection ignored fields ∧ ∀ node ∈ fieldSubnodes fields, node.IsConverted ignored
  | [], fields, _, h => by
      cases h
      exact ⟨⟨.nil, nofun⟩, nofun⟩
  | ⟨key, json⟩ :: rest, fields, hmembers, h => by
      obtain ⟨hnew, hjson, hrest⟩ := Json.unrepeated_object_cons.1 hmembers
      cases hselects : selects ignored key with
      | false =>
        rw [fieldsOf_cons_of_not_selects ignored hselects] at h
        exact isConverted_fieldsOf hrest h
      | true =>
        rw [fieldsOf_cons_of_selects ignored hselects] at h
        obtain ⟨field, hfield, h⟩ := Except.bind_eq_ok.1 h
        obtain ⟨fields', hfields', h⟩ := Except.bind_eq_ok.1 h
        cases h
        obtain ⟨hselection, hnodes⟩ := isConverted_fieldsOf hrest hfields'
        have hname : field.name ∉ fields'.map (·.name) := by
          rw [name_of_fieldOf ignored hfield]
          intro hmem
          obtain ⟨field', hmem', heq⟩ := List.mem_map.1 hmem
          exact hnew (heq ▸ mem_names_of_fieldsOf ignored hfields' field' hmem')
        refine ⟨isSelection_cons.2 ⟨isSelected_of_fieldOf hjson hselects hfield, hname, hselection⟩, ?_⟩
        intro node hnode
        rw [fieldSubnodes_cons, List.mem_append] at hnode
        exact hnode.elim (isConverted_fieldOf hjson hfield node) (hnodes node)
termination_by members => (sizeOf members, 0)

/-- The node of a field is converted, from its fields and its control keys. -/
theorem isConverted_fieldOf {name : String} : ∀ {json : Json} {field : Field}, json.Unrepeated →
    fieldOf ignored name json = .ok field →
      ∀ node ∈ fieldSubnodes [field], node.IsConverted ignored
  | .object members, field, hjson, h => by
      rw [fieldOf_object] at h
      obtain ⟨fields, hfields, h⟩ := Except.bind_eq_ok.1 h
      obtain ⟨controls, hcontrols, h⟩ := Except.bind_eq_ok.1 h
      cases h
      obtain ⟨hselection, hnodes⟩ := isConverted_fieldsOf hjson hfields
      obtain ⟨hself, hfragments⟩ := isConverted_foldl_set hselection
        (isConverted_controlsOf hjson hcontrols) fun hdeclares =>
          key_ne_declared (by cases hjson; assumption) hdeclares hcontrols
      intro node hnode
      rw [fieldSubnodes, fieldSubnodes, List.append_nil, subnodes_eq, List.mem_cons, descendants,
        List.mem_append] at hnode
      rcases hnode with rfl | hnode | hnode
      · exact hself
      · rw [Control.fields_foldl_set] at hnode
        exact hnodes node hnode
      · obtain ⟨fragment, hmem, hnode⟩ := mem_fragmentSubnodes hnode
        exact (hfragments fragment hmem).nodes node hnode
  | .null, _, _, h | .bool _, _, _, h | .number _, _, _, h | .string _, _, _, h
  | .array _, _, _, h => by
      cases h
      nofun
termination_by json => (sizeOf json, 0)

/-- The control keys of an object are read to converted parts. -/
theorem isConverted_controlsOf {name : String} {declares : Bool} :
    ∀ {members : List (Named Json)} {controls : List Control}, (Json.object members).Unrepeated →
      controlsOf ignored name declares members = .ok controls →
        ∀ control ∈ controls, control.IsConverted ignored declares
  | [], controls, _, h => by
      cases h
      nofun
  | ⟨key, json⟩ :: rest, controls, hmembers, h => by
      obtain ⟨-, hjson, hrest⟩ := Json.unrepeated_object_cons.1 hmembers
      rw [controlsOf_cons] at h
      obtain ⟨control?, hcontrol, h⟩ := Except.bind_eq_ok.1 h
      obtain ⟨controls', hcontrols', h⟩ := Except.bind_eq_ok.1 h
      cases h
      intro control hmem
      rcases List.mem_append.1 hmem with hmem | hmem
      · rw [Option.mem_toList.1 hmem] at hcontrol
        exact isConverted_controlOf hjson hcontrol
      · exact isConverted_controlsOf hrest hcontrols' control hmem
termination_by members => (sizeOf members, 0)

/-- …one control key by itself, which may be that of the fragments. -/
theorem isConverted_controlOf {name : String} {declares : Bool} {key : String} :
    ∀ {json : Json} {control : Control}, json.Unrepeated →
      controlOf ignored name declares key json = .ok (some control) →
        control.IsConverted ignored declares
  | .object members, control, hjson, h => by
      by_cases hkey : ControlKey.ofText? key = some .fragments
      · rw [controlOf_object hkey] at h
        obtain ⟨fragment, hfragment, heq⟩ := Except.map_eq_ok.1 h
        cases heq
        exact List.forall_mem_singleton.2 (isConverted_fragmentOf hjson hfragment)
      · rw [controlOf_eq_headOf (absurd · hkey)] at h
        exact isConverted_of_headOf hjson h
  | .array items, control, hjson, h => by
      by_cases hkey : ControlKey.ofText? key = some .fragments
      · rw [controlOf_array hkey] at h
        obtain ⟨fragments, hfragments, heq⟩ := Except.map_eq_ok.1 h
        cases heq
        exact isConverted_fragmentsOf (Json.unrepeated_array_iff.1 hjson) hfragments
      · rw [controlOf_eq_headOf (absurd · hkey)] at h
        exact isConverted_of_headOf hjson h
  | .null, _, hjson, h | .bool _, _, hjson, h | .number _, _, hjson, h | .string _, _, hjson, h => by
      rw [controlOf_eq_headOf (by simp)] at h
      exact isConverted_of_headOf hjson h
termination_by json => (sizeOf json, 1)

/-- A fragment is a bare selection of converted fields. -/
theorem isConverted_fragmentOf : ∀ {json : Json} {fragment : Fragment}, json.Unrepeated →
    fragmentOf ignored json = .ok fragment → fragment.IsConverted ignored
  | .object members, fragment, hjson, h => by
      rw [fragmentOf_object] at h
      obtain ⟨condition, -, h⟩ := Except.bind_eq_ok.1 h
      obtain ⟨fields, hfields, h⟩ := Except.bind_eq_ok.1 h
      cases h
      obtain ⟨hselection, hnodes⟩ := isConverted_fieldsOf hjson hfields
      exact ⟨⟨rfl, rfl⟩, hselection.forall_subnodes hnodes⟩
  | .null, _, _, h | .bool _, _, _, h | .number _, _, _, h | .string _, _, _, h
  | .array _, _, _, h => by
      cases h
termination_by json => (sizeOf json, 0)

/-- The fragments of an array are converted one by one. -/
theorem isConverted_fragmentsOf : ∀ {items : List Json} {fragments : List Fragment},
    (∀ item ∈ items, item.Unrepeated) → fragmentsOf ignored items = .ok fragments →
      ∀ fragment ∈ fragments, fragment.IsConverted ignored
  | [], fragments, _, h => by
      cases h
      nofun
  | json :: rest, fragments, hitems, h => by
      rw [List.forall_mem_cons] at hitems
      rw [fragmentsOf_cons] at h
      obtain ⟨fragment, hfragment, h⟩ := Except.bind_eq_ok.1 h
      obtain ⟨fragments', hfragments', h⟩ := Except.bind_eq_ok.1 h
      cases h
      exact List.forall_mem_cons.2 ⟨isConverted_fragmentOf hitems.1 hfragment,
        isConverted_fragmentsOf hitems.2 hfragments'⟩
termination_by items => (sizeOf items, 0)

end

/-- **A tree from JSON** has a bare root, and all of its nodes are as objects give them. -/
theorem isConverted_ofJson {query : Json} (hquery : query.Unrepeated) {root : Node}
    (h : ofJson ignored query = .ok root) :
    root.IsBare ∧ ∀ node ∈ root.subnodes, node.IsConverted ignored := by
  unfold ofJson at h
  split at h
  · cases h
  · obtain ⟨fields, hfields, h⟩ := Except.bind_eq_ok.1 h
    cases h
    obtain ⟨hselection, hnodes⟩ := isConverted_fieldsOf hquery hfields
    exact ⟨⟨rfl, rfl⟩, hselection.forall_subnodes hnodes⟩
  · cases h

end Node

end QueryTree

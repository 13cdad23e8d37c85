import QueryTree.Proofs.Conversion

/-!
# Proofs/Controls — control keys and the parts they set

Each control key sets one part of a node, and different keys different parts. An object has no key
twice, so the order of its control keys does not matter: any of them may be taken to come last
(`foldl_set_append_cons`).
-/

namespace QueryTree

namespace Named

variable {α : Type}

/-- An entry that has the name of no other is found by it. -/
theorem find?_of_mem {entries : List (Named α)} {entry : Named α}
    (hnodup : (entries.map (·.name)).Nodup) (h : entry ∈ entries) :
    find? entry.name entries = some entry.value := by
  induction entries with
  | nil => exact absurd h List.not_mem_nil
  | cons first rest ih =>
    rw [List.map_cons, List.nodup_cons] at hnodup
    rcases List.mem_cons.1 h with rfl | h
    · exact find?_cons_self _ _ _
    · have hne : first.name ≠ entry.name := fun heq => hnodup.1 (heq ▸ List.mem_map_of_mem h)
      rw [find?_cons_of_ne hne, ih hnodup.2 h]

theorem find?_append (name : String) (entries rest : List (Named α)) :
    find? name (entries ++ rest) = (find? name entries).or (find? name rest) := by
  simp [find?, List.find?_append, Option.map_or]

/-- An entry of another name is passed over. -/
theorem find?_append_cons_of_ne {name key : String} (h : key ≠ name) (value : α)
    (entries rest : List (Named α)) :
    find? name (entries ++ ⟨key, value⟩ :: rest) = find? name (entries ++ rest) := by
  rw [find?_append, find?_cons_of_ne h, ← find?_append]

end Named

namespace Control

/-- The key that says what a control says. -/
def key : Control → ControlKey
  | arguments _ => .arguments
  | aliasName _ => .aliasName
  | aliasFor _ => .aliasFor
  | declared _ => .declared
  | directive _ => .directives
  | fragments _ => .fragments

/-! ## Setting parts -/

/-- Controls of different keys set different parts. -/
theorem set_comm {c c' : Control} (h : c.key ≠ c'.key) (node : Node) :
    set (set node c) c' = set (set node c') c := by
  cases c <;> cases c' <;> first | rfl | exact absurd rfl h

theorem foldl_set_set {c : Control} {controls : List Control}
    (h : ∀ c' ∈ controls, c'.key ≠ c.key) (node : Node) :
    controls.foldl set (set node c) = set (controls.foldl set node) c := by
  induction controls generalizing node with
  | nil => rfl
  | cons c' controls ih =>
    rw [List.foldl_cons, set_comm (h c' List.mem_cons_self).symm,
      ih fun d hd => h d (List.mem_cons_of_mem _ hd)]
    rfl

/-- **A control may be taken to come last** if no later one has its key. -/
theorem foldl_set_append_cons {c : Control} {controls controls' : List Control}
    (h : ∀ c' ∈ controls', c'.key ≠ c.key) (node : Node) :
    (controls ++ c :: controls').foldl set node
      = set ((controls ++ controls').foldl set node) c := by
  rw [List.foldl_append, List.foldl_cons, foldl_set_set h, List.foldl_append]

/-- Fields are put beside the controls. -/
theorem foldl_set_fields (fields : List Field) (controls : List Control) (node : Node) :
    controls.foldl set { node with fields } = { controls.foldl set node with fields } := by
  induction controls generalizing node with
  | nil => rfl
  | cons c controls ih =>
    rw [List.foldl_cons, List.foldl_cons, ← ih]
    cases c <;> rfl

/-- The fields stay as they are. -/
theorem fields_foldl_set (controls : List Control) (node : Node) :
    (controls.foldl set node).fields = node.fields := by
  induction controls generalizing node with
  | nil => rfl
  | cons c controls ih => rw [List.foldl_cons, ih, fields_set]

/-- A part stays as it is without a control of its key. -/
theorem declared_foldl_set {controls : List Control} (h : ∀ c ∈ controls, c.key ≠ .declared)
    (node : Node) : (controls.foldl set node).head.declared = node.head.declared := by
  induction controls generalizing node with
  | nil => rfl
  | cons c controls ih =>
    have hc := h c List.mem_cons_self
    rw [List.foldl_cons, ih fun d hd => h d (List.mem_cons_of_mem _ hd)]
    cases c with
    | declared vs => exact absurd rfl hc
    | _ => rfl

end Control

/-! ## Where controls come from -/

namespace Node

variable {ignored : List String} {name : String} {declares : Bool}

theorem key_of_headControlOf {control : ControlKey} {json : Json} {c : Control}
    (h : headControlOf name declares control json = .ok (some c)) :
    c.key = control ∧ (control = .declared → json.isObject) := by
  cases control with
  | directives =>
    cases json with
    | object directives =>
      rw [headControlOf] at h
      split at h
      · cases h
      · obtain ⟨directive, -, heq⟩ := Except.map_eq_ok.1 h
        cases heq
        exact ⟨rfl, nofun⟩
    | _ => cases h
  | declared =>
    cases json with
    | object declarations =>
      cases h
      exact ⟨rfl, fun _ => rfl⟩
    | _ => cases h
  | arguments | aliasName | aliasFor | fragments | fragmentName =>
    cases json <;> cases h <;> exact ⟨rfl, nofun⟩

theorem key_of_headOf {key : String} {json : Json} {c : Control}
    (h : headOf name declares key json = .ok (some c)) :
    ControlKey.ofText? key = some c.key ∧ (c.key = .declared → json.isObject) := by
  unfold headOf at h
  split at h
  · cases h
  · next control hkey =>
    obtain ⟨rfl, hobject⟩ := key_of_headControlOf h
    exact ⟨hkey, hobject⟩

/-- A control has the key of its member, and variables are declared by objects only. -/
theorem key_of_controlOf {key : String} {json : Json} {c : Control}
    (h : controlOf ignored name declares key json = .ok (some c)) :
    ControlKey.ofText? key = some c.key ∧ (c.key = .declared → json.isObject) := by
  by_cases hkey : ControlKey.ofText? key = some .fragments
  · cases json with
    | object members =>
      rw [controlOf_object hkey] at h
      obtain ⟨fragment, -, heq⟩ := Except.map_eq_ok.1 h
      cases heq
      exact ⟨hkey, by simp [Control.key]⟩
    | array items =>
      rw [controlOf_array hkey] at h
      obtain ⟨fragments, -, heq⟩ := Except.map_eq_ok.1 h
      cases heq
      exact ⟨hkey, by simp [Control.key]⟩
    | _ =>
      rw [controlOf_eq_headOf (by simp)] at h
      exact key_of_headOf h
  · rw [controlOf_eq_headOf (absurd · hkey)] at h
    exact key_of_headOf h

/-- **Every control comes from a member.** -/
theorem exists_member_of_mem_controlsOf : ∀ {members : List (Named Json)} {controls : List Control},
    controlsOf ignored name declares members = .ok controls → ∀ c ∈ controls,
      ∃ member ∈ members, ControlKey.ofText? member.name = some c.key
        ∧ (c.key = .declared → member.value.isObject)
  | [], controls, h => by
      cases h
      simp
  | ⟨key, json⟩ :: rest, controls, h => by
      rw [controlsOf_cons] at h
      obtain ⟨control, hcontrol, h⟩ := Except.bind_eq_ok.1 h
      obtain ⟨controls', hcontrols', h⟩ := Except.bind_eq_ok.1 h
      cases h
      intro c hc
      rcases List.mem_append.1 hc with hc | hc
      · rw [Option.mem_toList.1 hc] at hcontrol
        exact ⟨_, List.mem_cons_self, key_of_controlOf hcontrol⟩
      · obtain ⟨member, hmem, h⟩ := exists_member_of_mem_controlsOf hcontrols' c hc
        exact ⟨member, List.mem_cons_of_mem _ hmem, h⟩

/-- A control whose key does not come again may be taken to come last. -/
theorem foldl_set_of_controlOf {control : ControlKey} {json : Json} {c : Control}
    {after : List (Named Json)} {controls' : List Control}
    (hafter : control.text ∉ after.map (·.name))
    (hcontrols' : controlsOf ignored name declares after = .ok controls')
    (hc : controlOf ignored name declares control.text json = .ok (some c))
    (controls : List Control) (node : Node) :
    (controls ++ c :: controls').foldl Control.set node
      = Control.set ((controls ++ controls').foldl Control.set node) c := by
  refine Control.foldl_set_append_cons (fun c' hc' heq => hafter ?_) node
  obtain ⟨member, hmem, hmember, -⟩ := exists_member_of_mem_controlsOf hcontrols' c' hc'
  have hkey := (key_of_controlOf hc).1
  rw [heq, ← hkey, ControlKey.ofText?_text] at hmember
  exact ControlKey.text_of_ofText? hmember ▸ List.mem_map_of_mem hmem

/-- No control declares variables where no object does. -/
theorem key_ne_declared {members : List (Named Json)} {controls : List Control}
    (hnodup : (members.map (·.name)).Nodup) (hdeclares : declaresVariables members = false)
    (h : controlsOf ignored name declares members = .ok controls) :
    ∀ c ∈ controls, c.key ≠ .declared := by
  intro c hc heq
  obtain ⟨member, hmem, hkey, hobject⟩ := exists_member_of_mem_controlsOf h c hc
  have hname : member.name = ControlKey.declared.text :=
    (ControlKey.text_of_ofText? (heq ▸ hkey)).symm
  have hfind := Named.find?_of_mem hnodup hmem
  rw [hname] at hfind
  rw [declaresVariables, hfind, Option.any_some, hobject heq] at hdeclares
  cases hdeclares

end Node

end QueryTree

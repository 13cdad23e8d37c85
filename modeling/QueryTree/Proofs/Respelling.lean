import Mathlib.Data.List.Nodup
import Mathlib.Logic.Relation
import QueryTree.Compile
import QueryTree.Proofs.Frames

/-!
# Proofs/Respelling — many spellings of one query

What a JSON object says beside its fields it says by control keys, wherever these stand among its
members, and a single fragment may stand in an array or by itself. To write an object of the query
differently in this way is to respell it (`Respelled`); however often that is done, and wherever,
the query is converted to the same tree or not at all (`ofJson_eq_ok_iff_of_respelled`).
-/

namespace QueryTree

/-! ## Conversions that agree -/

namespace Except

variable {ε α β : Type} {x y z : Except ε α}

/-- The two succeed with the same results. They may fail differently. -/
def Agree (x y : Except ε α) : Prop :=
  ∀ a, x = .ok a ↔ y = .ok a

namespace Agree

theorem refl (x : Except ε α) : Agree x x := fun _ => .rfl

theorem symm (h : Agree x y) : Agree y x := fun a => (h a).symm

theorem trans (h : Agree x y) (h' : Agree y z) : Agree x z := fun a => (h a).trans (h' a)

/-- **What follows agreeing steps agrees** if it does for each result of theirs. -/
theorem bind (h : Agree x y) {f g : α → Except ε β} (hf : ∀ a, Agree (f a) (g a)) :
    Agree (x >>= f) (y >>= g) := by
  intro b
  rw [bind_eq_ok, bind_eq_ok]
  exact exists_congr fun a => and_congr (h a) (hf a b)

theorem map (h : Agree x y) (f : α → β) : Agree (x.map f) (y.map f) := by
  intro b
  rw [map_eq_ok, map_eq_ok]
  exact exists_congr fun a => and_congr_left fun _ => h a

end Agree

end Except

/-! ## Spellings -/

/-- What an object of a query is converted to: a selection alone, as the root and fragments are, or
a field. -/
inductive Role where
  | selection
  | field

/-- One object of a query, somewhere in an object of that role, is spelled differently. -/
inductive Respelled (ignored : List String) : Role → List (Named Json) → List (Named Json) → Prop
  /-- Control keys, and any others that select nothing, stand elsewhere among the members. -/
  | moved {role : Role} {members members' : List (Named Json)}
      (hnodup : (members.map (·.name)).Nodup) (hperm : members.Perm members')
      (hselected : members.filter (fun member => Node.selects ignored member.name)
        = members'.filter fun member => Node.selects ignored member.name) :
      Respelled ignored role members members'
  /-- A single fragment stands in an array. -/
  | wrapped (before after fragment : List (Named Json)) :
      Respelled ignored .field
        (before ++ ⟨ControlKey.fragments.text, .object fragment⟩ :: after)
        (before ++ ⟨ControlKey.fragments.text, .array [.object fragment]⟩ :: after)
  | inField {role : Role} (before after : List (Named Json)) {key : String}
      {members members' : List (Named Json)} (hselects : Node.selects ignored key)
      (h : Respelled ignored .field members members') :
      Respelled ignored role (before ++ ⟨key, .object members⟩ :: after)
        (before ++ ⟨key, .object members'⟩ :: after)
  | inFragment (before after : List (Named Json)) {members members' : List (Named Json)}
      (h : Respelled ignored .selection members members') :
      Respelled ignored .field (before ++ ⟨ControlKey.fragments.text, .object members⟩ :: after)
        (before ++ ⟨ControlKey.fragments.text, .object members'⟩ :: after)
  | inFragments (before after : List (Named Json)) (above below : List Json)
      {members members' : List (Named Json)} (h : Respelled ignored .selection members members') :
      Respelled ignored .field
        (before ++ ⟨ControlKey.fragments.text, .array (above ++ .object members :: below)⟩ :: after)
        (before ++ ⟨ControlKey.fragments.text, .array (above ++ .object members' :: below)⟩
          :: after)

/-! ## Members in another order -/

/-- Entries with distinct names are found in any order. -/
theorem Named.find?_perm {α : Type} {entries entries' : List (Named α)}
    (hnodup : (entries.map (·.name)).Nodup) (hperm : entries.Perm entries') (name : String) :
    find? name entries = find? name entries' := by
  by_cases hname : ∃ entry ∈ entries, entry.name = name
  · obtain ⟨entry, hmem, rfl⟩ := hname
    have hnodup' := (hperm.map (·.name)).nodup_iff.1 hnodup
    rw [find?_of_mem hnodup hmem, find?_of_mem hnodup' (hperm.mem_iff.1 hmem)]
  · have hnone : entries.find? (·.name = name) = none := by simpa using hname
    have hnone' : entries'.find? (·.name = name) = none := by
      simpa [hperm.mem_iff] using hname
    rw [find?, find?, hnone, hnone']

/-- **Controls with distinct keys are set in any order**: each has its own part of the node. -/
theorem Control.foldl_set_perm {controls controls' : List Control}
    (hnodup : (controls.map key).Nodup) (hperm : controls.Perm controls') (node : Node) :
    controls.foldl set node = controls'.foldl set node := by
  refine hperm.foldl_eq' (fun c hc c' hc' node => ?_) node
  by_cases hkey : c.key = c'.key
  · rw [List.inj_on_of_nodup_map hnodup hc hc' hkey]
  · exact set_comm hkey node

namespace Node

variable {ignored : List String} {name : String} {declares : Bool}

/-- Only selected members make fields. -/
theorem fieldsOf_filter (members : List (Named Json)) :
    fieldsOf ignored (members.filter fun member => selects ignored member.name)
      = fieldsOf ignored members := by
  induction members with
  | nil => rfl
  | cons member rest ih =>
    cases hselects : selects ignored member.name with
    | true =>
      rw [List.filter_cons, if_pos hselects, fieldsOf_cons_of_selects ignored hselects,
        fieldsOf_cons_of_selects ignored hselects, ih]
    | false =>
      rw [List.filter_cons, if_neg (by simp [hselects]), ih,
        fieldsOf_cons_of_not_selects ignored hselects]

/-- No two controls of an object have the same key. -/
theorem nodup_keys_controlsOf : ∀ {members : List (Named Json)} {controls : List Control},
    (members.map (·.name)).Nodup → controlsOf ignored name declares members = .ok controls →
      (controls.map Control.key).Nodup
  | [], _, _, h => by
      cases h
      exact List.nodup_nil
  | ⟨key, json⟩ :: rest, controls, hnodup, h => by
      rw [List.map_cons, List.nodup_cons] at hnodup
      rw [controlsOf_cons] at h
      obtain ⟨control, hcontrol, h⟩ := Except.bind_eq_ok.1 h
      obtain ⟨controls', hcontrols', h⟩ := Except.bind_eq_ok.1 h
      cases h
      have hrest := nodup_keys_controlsOf hnodup.2 hcontrols'
      cases control with
      | none => exact hrest
      | some c =>
        refine List.nodup_cons.2 ⟨fun hmem => ?_, hrest⟩
        obtain ⟨c', hc', heq⟩ := List.mem_map.1 hmem
        obtain ⟨member, hmember, hkey, -⟩ := exists_member_of_mem_controlsOf hcontrols' c' hc'
        have hname : member.name = key := by
          rw [← ControlKey.text_of_ofText? hkey, heq,
            ControlKey.text_of_ofText? (key_of_controlOf hcontrol).1]
        exact hnodup.1 (List.mem_map.2 ⟨member, hmember, hname⟩)

/-- Members in another order give the same controls in another order. -/
theorem exists_perm_controlsOf {members members' : List (Named Json)}
    (hperm : members.Perm members') : ∀ {controls : List Control},
      controlsOf ignored name declares members = .ok controls →
        ∃ controls', controlsOf ignored name declares members' = .ok controls'
          ∧ controls.Perm controls' := by
  induction hperm with
  | nil => exact fun h => ⟨_, h, .rfl⟩
  | cons member _ ih =>
    intro controls h
    rw [controlsOf_cons] at h
    obtain ⟨control, hcontrol, h⟩ := Except.bind_eq_ok.1 h
    obtain ⟨rest, hrest, h⟩ := Except.bind_eq_ok.1 h
    cases h
    obtain ⟨rest', hrest', hperm⟩ := ih hrest
    refine ⟨control.toList ++ rest', ?_, hperm.append_left _⟩
    rw [controlsOf_cons, hcontrol, hrest']
    rfl
  | swap member member' _ =>
    intro controls h
    rw [controlsOf_cons, controlsOf_cons] at h
    obtain ⟨control, hcontrol, h⟩ := Except.bind_eq_ok.1 h
    obtain ⟨_, hcontrols, h⟩ := Except.bind_eq_ok.1 h
    obtain ⟨control', hcontrol', hcontrols⟩ := Except.bind_eq_ok.1 hcontrols
    obtain ⟨rest, hrest, hcontrols⟩ := Except.bind_eq_ok.1 hcontrols
    cases h
    cases hcontrols
    refine ⟨control'.toList ++ (control.toList ++ rest), ?_, List.perm_append_comm_assoc _ _ _⟩
    rw [controlsOf_cons, controlsOf_cons, hcontrol, hcontrol', hrest]
    rfl
  | trans _ _ ih ih' =>
    intro controls h
    obtain ⟨controls', h', hperm⟩ := ih h
    obtain ⟨controls'', h'', hperm'⟩ := ih' h'
    exact ⟨controls'', h'', hperm.trans hperm'⟩

/-! ## One member or item in another spelling -/

section

variable {before after : List (Named Json)} {key : String} {json json' : Json}

/-- A selected member may be exchanged for one that agrees with it, among the fields… -/
theorem agree_fieldsOf_open (hselects : selects ignored key)
    (h : Except.Agree (fieldOf ignored key json) (fieldOf ignored key json')) :
    Except.Agree (fieldsOf ignored (before ++ ⟨key, json⟩ :: after))
      (fieldsOf ignored (before ++ ⟨key, json'⟩ :: after)) := by
  rw [fieldsOf_append, fieldsOf_append, fieldsOf_cons_of_selects ignored hselects,
    fieldsOf_cons_of_selects ignored hselects]
  exact (Except.Agree.refl _).bind fun _ => (h.bind fun _ => .refl _).bind fun _ => .refl _

/-- …among the control keys… -/
theorem agree_controlsOf_open
    (h : Except.Agree (controlOf ignored name declares key json)
      (controlOf ignored name declares key json')) :
    Except.Agree (controlsOf ignored name declares (before ++ ⟨key, json⟩ :: after))
      (controlsOf ignored name declares (before ++ ⟨key, json'⟩ :: after)) := by
  rw [controlsOf_append, controlsOf_append, controlsOf_cons, controlsOf_cons]
  exact (Except.Agree.refl _).bind fun _ => (h.bind fun _ => .refl _).bind fun _ => .refl _

/-- …and an item among fragments. -/
theorem agree_fragmentsOf_open {above below : List Json}
    (h : Except.Agree (fragmentOf ignored json) (fragmentOf ignored json')) :
    Except.Agree (fragmentsOf ignored (above ++ json :: below))
      (fragmentsOf ignored (above ++ json' :: below)) := by
  rw [fragmentsOf_append, fragmentsOf_append, fragmentsOf_cons, fragmentsOf_cons]
  exact (Except.Agree.refl _).bind fun _ => (h.bind fun _ => .refl _).bind fun _ => .refl _

end

/-- An array of one fragment says what the fragment says by itself. -/
theorem controlOf_singleton (members : List (Named Json)) :
    controlOf ignored name declares ControlKey.fragments.text (.array [.object members])
      = controlOf ignored name declares ControlKey.fragments.text (.object members) := by
  have hkey := ControlKey.ofText?_text .fragments
  rw [controlOf_array hkey, controlOf_object hkey, fragmentsOf_cons]
  cases fragmentOf ignored (.object members) <;> rfl

/-! ## Objects that are converted alike -/

/-- Two objects that are converted to the same, whatever the conversion of their role reads of
them. -/
structure Alike (ignored : List String) (role : Role) (members members' : List (Named Json)) :
    Prop where
  fields : Except.Agree (fieldsOf ignored members) (fieldsOf ignored members')
  condition : typeConditionOf members = typeConditionOf members'
  declares : declaresVariables members = declaresVariables members'
  controls : role = .field → ∀ name declares node, Except.Agree
    ((controlsOf ignored name declares members).map (·.foldl Control.set node))
    ((controlsOf ignored name declares members').map (·.foldl Control.set node))

namespace Alike

variable {role : Role} {members members' before after : List (Named Json)}

/-- Objects that are alike give agreeing nodes of a field… -/
theorem fieldOf (h : Alike ignored .field members members') (name : String) :
    Except.Agree (fieldOf ignored name (.object members))
      (fieldOf ignored name (.object members')) := by
  have hfold : ∀ members : List (Named Json), Node.fieldOf ignored name (.object members) = (do
      let fields ← fieldsOf ignored members
      let node ← (controlsOf ignored name (declaresVariables members) members).map
        (·.foldl Control.set { fields })
      return .node name node) := fun members => by
    rw [fieldOf_object]
    cases fieldsOf ignored members with
    | error fault => rfl
    | ok fields => cases controlsOf ignored name (declaresVariables members) members <;> rfl
  rw [hfold, hfold, h.declares]
  exact h.fields.bind fun fields => (h.controls rfl _ _ _).bind fun _ => .refl _

/-- …and agreeing fragments. -/
theorem fragmentOf (h : Alike ignored .selection members members') :
    Except.Agree (fragmentOf ignored (.object members))
      (fragmentOf ignored (.object members')) := by
  rw [fragmentOf_object, fragmentOf_object, h.condition]
  exact (Except.Agree.refl _).bind fun _ => h.fields.bind fun _ => .refl _

/-- Objects with the same members in another order. -/
theorem moved (hnodup : (members.map (·.name)).Nodup) (hperm : members.Perm members')
    (hselected : members.filter (fun member => selects ignored member.name)
      = members'.filter fun member => selects ignored member.name) :
    Alike ignored role members members' := by
  have hfind := Named.find?_perm hnodup hperm
  have hnodup' : (members'.map (·.name)).Nodup := (hperm.map (·.name)).nodup_iff.1 hnodup
  have hto : ∀ {members members' : List (Named Json)}, (members.map (·.name)).Nodup →
      members.Perm members' → ∀ name declares node node',
      (controlsOf ignored name declares members).map (·.foldl Control.set node) = .ok node' →
      (controlsOf ignored name declares members').map (·.foldl Control.set node) = .ok node' := by
    intro members members' hnodup hperm name declares node node' h
    obtain ⟨controls, hcontrols, rfl⟩ := Except.map_eq_ok.1 h
    obtain ⟨controls', hcontrols', hperm⟩ := exists_perm_controlsOf hperm hcontrols
    refine Except.map_eq_ok.2 ⟨controls', hcontrols', ?_⟩
    exact (Control.foldl_set_perm (nodup_keys_controlsOf hnodup hcontrols) hperm node).symm
  refine ⟨?_, ?_, ?_, fun _ name declares node node' => ⟨?_, ?_⟩⟩
  · rw [← fieldsOf_filter members, hselected, fieldsOf_filter]
    exact .refl _
  · rw [typeConditionOf, typeConditionOf, hfind]
  · rw [declaresVariables, declaresVariables, hfind]
  · exact hto hnodup hperm name declares node node'
  · exact hto hnodup' hperm.symm name declares node node'

/-- A field that is converted alike. -/
theorem inField {key : String} (hselects : selects ignored key)
    (h : Alike ignored .field members members') :
    Alike ignored role (before ++ ⟨key, .object members⟩ :: after)
      (before ++ ⟨key, .object members'⟩ :: after) where
  fields := agree_fieldsOf_open hselects (h.fieldOf key)
  condition := by
    have hkey := ne_text_of_selects hselects .fragmentName
    rw [typeConditionOf_open hkey, typeConditionOf_open hkey]
  declares := by
    have hkey := ne_text_of_selects hselects .declared
    rw [declaresVariables_open hkey, declaresVariables_open hkey]
  controls _ name declares node := by
    have hkey := ((selects_eq_true_iff ignored).1 hselects).1
    refine (agree_controlsOf_open ?_).map _
    rw [controlOf_of_no_key hkey, controlOf_of_no_key hkey]
    exact .refl _

/-- Fragments that are converted alike. -/
theorem inFragments {json json' : Json}
    (h : ∀ name declares, Except.Agree
      (controlOf ignored name declares ControlKey.fragments.text json)
      (controlOf ignored name declares ControlKey.fragments.text json')) :
    Alike ignored role (before ++ ⟨ControlKey.fragments.text, json⟩ :: after)
      (before ++ ⟨ControlKey.fragments.text, json'⟩ :: after) where
  fields := by
    have hselects := selects_text ignored .fragments
    rw [fieldsOf_open_of_not_selects hselects, fieldsOf_open_of_not_selects hselects]
    exact .refl _
  condition := by
    have hkey : ControlKey.fragments.text ≠ ControlKey.fragmentName.text := by decide
    rw [typeConditionOf_open hkey, typeConditionOf_open hkey]
  declares := by
    have hkey : ControlKey.fragments.text ≠ ControlKey.declared.text := by decide
    rw [declaresVariables_open hkey, declaresVariables_open hkey]
  controls _ name declares _ := (agree_controlsOf_open (h name declares)).map _

end Alike

/-- **An object in another spelling is converted alike.** -/
theorem alike_of_respelled : ∀ {role : Role} {members members' : List (Named Json)},
    Respelled ignored role members members' → Alike ignored role members members'
  | _, _, _, .moved hnodup hperm hselected => .moved hnodup hperm hselected
  | _, _, _, .wrapped _ _ fragment => .inFragments fun name declares => by
      rw [controlOf_singleton fragment]
      exact .refl _
  | _, _, _, .inField _ _ hselects h => .inField hselects (alike_of_respelled h)
  | _, _, _, .inFragment _ _ h => .inFragments fun name declares => by
      have hkey := ControlKey.ofText?_text .fragments
      rw [controlOf_object hkey, controlOf_object hkey]
      exact (alike_of_respelled h).fragmentOf.map _
  | _, _, _, .inFragments _ _ _ _ h => .inFragments fun name declares => by
      have hkey := ControlKey.ofText?_text .fragments
      rw [controlOf_array hkey, controlOf_array hkey]
      exact (agree_fragmentsOf_open (alike_of_respelled h).fragmentOf).map _

/-! ## Queries -/

theorem eq_nil_iff_of_respelled {role : Role} {members members' : List (Named Json)}
    (h : Respelled ignored role members members') : members = [] ↔ members' = [] := by
  cases h with
  | moved _ hperm _ => rw [← List.length_eq_zero_iff, hperm.length_eq, List.length_eq_zero_iff]
  | _ => simp

/-- One respelling of a query does not change the tree it is converted to. -/
theorem agree_ofJson {members members' : List (Named Json)}
    (h : Respelled ignored .selection members members') :
    Except.Agree (ofJson ignored (.object members)) (ofJson ignored (.object members')) := by
  by_cases hnil : members = []
  · rw [hnil, (eq_nil_iff_of_respelled h).1 hnil]
    exact .refl _
  · rw [ofJson_of_ne_nil _ hnil, ofJson_of_ne_nil _ (hnil ∘ (eq_nil_iff_of_respelled h).2)]
    exact (alike_of_respelled h).fields.map _

/-- **The spelling of a query does not matter.** However its objects are respelled, it is converted
to the same tree, and compiled to the same text, or neither is. -/
theorem ofJson_eq_ok_iff_of_respelled {options : Options} {members members' : List (Named Json)}
    (h : Relation.EqvGen (Respelled options.ignored .selection) members members') :
    (∀ root, ofJson options.ignored (.object members) = .ok root
        ↔ ofJson options.ignored (.object members') = .ok root)
      ∧ ∀ text, compileJson (.object members) options = .ok text
        ↔ compileJson (.object members') options = .ok text := by
  have hroot : Except.Agree (ofJson options.ignored (.object members))
      (ofJson options.ignored (.object members')) := by
    induction h with
    | rel _ _ hrespelled => exact agree_ofJson hrespelled
    | refl _ => exact .refl _
    | symm _ _ _ ih => exact ih.symm
    | trans _ _ _ _ _ ih ih' => exact ih.trans ih'
  exact ⟨hroot, hroot.bind fun _ => .refl _⟩

/-- A query with its control keys in front and a fragment by itself. -/
def frontedQuery : List (Named Json) :=
  [⟨"query", .object
    [⟨"__variables", .object [⟨"id", .string "ID"⟩]⟩,
      ⟨"user", .object
        [⟨"__on", .object [⟨"__fragmentName", .string "Admin"⟩, ⟨"name", .bool true⟩]⟩,
          ⟨"id", .bool true⟩,
          ⟨"__args", .object [⟨"of", .string "me"⟩]⟩]⟩]⟩]

/-- The same query with its control keys behind and fragments in an array. -/
def trailingQuery : List (Named Json) :=
  [⟨"query", .object
    [⟨"user", .object
        [⟨"__args", .object [⟨"of", .string "me"⟩]⟩,
          ⟨"id", .bool true⟩,
          ⟨"__on", .array [.object [⟨"name", .bool true⟩, ⟨"__fragmentName", .string "Admin"⟩]]⟩]⟩,
      ⟨"__variables", .object [⟨"id", .string "ID"⟩]⟩]⟩]

/-- The tree of both. -/
def adminTree : Node :=
  { fields := [.node "query"
      { head := { declared := some [⟨"id", "ID"⟩] }
        fields := [.node "user"
          { head := { arguments := some [⟨"of", .string "me"⟩] }
            fields := [.leaf "id" (.bool true)]
            fragments := some [⟨"Admin", { fields := [.leaf "name" (.bool true)] }⟩] }] }] }

theorem ofJson_eq_ok_iff_of_respelled_frontedQuery :
    Relation.EqvGen (Respelled [] .selection) frontedQuery trailingQuery
      ∧ ofJson [] (.object trailingQuery) = .ok adminTree
      ∧ compileJson (.object trailingQuery) {} = .ok (adminTree.text {}) := by
  have h : Relation.EqvGen (Respelled [] .selection) frontedQuery trailingQuery := by
    refine .trans _ _ _ (.rel _ _ (.inField [] [] rfl (.moved (by decide) (.swap _ _ _) rfl))) ?_
    refine .trans _ _ _ (.rel _ _ (.inField [] [] rfl (.inField [] _ rfl
      (.moved (by decide) (List.reverse_perm _).symm rfl)))) ?_
    refine .trans _ _ _ (.rel _ _ (.inField [] [] rfl (.inField [] _ rfl
      (.wrapped [_, _] [] _)))) ?_
    exact .rel _ _ (.inField [] [] rfl (.inField [] _ rfl
      (.inFragments [_, _] [] [] [] (.moved (by decide) (.swap _ _ _) rfl))))
  obtain ⟨htree, htext⟩ := @ofJson_eq_ok_iff_of_respelled {} _ _ h
  exact ⟨h, (htree _).1 rfl, (htext _).1 rfl⟩

end Node

end QueryTree

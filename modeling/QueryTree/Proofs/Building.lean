import QueryTree.Compile
import QueryTree.Node.Edit

/-!
# Proofs/Building — edits of different slots do not meet

An edit changes one slot of a node and looks at no other (`content_apply_of_ne`,
`content_apply_congr`). So what a slot holds after a list of edits is what its own edits alone make
of it (`content_build`), and edits of different slots may change places (`build_eq_of_filter_eq`).
-/

namespace QueryTree

/-! ## Slots -/

/-- What a slot holds. -/
def Slot.Content : Slot → Type
  | .fields => List Field
  | .arguments => Option Arguments
  | .aliasName | .aliasFor => Option String
  | .declared => Option Variables
  | .directive => Option Directive
  | .fragments => Option (List Fragment)

namespace Node

variable {node node' : Node} {edit : Edit} {slot : Slot}

/-- What a node holds in a slot. -/
def content (node : Node) : (slot : Slot) → slot.Content
  | .fields => node.fields
  | .arguments => node.head.arguments
  | .aliasName => node.head.aliasName
  | .aliasFor => node.head.aliasFor
  | .declared => node.head.declared
  | .directive => node.head.directive
  | .fragments => node.fragments

/-- A node is what it holds in its slots. -/
theorem ext_content (h : ∀ slot, node.content slot = node'.content slot) : node = node' := by
  obtain ⟨⟨arguments, aliasName, aliasFor, declared, directive⟩, fields, fragments⟩ := node
  obtain ⟨⟨arguments', aliasName', aliasFor', declared', directive'⟩, fields', fragments'⟩ := node'
  obtain rfl : arguments = arguments' := h .arguments
  obtain rfl : aliasName = aliasName' := h .aliasName
  obtain rfl : aliasFor = aliasFor' := h .aliasFor
  obtain rfl : declared = declared' := h .declared
  obtain rfl : directive = directive' := h .directive
  obtain rfl : fields = fields' := h .fields
  obtain rfl : fragments = fragments' := h .fragments
  rfl

/-- **An edit leaves the other slots as they are.** -/
theorem content_apply_of_ne (h : edit.slot ≠ slot) :
    (Edit.apply node edit).content slot = node.content slot := by
  cases edit <;> cases slot <;> first | rfl | exact absurd rfl h

/-- **An edit looks at its own slot alone.** -/
theorem content_apply_congr (h : node.content edit.slot = node'.content edit.slot) :
    (Edit.apply node edit).content edit.slot = (Edit.apply node' edit).content edit.slot := by
  cases edit with
  | field new => exact congrArg (fun fields : List Field => fields ++ [new]) h
  | select name =>
    exact congrArg (fun fields : List Field => fields ++ [.leaf name (.bool true)]) h
  | argument new => exact congrArg (fun arguments => Edit.extend arguments new) h
  | declare new => exact congrArg (fun declared => Edit.extend declared new) h
  | fragment new => exact congrArg (fun fragments => Edit.extend fragments new) h
  | arguments all => rfl
  | aliasName name => rfl
  | aliasFor name => rfl
  | directive new => rfl

/-- What a slot holds after edits depends on its own edits alone. -/
theorem content_foldl (edits : List Edit) (h : node.content slot = node'.content slot) :
    (edits.foldl Edit.apply node).content slot
      = ((edits.filter (·.slot = slot)).foldl Edit.apply node').content slot := by
  induction edits generalizing node node' with
  | nil => exact h
  | cons edit edits ih =>
    by_cases hslot : edit.slot = slot
    · subst hslot
      rw [List.filter_cons_of_pos (by simp)]
      exact ih (content_apply_congr h)
    · rw [List.filter_cons_of_neg (by simpa using hslot)]
      exact ih ((content_apply_of_ne hslot).trans h)

theorem content_build (edits : List Edit) (slot : Slot) :
    (build edits).content slot = (build (edits.filter (·.slot = slot))).content slot :=
  content_foldl edits rfl

/-- **Edits of different slots may change places.** -/
theorem build_eq_of_filter_eq {edits edits' : List Edit}
    (h : ∀ slot, edits.filter (·.slot = slot) = edits'.filter (·.slot = slot)) :
    build edits = build edits' := by
  refine ext_content fun slot => ?_
  rw [content_build edits, content_build edits', h slot]

end Node

/-! ## What each slot holds -/

namespace Edit

/-- The field that an edit adds. -/
def field? : Edit → Option Field
  | field new => some new
  | select name => some (.leaf name (.bool true))
  | _ => none

/-- The argument that an edit adds. -/
def argument? : Edit → Option (Named Value)
  | argument new => some new
  | _ => none

/-- The alias that an edit sets. -/
def aliasName? : Edit → Option String
  | aliasName name => some name
  | _ => none

/-- The field that an edit makes the name an alias for. -/
def aliasFor? : Edit → Option String
  | aliasFor name => some name
  | _ => none

/-- The variable that an edit declares. -/
def declare? : Edit → Option (Named String)
  | declare new => some new
  | _ => none

/-- The directive that an edit sets. -/
def directive? : Edit → Option Directive
  | directive new => some new
  | _ => none

/-- The fragment that an edit adds. -/
def fragment? : Edit → Option Fragment
  | fragment new => some new
  | _ => none

/-- A list with more at its end. No list counts as an empty one, and nothing more leaves it so. -/
def appended {α : Type} : Option (List α) → List α → Option (List α)
  | list, [] => list
  | list, more => some (list.getD [] ++ more)

theorem appended_extend {α : Type} (list : Option (List α)) (x : α) (more : List α) :
    appended (extend list x) more = appended list (x :: more) := by
  cases more with
  | nil => rfl
  | cons y more => simp [appended, extend]

theorem appended_some {α : Type} (list more : List α) :
    appended (some list) more = some (list ++ more) := by
  cases more with
  | nil => rw [List.append_nil]; rfl
  | cons x more => rfl

section

variable {α : Type}

/-- A list that edits only add to holds what they added, in order. -/
theorem foldl_add (get : Node → List α) (call : Edit → Option α)
    (h : ∀ node edit, get (apply node edit) = get node ++ (call edit).toList) (edits : List Edit)
    (node : Node) : get (edits.foldl apply node) = get node ++ edits.filterMap call := by
  induction edits generalizing node with
  | nil => exact (List.append_nil _).symm
  | cons edit edits ih =>
    rw [List.foldl_cons, ih, h, List.append_assoc, List.filterMap_cons]
    cases call edit <;> rfl

/-- The same of a list that is not there before the first is added. -/
theorem foldl_extend (get : Node → Option (List α)) (call : Edit → Option α) (edits : List Edit)
    (h : ∀ edit ∈ edits, ∀ node, get (apply node edit)
      = appended (get node) (call edit).toList) (node : Node) :
    get (edits.foldl apply node) = appended (get node) (edits.filterMap call) := by
  induction edits generalizing node with
  | nil => rfl
  | cons edit edits ih =>
    have ih := ih fun edit' hedit' => h edit' (List.mem_cons_of_mem _ hedit')
    rw [List.foldl_cons, ih, h edit List.mem_cons_self, List.filterMap_cons]
    cases call edit with
    | none => rfl
    | some x => exact appended_extend _ _ _

/-- What edits only set is what the last of them set it to. -/
theorem foldl_set (get : Node → Option α) (call : Edit → Option α)
    (h : ∀ node edit, get (apply node edit) = (call edit).or (get node)) (edits : List Edit)
    (node : Node) :
    get (edits.foldl apply node) = (edits.filterMap call).getLast?.or (get node) := by
  induction edits generalizing node with
  | nil => rfl
  | cons edit edits ih =>
    rw [List.foldl_cons, ih, h, List.filterMap_cons]
    cases hcall : call edit with
    | none => rfl
    | some x =>
      cases hlast : (edits.filterMap call).getLast? <;> simp [List.getLast?_cons, hlast]

/-- A part that is not there before the first edit of its slot is what the last one sets it to. -/
theorem build_set (get : Node → Option α) (call : Edit → Option α)
    (h : ∀ node edit, get (apply node edit) = (call edit).or (get node)) (hnone : get {} = none)
    (edits : List Edit) : get (Node.build edits) = (edits.filterMap call).getLast? := by
  rw [Node.build, foldl_set get call h, hnone, Option.or_none]

end

/-- No edit leaves the node empty. -/
theorem isEmpty_apply (node : Node) (edit : Edit) : (apply node edit).isEmpty = false := by
  cases edit <;> simp [apply, extend, Node.isEmpty, Head.isEmpty]

end Edit

namespace Node

open Edit (appended)

/-- What a list of edits makes of the empty node, slot by slot. -/
structure Built (edits : List Edit) (node : Node) : Prop where
  fields : node.fields = edits.filterMap Edit.field?
  /-- All of the arguments and those added behind them, if no later edit replaces them. -/
  replaced : ∀ before all after, edits = before ++ .arguments all :: after →
    (∀ later, Edit.arguments later ∉ after) →
    node.head.arguments = some (all ++ after.filterMap Edit.argument?)
  added : (∀ all, Edit.arguments all ∉ edits) →
    node.head.arguments = appended none (edits.filterMap Edit.argument?)
  aliasName : node.head.aliasName = (edits.filterMap Edit.aliasName?).getLast?
  aliasFor : node.head.aliasFor = (edits.filterMap Edit.aliasFor?).getLast?
  declared : node.head.declared = appended none (edits.filterMap Edit.declare?)
  directive : node.head.directive = (edits.filterMap Edit.directive?).getLast?
  fragments : node.fragments = appended none (edits.filterMap Edit.fragment?)

/-- Where nothing replaces the arguments, they are only added to. -/
theorem arguments_foldl {edits : List Edit} (h : ∀ all, Edit.arguments all ∉ edits) (node : Node) :
    (edits.foldl Edit.apply node).head.arguments
      = appended node.head.arguments (edits.filterMap Edit.argument?) := by
  refine Edit.foldl_extend (·.head.arguments) Edit.argument? edits (fun edit hedit node => ?_) node
  cases edit with
  | arguments all => exact absurd hedit (h all)
  | _ => rfl

theorem built_build (edits : List Edit) : Built edits (build edits) where
  fields := by
    refine Edit.foldl_add Node.fields Edit.field? (fun node edit => ?_) edits {}
    cases edit <;> simp [Edit.apply, Edit.field?]
  replaced before all after hedits hafter := by
    rw [build, hedits, List.foldl_append, List.foldl_cons, arguments_foldl hafter]
    exact Edit.appended_some _ _
  added h := arguments_foldl h {}
  aliasName := by
    refine Edit.build_set (·.head.aliasName) Edit.aliasName? (fun node edit => ?_) rfl edits
    cases edit <;> rfl
  aliasFor := by
    refine Edit.build_set (·.head.aliasFor) Edit.aliasFor? (fun node edit => ?_) rfl edits
    cases edit <;> rfl
  declared := by
    refine Edit.foldl_extend (·.head.declared) Edit.declare? edits (fun edit _ node => ?_) {}
    cases edit <;> rfl
  directive := by
    refine Edit.build_set (·.head.directive) Edit.directive? (fun node edit => ?_) rfl edits
    cases edit <;> rfl
  fragments := by
    refine Edit.foldl_extend Node.fragments Edit.fragment? edits (fun edit _ node => ?_) {}
    cases edit <;> rfl

/-- **A node is empty just if there was no edit.** -/
theorem isEmpty_build_iff (edits : List Edit) : (build edits).isEmpty = true ↔ edits = [] := by
  rcases List.eq_nil_or_concat edits with rfl | ⟨before, last, rfl⟩
  · exact iff_of_true rfl rfl
  · rw [build, List.concat_eq_append, List.foldl_append, List.foldl_cons, List.foldl_nil,
      Edit.isEmpty_apply]
    exact iff_of_false Bool.false_ne_true (by simp)

/-- Only an empty root is refused. -/
theorem compile_eq_error_iff {root : Node} {options : Options} {fault : Fault} :
    compile root options = .error fault ↔ root.isEmpty = true ∧ fault = .noData := by
  rw [compile]
  cases root.isEmpty <;> simp [eq_comm]

/-- **Edits of different slots are independent.** Lists with the same edits of each slot build the
same node. Each slot holds what its edits added, or what the last of them set. Without edits, and
only then, the node is empty and is not compiled. -/
theorem build_by_slots :
    (∀ edits edits' : List Edit,
      (∀ slot, edits.filter (·.slot = slot) = edits'.filter (·.slot = slot)) →
        build edits = build edits')
      ∧ ∀ edits : List Edit, Built edits (build edits)
        ∧ ((build edits).isEmpty = true ↔ edits = [])
        ∧ ∀ options, ((∃ fault, compile (build edits) options = .error fault) ↔ edits = [])
          ∧ ∀ fault, compile (build edits) options = .error fault →
            fault.report.kind = .invalidInput := by
  refine ⟨fun _ _ => build_eq_of_filter_eq, fun edits => ?_⟩
  refine ⟨built_build edits, isEmpty_build_iff edits, fun options => ⟨?_, ?_⟩⟩
  · rw [← isEmpty_build_iff]
    exact ⟨fun ⟨_, h⟩ => (compile_eq_error_iff.1 h).1,
      fun h => ⟨.noData, compile_eq_error_iff.2 ⟨h, rfl⟩⟩⟩
  · intro fault h
    obtain ⟨-, rfl⟩ := compile_eq_error_iff.1 h
    rfl

/-- Edits of all slots, arguments before and after all of them are replaced. -/
def mixedEdits : List Edit :=
  [.argument ⟨"first", .int 1⟩, .select "id", .aliasName "a", .arguments [⟨"last", .int 2⟩],
    .declare ⟨"n", "Int"⟩, .directive ⟨"skip", none⟩, .argument ⟨"after", .string "c"⟩,
    .field (.leaf "name" .null), .aliasFor "node", .aliasName "b", .fragment ⟨"T", {}⟩,
    .directive ⟨"include", none⟩, .declare ⟨"m", "Int"⟩]

/-- The same edits, those of one slot together. -/
def sortedEdits : List Edit :=
  [.declare ⟨"n", "Int"⟩, .declare ⟨"m", "Int"⟩, .fragment ⟨"T", {}⟩, .aliasFor "node",
    .directive ⟨"skip", none⟩, .directive ⟨"include", none⟩, .select "id",
    .field (.leaf "name" .null), .aliasName "a", .aliasName "b", .argument ⟨"first", .int 1⟩,
    .arguments [⟨"last", .int 2⟩], .argument ⟨"after", .string "c"⟩]

theorem build_by_slots_mixedEdits :
    build mixedEdits = build sortedEdits
      ∧ (build mixedEdits).head.arguments = some [⟨"last", .int 2⟩, ⟨"after", .string "c"⟩]
      ∧ (build mixedEdits).head.aliasName = some "b" := by
  obtain ⟨hslots, hbuilt⟩ := build_by_slots
  refine ⟨hslots _ _ fun slot => ?_, ?_, (hbuilt mixedEdits).1.aliasName⟩
  · cases slot <;> rfl
  · refine (hbuilt mixedEdits).1.replaced (mixedEdits.take 3) _ (mixedEdits.drop 4) rfl ?_
    simp [mixedEdits]

end Node

end QueryTree

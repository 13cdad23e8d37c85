import QueryTree.Node.Basic

/-!
# Proofs/Parts — what values and trees are made of

A condition on a tree mostly says something of each of its nodes, names and values by itself.
`Value.parts` lists a value with all values inside it, `Node.subnodes` a node with all nodes below
it, so such a condition is a statement about the members of a list.
-/

namespace QueryTree

/-! ## Values -/

namespace Value

mutual

/-- A value and all values inside it. -/
def parts : Value → List Value
  | .list items => .list items :: itemParts items
  | .object fields => .object fields :: fieldParts fields
  | v => [v]

/-- The parts of the values of a list. -/
def itemParts : List Value → List Value
  | [] => []
  | item :: items => item.parts ++ itemParts items

/-- The parts of the named values of a list. -/
def fieldParts : List (Named Value) → List Value
  | [] => []
  | ⟨_, value⟩ :: fields => value.parts ++ fieldParts fields

end

/-- The parts of a list are those of its items, one item after another. -/
theorem itemParts_eq_flatMap (items : List Value) : itemParts items = items.flatMap parts := by
  induction items with
  | nil => rfl
  | cons item items ih => rw [itemParts, ih, List.flatMap_cons]

/-- …and of the values of its fields for an object. -/
theorem fieldParts_eq_flatMap (fields : List (Named Value)) :
    fieldParts fields = fields.flatMap fun field => field.value.parts := by
  induction fields with
  | nil => rfl
  | cons field fields ih => rw [fieldParts, ih, List.flatMap_cons]

/-- A value is the first of its parts. -/
theorem self_mem_parts (v : Value) : v ∈ v.parts := by
  cases v <;> simp [parts]

/-- What is inside of an item is inside of the list. -/
theorem parts_subset_list {v : Value} {items : List Value} (hv : v ∈ items) :
    v.parts ⊆ (Value.list items).parts := by
  rw [parts, itemParts_eq_flatMap]
  exact fun u hu => List.mem_cons_of_mem _ (List.mem_flatMap.2 ⟨v, hv, hu⟩)

/-- What is inside of the value of a field is inside of the object. -/
theorem parts_subset_object {field : Named Value} {fields : List (Named Value)}
    (hf : field ∈ fields) : field.value.parts ⊆ (Value.object fields).parts := by
  rw [parts, fieldParts_eq_flatMap]
  exact fun u hu => List.mem_cons_of_mem _ (List.mem_flatMap.2 ⟨field, hf, hu⟩)

section Induction

variable {motive : Value → Prop} (var : ∀ name, motive (.var name))
  (enum : ∀ text, motive (.enum text)) (string : ∀ text, motive (.string text))
  (int : ∀ n, motive (.int n)) (float : ∀ x, motive (.float x)) (bool : ∀ b, motive (.bool b))
  (list : ∀ items, (∀ v ∈ items, motive v) → motive (.list items))
  (object : ∀ fields, (∀ field ∈ fields, motive field.value) → motive (.object fields))
  (null : motive .null)

include var enum string int float bool list object null

/-- **Induction on a value**, a list or an object coming after all that stands in it. -/
@[elab_as_elim] theorem induct : ∀ v : Value, motive v
  | .var name => var name
  | .enum text => enum text
  | .string text => string text
  | .int n => int n
  | .float x => float x
  | .bool b => bool b
  | .list items => list items fun v _ => induct v
  | .object fields => object fields fun field _ => induct field.value
  | .null => null
termination_by v => sizeOf v
decreasing_by
  · have := List.sizeOf_lt_of_mem ‹v ∈ items›
    simp only [Value.list.sizeOf_spec]
    omega
  · have := List.sizeOf_lt_of_mem ‹field ∈ fields›
    cases field
    simp only [Named.mk.sizeOf_spec, Value.object.sizeOf_spec] at *
    omega

end Induction

end Value

/-! ## Heads -/

namespace Head

/-- The arguments of the directive. -/
def directiveArguments (head : Head) : Arguments :=
  (head.directive.bind (·.arguments)).getD []

/-- The arguments of the field and those of its directive. -/
def allArguments (head : Head) : Arguments :=
  head.arguments.getD [] ++ head.directiveArguments

/-- All names in a head that stand outside of values. -/
def names (head : Head) : List String :=
  head.aliasName.toList ++ head.aliasFor.toList ++ (head.declared.getD []).map (·.name)
    ++ (head.directive.map (·.name)).toList ++ head.allArguments.map (·.name)

section

variable {head : Head}

theorem mem_names_of_aliasName {s : String} (h : s ∈ head.aliasName) : s ∈ head.names := by
  simp [names, Option.mem_def.1 h]

theorem mem_names_of_aliasFor {s : String} (h : s ∈ head.aliasFor) : s ∈ head.names := by
  simp [names, Option.mem_def.1 h]

theorem mem_names_of_declared {declaration : Named String}
    (h : declaration ∈ head.declared.getD []) : declaration.name ∈ head.names := by
  simp only [names, List.mem_append, List.mem_map]
  exact .inl (.inl (.inr ⟨declaration, h, rfl⟩))

theorem mem_names_of_directive {directive : Directive} (h : directive ∈ head.directive) :
    directive.name ∈ head.names := by
  simp [names, Option.mem_def.1 h]

/-- The names of arguments are names of the head, those in its directive included. -/
theorem mem_names_of_argument {argument : Named Value} (h : argument ∈ head.allArguments) :
    argument.name ∈ head.names :=
  List.mem_append_right _ (List.mem_map_of_mem h)

/-- The arguments of the directive, reached through both of the optional parts. -/
theorem mem_directiveArguments {directive : Directive} (h : directive ∈ head.directive)
    {arguments : Arguments} (harguments : arguments ∈ directive.arguments) {argument : Named Value}
    (hargument : argument ∈ arguments) : argument ∈ head.directiveArguments := by
  simpa [directiveArguments, Option.mem_def.1 h, Option.mem_def.1 harguments] using hargument

/-- The arguments of the field itself are among all arguments of the head. -/
theorem mem_allArguments {arguments : Arguments} (h : arguments ∈ head.arguments)
    {argument : Named Value} (hargument : argument ∈ arguments) : argument ∈ head.allArguments := by
  refine List.mem_append_left _ ?_
  simpa [Option.mem_def.1 h] using hargument

end

end Head

/-! ## Nodes -/

namespace Node

mutual

/-- A node and all nodes below it, in fields and in fragments. -/
def subnodes : Node → List Node
  | ⟨head, fields, fragments⟩ =>
    ⟨head, fields, fragments⟩ :: fieldSubnodes fields
      ++ match fragments with
        | none => []
        | some fragments => fragmentSubnodes fragments

/-- The nodes of the fields of a list, and all nodes below them. -/
def fieldSubnodes : List Field → List Node
  | [] => []
  | .leaf _ _ :: rest => fieldSubnodes rest
  | .node _ child :: rest => child.subnodes ++ fieldSubnodes rest

/-- The nodes of fragments, and all nodes below them. -/
def fragmentSubnodes : List Fragment → List Node
  | [] => []
  | ⟨_, selection⟩ :: rest => selection.subnodes ++ fragmentSubnodes rest

end

/-- All names at a node that stand outside of values: in its head, of its fields, and the type
conditions of its fragments. -/
def names (node : Node) : List String :=
  node.head.names ++ node.fields.map (·.name) ++ (node.fragments.getD []).map (·.typeCondition)

section

variable {node : Node}

/-- What the head names, the node names. -/
theorem mem_names_of_head {s : String} (h : s ∈ node.head.names) : s ∈ node.names :=
  List.mem_append_left _ (List.mem_append_left _ h)

/-- A node names its fields. -/
theorem mem_names_of_field {field : Field} (h : field ∈ node.fields) : field.name ∈ node.names :=
  List.mem_append_left _ (List.mem_append_right _ (List.mem_map_of_mem h))

/-- A node names the types that its fragments are on. -/
theorem mem_names_of_fragment {fragment : Fragment} (h : fragment ∈ node.fragments.getD []) :
    fragment.typeCondition ∈ node.names :=
  List.mem_append_right _ (List.mem_map_of_mem h)

end

/-- The nodes below a node. No fragments and an empty list of them have none. -/
def descendants (node : Node) : List Node :=
  fieldSubnodes node.fields ++ fragmentSubnodes (node.fragments.getD [])

/-- A node and its descendants are all of its subnodes. -/
theorem subnodes_eq : ∀ node : Node, node.subnodes = node :: node.descendants
  | ⟨_, _, none⟩ => by simp [subnodes, descendants, fragmentSubnodes]
  | ⟨_, _, some _⟩ => by simp [subnodes, descendants]

/-- A node is the first of its subnodes. -/
theorem self_mem_subnodes (node : Node) : node ∈ node.subnodes := by
  rw [subnodes_eq]
  exact List.mem_cons_self

theorem descendants_subset_subnodes (node : Node) : node.descendants ⊆ node.subnodes := by
  rw [subnodes_eq]
  exact fun n hn => List.mem_cons_of_mem _ hn

/-- The subnodes of the node of a field are found from the list of fields. -/
theorem subnodes_subset_fieldSubnodes {name : String} {child : Node} : ∀ {fields : List Field},
    .node name child ∈ fields → child.subnodes ⊆ fieldSubnodes fields
  | [], h => absurd h List.not_mem_nil
  | .leaf _ _ :: rest, h => by
      rw [fieldSubnodes]
      exact subnodes_subset_fieldSubnodes (by simpa using h)
  | .node _ _ :: rest, h => by
      rw [fieldSubnodes]
      rcases List.mem_cons.1 h with h | h
      · cases h
        exact fun n hn => List.mem_append_left _ hn
      · exact fun n hn => List.mem_append_right _ (subnodes_subset_fieldSubnodes h hn)

/-- The subnodes of the selection of a fragment are found from the list of fragments. -/
theorem subnodes_subset_fragmentSubnodes {fragment : Fragment} : ∀ {fragments : List Fragment},
    fragment ∈ fragments → fragment.selection.subnodes ⊆ fragmentSubnodes fragments
  | [], h => absurd h List.not_mem_nil
  | ⟨_, _⟩ :: rest, h => by
      rw [fragmentSubnodes]
      rcases List.mem_cons.1 h with rfl | h
      · exact fun n hn => List.mem_append_left _ hn
      · exact fun n hn => List.mem_append_right _ (subnodes_subset_fragmentSubnodes h hn)

/-- The node of a field is below the node that selects it. -/
theorem subnodes_subset_of_field {node : Node} {name : String} {child : Node}
    (h : .node name child ∈ node.fields) : child.subnodes ⊆ node.descendants :=
  fun _ hn => List.mem_append_left _ (subnodes_subset_fieldSubnodes h hn)

/-- The node of a fragment is below the node that has it. -/
theorem subnodes_subset_of_fragment {node : Node} {fragment : Fragment}
    (h : fragment ∈ node.fragments.getD []) : fragment.selection.subnodes ⊆ node.descendants :=
  fun _ hn => List.mem_append_right _ (subnodes_subset_fragmentSubnodes h hn)

end Node

end QueryTree

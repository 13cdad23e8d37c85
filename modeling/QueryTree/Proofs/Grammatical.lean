import QueryTree.Proofs.Grammar.Selection

/-!
# Proofs/Grammatical — operations are documents of the grammar

A tree is an operation if its root selects one field, named for a kind of operation, and nothing
below has what the grammar cannot express: names on both sides of a field, a directive before
arguments, empty parentheses or braces. Its text is then a document. Main result:
`compile_operation_grammatical`.
-/

namespace QueryTree

open Grammar

namespace Node

/-- **A tree that is an operation.** -/
structure IsOperation (ignored : List String) (root : Node) (kind : String) (operation : Node) :
    Prop where
  fields : root.fields = [.node kind operation]
  isKind : kind ∈ ["query", "mutation", "subscription"]
  kept : kind ∉ ignored
  wellNamed : root.WellNamed
  unquoted : root.DirectivesUnquoted
  -- the operation itself
  unnamed : operation.head.aliasName = none ∧ operation.head.aliasFor = none
  passed : operation.head.arguments = none
  declared : operation.head.declared ≠ some []
  types : ∀ declaration ∈ operation.head.declared.getD [], Sentence .type declaration.value.toList
  selects : operation.selection ignored ≠ []
  -- the nodes below it
  undeclared : ∀ node ∈ operation.descendants, node.head.declared = none
  aliases : ∀ node ∈ operation.descendants,
    node.head.aliasName = none ∨ node.head.aliasFor = none
  annotated : ∀ node ∈ operation.descendants,
    node.head.arguments = none ∨ node.head.directive = none
  -- all nodes
  arguments : ∀ node ∈ operation.subnodes, node.head.arguments ≠ some []
  directives : ∀ node ∈ operation.subnodes, ∀ directive ∈ node.head.directive,
    directive.arguments ≠ some []
  opens : ∀ node ∈ operation.subnodes, node.opens ignored → node.selection ignored ≠ []
  fragments : ∀ node ∈ operation.subnodes, ∀ fragment ∈ node.fragments.getD [],
    selectionItems ignored fragment.selection.fields ≠ []

namespace IsOperation

variable {ignored : List String} {root : Node} {kind : String} {operation node : Node}

/-- The operation and the nodes below it are below the root. -/
theorem mem_root (h : root.IsOperation ignored kind operation) (hnode : node ∈ operation.subnodes) :
    node ∈ root.subnodes := by
  have hmem : .node kind operation ∈ root.fields := by
    rw [h.fields]
    exact List.mem_singleton.2 rfl
  exact descendants_subset_subnodes root (subnodes_subset_of_field hmem hnode)

theorem name (h : root.IsOperation ignored kind operation) (hnode : node ∈ operation.subnodes)
    {name : String} (hname : name ∈ node.names) : Name.isName name :=
  h.wellNamed.names node (h.mem_root hnode) name hname

theorem argument (h : root.IsOperation ignored kind operation) (hnode : node ∈ operation.subnodes)
    {argument : Named Value} (hargument : argument ∈ node.head.allArguments) :
    Arguments.WellNamed argument :=
  ⟨h.name hnode (mem_names_of_head (Head.mem_names_of_argument hargument)),
    h.wellNamed.values node (h.mem_root hnode) argument hargument⟩

theorem directive (h : root.IsOperation ignored kind operation)
    (hnode : node ∈ operation.subnodes) :
    ∀ directive ∈ node.head.directive, directive.Derived := by
  intro directive hdirective
  refine ⟨h.name hnode (mem_names_of_head (Head.mem_names_of_directive hdirective)),
    fun arguments harguments => ⟨?_, fun argument hargument => ?_⟩⟩
  · rintro rfl
    exact h.directives node hnode directive hdirective harguments
  · have hmem := Head.mem_directiveArguments hdirective harguments hargument
    exact ⟨h.argument hnode (List.mem_append_right _ hmem),
      h.unquoted node (h.mem_root hnode) argument hmem⟩

/-- What is printed behind the name of a field below the operation. -/
theorem ofField (h : root.IsOperation ignored kind operation)
    (hnode : node ∈ operation.descendants) :
    node.head.attached.OfField := by
  have hsub := descendants_subset_subnodes operation hnode
  rw [Head.attached, h.undeclared node hnode]
  cases hdirective : node.head.directive with
  | some directive =>
    have hnone : node.head.arguments = none :=
      (h.annotated node hnode).resolve_right (by simp [hdirective])
    rw [hnone]
    exact .directive (h.directive hsub directive hdirective)
  | none =>
    cases harguments : node.head.arguments with
    | none => exact .bare
    | some arguments =>
      refine .arguments (fun hnil => h.arguments node hsub (hnil ▸ harguments)) fun a ha => ?_
      exact h.argument hsub (Head.mem_allArguments harguments ha)

/-- What is printed behind the kind of the operation. -/
theorem ofOperation (h : root.IsOperation ignored kind operation) :
    operation.head.attached.OfOperation := by
  have hself := self_mem_subnodes operation
  rw [Head.attached, h.passed]
  cases hdeclared : operation.head.declared with
  | some declarations =>
    have hmem : ∀ d ∈ declarations, d ∈ operation.head.declared.getD [] := by
      rw [hdeclared]
      exact fun d hd => hd
    exact .declarations (fun hnil => h.declared (hnil ▸ hdeclared))
      (fun d hd => h.name hself (mem_names_of_head (Head.mem_names_of_declared (hmem d hd))))
      fun d hd => h.types d (hmem d hd)
  | none =>
    cases hdirective : operation.head.directive with
    | none => exact .bare
    | some directive => exact .directive (h.directive hself directive hdirective)

/-- The names of a field are those of the grammar, as it has an alias on one side only. -/
theorem chain_eq (h : root.IsOperation ignored kind operation)
    (hnode : node ∈ operation.descendants) {name : String} (hname : Name.isName name) :
    ∃ (aliasName : Option String) (last : String), (∀ a ∈ aliasName, Name.isName a)
      ∧ Name.isName last ∧ node.head.chain name = aliasName.toList ++ [last] := by
  have hsub := descendants_subset_subnodes operation hnode
  rw [Head.chain]
  rcases h.aliases node hnode with hnone | hnone
  · cases haliasFor : node.head.aliasFor with
    | none => exact ⟨none, name, by simp, hname, by rw [hnone]; rfl⟩
    | some field =>
      have hfield : Name.isName field :=
        h.name hsub (mem_names_of_head (Head.mem_names_of_aliasFor haliasFor))
      exact ⟨some name, field, by simpa using hname, hfield, by rw [hnone]; rfl⟩
  · refine ⟨node.head.aliasName, name, fun a ha => ?_, hname, by rw [hnone]; rfl⟩
    exact h.name hsub (mem_names_of_head (Head.mem_names_of_aliasName ha))

/-- **All that is printed of an operation is in the grammar.** -/
theorem derived (h : root.IsOperation ignored kind operation) :
    ∀ item ∈ operation.selection ignored, item.Derived := by
  refine @forall_selection ignored (· ∈ operation.subnodes) (· ∈ operation.descendants) Item.Derived
    (fun node name value hnode hmem => ?_) (fun node name child hnode hchild hmem ih => ?_)
    (fun node condition child hnode _ hmem ih => ?_) operation (fun n hn => hn) (fun n hn => hn)
  · have hname : Name.isName name := h.name hnode (mem_names_of_field hmem)
    exact @Item.Derived.field none name _ _ (by simp) hname .bare (by simp) (by simp)
  · have hname : Name.isName name := h.name hnode (mem_names_of_field hmem)
    obtain ⟨aliasName, last, halias, hlast, hchain⟩ := h.chain_eq hchild hname
    rw [fieldItem_eq, hchain]
    refine .field halias hlast (h.ofField hchild) (fun items hitems => ?_) fun items hitems => ?_
    · obtain ⟨hopens, heq⟩ := Option.ite_none_right_eq_some.1 hitems
      rw [← Option.some.inj heq]
      exact h.opens child (descendants_subset_subnodes operation hchild) hopens
    · obtain ⟨-, heq⟩ := Option.ite_none_right_eq_some.1 hitems
      rwa [← Option.some.inj heq]
  · have hname : Name.isName condition := h.name hnode (mem_names_of_fragment hmem)
    exact .fragment hname (h.fragments node hnode _ hmem) ih

/-! ## The text -/

/-- **An operation is printed as one field** named by its kind, with all else between its braces. -/
theorem items_eq (h : root.IsOperation ignored kind operation) :
    root.items ignored
      = [.field [kind] operation.head.attached (some (operation.selection ignored))] := by
  have hopens : operation.opens ignored = true := by
    by_cases hopens : operation.opens ignored
    · exact hopens
    · exact absurd (selection_of_not_opens (by simpa using hopens)) h.selects
  rw [items, h.fields, selectionItems, selectionItems, fieldItem_eq, hopens, Head.chain,
    h.unnamed.1, h.unnamed.2]
  simp [h.kept]

theorem isName_kind (h : root.IsOperation ignored kind operation) : Name.isName kind := by
  have hkind := h.isKind
  simp only [List.mem_cons, List.not_mem_nil, or_false] at hkind
  rcases hkind with rfl | rfl | rfl <;> decide

/-- The text of an operation: its kind, what it declares, and its selection in braces. -/
theorem toList_text (h : root.IsOperation ignored kind operation) (pretty : Bool) :
    (root.text ⟨pretty, ignored⟩).toList = kind.toList ++ (operation.head.attached.text.toList
      ++ ' ' :: '{' :: Item.bracedChars pretty 0 (operation.selection ignored)) := by
  have hkind : kind ≠ "" := by
    rintro heq
    exact absurd h.isName_kind (by rw [heq]; decide)
  have hline : ∀ item ∈ root.items ignored, ∀ line ∈ (item.lines 0).head?, line.text ≠ "" := by
    rw [h.items_eq]
    simp [Item.lines]
  have htext : Line.separator pretty :: (root.text ⟨pretty, ignored⟩).toList = _ :=
    separator_cons_text (by rw [h.items_eq]; simp) hline
  rw [h.items_eq, Item.spellings, List.flatMap_singleton, Item.spelling_field] at htext
  cases pretty <;> simpa [Line.gap, Line.separator, Item.chainChars, optional] using htext

/-- **The text of an operation is a document**, however its lines are joined. -/
theorem sentence_text (h : root.IsOperation ignored kind operation) (pretty : Bool) :
    Sentence .document (root.text ⟨pretty, ignored⟩).toList := by
  obtain ⟨us, vs, hus, hvs, hattached⟩ := h.ofOperation.reads
  obtain ⟨ws, hws, hselection⟩ := Item.reads_braced pretty 0 h.selects fun item hitem =>
    (h.derived item hitem).reads
  rw [h.toList_text pretty]
  refine Reads.sentence
    ⟨_, .document (@Derives.operation kind h.isKind none us vs ws hus hvs hws) (.nil _), ?_⟩
  have hapart : Apart (' ' :: '{' :: Item.bracedChars pretty 0 (operation.selection ignored)) :=
    apart_cons (by decide) _
  simpa using Spells.name_append h.isName_kind
    ((Attachment.apart_text operation.head.attached).append hapart)
    (hattached.append hapart hselection)

end IsOperation

end Node

/-- **Compiled operations are grammatical.** On one line and spread over many, the text of an
operation is derived in the grammar of GraphQL. -/
theorem compile_operation_grammatical {root : Node} {kind : String} {operation : Node}
    {ignored : List String} (h : root.IsOperation ignored kind operation) (pretty : Bool) :
    ∃ text, compile root ⟨pretty, ignored⟩ = .ok text ∧ Sentence .document text.toList := by
  refine ⟨_, ?_, h.sentence_text pretty⟩
  rw [compile, Node.isEmpty, h.fields]
  rfl

/-- A field with an alias, arguments and a fragment in which a directive stands. -/
def userField : Node :=
  { head :=
      { aliasName := some "me",
        arguments := some [⟨"id", .var "id"⟩, ⟨"note", .string "\"\x7d\n"⟩] },
    fields := [.leaf "name" (.bool true), .leaf "secret" (.bool true)],
    fragments := some [⟨"Admin", { fields := [.node "since"
      { head := { directive := some ⟨"skip", some [⟨"if", .bool false⟩]⟩ } }] }⟩] }

/-- A query with a variable, and the root that selects it. -/
def userOperation : Node :=
  { head := { declared := some [⟨"id", "Int!"⟩] }, fields := [.node "user" userField] }

theorem sentence_int : Sentence .type "Int!".toList := by
  have hspells : Spells ("Int".toList ++ ['!']) [.name "Int", .punctuator '!'] :=
    .name_append (by decide) (apart_cons (by decide) _) (.punctuator (by decide) .nil)
  exact Reads.sentence ⟨_, .nonNull "Int", hspells⟩

theorem isOperation_userOperation : Node.IsOperation ["secret"]
    { fields := [.node "query" userOperation] } "query" userOperation := by
  refine ⟨rfl, by decide, by decide, ⟨by decide, by decide⟩, ?_, ⟨rfl, rfl⟩, rfl, ?_,
    by simpa [userOperation] using sentence_int, ?_, by decide, by decide, ?_, ?_, ?_, ?_, ?_⟩
  · rw [Node.DirectivesUnquoted]
    decide
  all_goals
    simp [userOperation, userField, Node.descendants, Node.subnodes, Node.fieldSubnodes,
      Node.fragmentSubnodes, Node.opens, Node.selection, Node.selectionItems, Node.fragmentItems,
      Value.isTruthy, Field.name]

theorem compile_operation_grammatical_userOperation :
    ∃ text, compile { fields := [.node "query" userOperation] } ⟨true, ["secret"]⟩ = .ok text
      ∧ Sentence .document text.toList :=
  compile_operation_grammatical isOperation_userOperation true

end QueryTree

import QueryTree.Compile
import QueryTree.Proofs.Equality.Double
import QueryTree.Proofs.Printed

/-!
# Proofs/Equality — what equal trees print

Values and trees are compared part by part, and doubles as numbers. So equality is not identity: it
takes the two zeros for one, and a tree that holds not-a-number differs from itself. All printers
follow the shape of what they print, and the text of a double hides the sign of zero; equal values
and equal trees therefore print the same (`printed_eq_of_beq`).
-/

namespace QueryTree

/-! ## Values -/

namespace Value

mutual

/-- **Equal values have the same writes.** Doubles that are equal have one text. -/
theorem writes_eq_of_beq : ∀ {a b : Value}, a.beq b = true → a.writes = b.writes
  | .var _, .var _, h | .enum _, .enum _, h | .string _, .string _, h | .int _, .int _, h
  | .bool _, .bool _, h => by rw [eq_of_beq h]
  | .float _, .float _, h => by rw [writes, writes, floatText_eq_of_beq h]
  | .list _, .list _, h => by rw [writes, writes, itemWrites_eq_of_beq h]
  | .object _, .object _, h => by rw [writes, writes, fieldWrites_eq_of_beq h]
  | .null, .null, _ => rfl

/-- …item by item for lists, -/
theorem itemWrites_eq_of_beq : ∀ {as bs : List Value}, beqItems as bs = true →
    itemWrites as = itemWrites bs
  | [], [], _ => rfl
  | a :: as, b :: bs, h => by
      obtain ⟨hitem, hitems⟩ := Bool.and_eq_true_iff.1 h
      rw [itemWrites, itemWrites, writes_eq_of_beq hitem, itemWrites_eq_of_beq hitems]

/-- …and field by field, with the names, for objects. -/
theorem fieldWrites_eq_of_beq : ∀ {as bs : List (Named Value)}, beqFields as bs = true →
    fieldWrites as = fieldWrites bs
  | [], [], _ => rfl
  | ⟨name, a⟩ :: as, ⟨name', b⟩ :: bs, h => by
      obtain ⟨hfield, hfields⟩ := Bool.and_eq_true_iff.1 h
      obtain ⟨hname, hvalue⟩ := Bool.and_eq_true_iff.1 hfield
      obtain rfl := eq_of_beq hname
      rw [fieldWrites, fieldWrites, writes_eq_of_beq hvalue, fieldWrites_eq_of_beq hfields]

end

variable {a b : Value}

/-- **Equal values have one text.** -/
theorem text_eq_of_beq (h : a == b) : a.text = b.text :=
  congrArg Writes.text (writes_eq_of_beq h)

/-- **Equal values select a field alike.** -/
theorem isTruthy_eq_of_beq : ∀ {a b : Value}, a.beq b = true → a.isTruthy = b.isTruthy
  | .var _, .var _, _ | .enum _, .enum _, _ | .list _, .list _, _ | .object _, .object _, _
  | .null, .null, _ => rfl
  | .string _, .string _, h | .int _, .int _, h | .bool _, .bool _, h => by rw [eq_of_beq h]
  | .float _, .float _, h => isTruthy_float_eq_of_beq h

/-- Arguments are compared one by one, as the fields of an object are. -/
theorem beqFields_eq_beq : ∀ as bs : List (Named Value), beqFields as bs = (as == bs)
  | [], [] | [], _ :: _ | _ :: _, [] => rfl
  | ⟨_, _⟩ :: as, ⟨_, _⟩ :: bs => by
      rw [beqFields, beqFields_eq_beq as bs]
      rfl

end Value

/-! ## Heads -/

/-- Arguments are compared as the fields of an object are. -/
theorem Arguments.writes_eq_of_beq {as bs : Arguments} (h : as == bs) :
    Arguments.writes as = Arguments.writes bs := by
  rw [← Value.beqFields_eq_beq] at h
  rw [writes, writes, Value.fieldWrites_eq_of_beq h]

/-- Optional parts that are equal are both absent, or both there and equal. -/
theorem none_or_some_of_beq {α : Type} [BEq α] : ∀ {o o' : Option α}, o == o' →
    (o = none ∧ o' = none) ∨ ∃ a a', o = some a ∧ o' = some a' ∧ a == a'
  | none, none, _ => .inl ⟨rfl, rfl⟩
  | some a, some a', h => .inr ⟨a, a', rfl, rfl, h⟩

theorem isNone_eq_of_beq {α : Type} [BEq α] {o o' : Option α} (h : o == o') :
    o.isNone = o'.isNone := by
  rcases none_or_some_of_beq h with ⟨hnone, hnone'⟩ | ⟨a, a', hsome, hsome', -⟩
  · rw [hnone, hnone']
  · rw [hsome, hsome', Option.isNone_some, Option.isNone_some]

namespace Directive

/-- The arguments of a directive are printed without quotes, from the same texts. -/
theorem map_entryWrites_eq_of_beq : ∀ {as bs : Arguments}, Value.beqFields as bs = true →
    as.map entryWrites = bs.map entryWrites
  | [], [], _ => rfl
  | ⟨name, a⟩ :: as, ⟨name', b⟩ :: bs, h => by
      obtain ⟨hfield, hfields⟩ := Bool.and_eq_true_iff.1 h
      obtain ⟨hname, hvalue⟩ := Bool.and_eq_true_iff.1 hfield
      obtain rfl := eq_of_beq hname
      rw [List.map_cons, List.map_cons, map_entryWrites_eq_of_beq hfields, entryWrites, entryWrites,
        Value.text_eq_of_beq hvalue]

/-- Equal directives have one name, and none or equal arguments. -/
theorem writes_eq_of_beq {d d' : Directive} (h : d == d') : d.writes = d'.writes := by
  obtain ⟨hname, harguments⟩ := Bool.and_eq_true_iff.1 h
  rw [writes, writes, eq_of_beq hname]
  rcases none_or_some_of_beq harguments with ⟨hnone, hnone'⟩ | ⟨as, bs, hsome, hsome', hbeq⟩
  · rw [hnone, hnone']
  · have hentries := map_entryWrites_eq_of_beq ((Value.beqFields_eq_beq as bs).trans hbeq)
    rw [hsome, hsome']
    dsimp only
    rw [hentries]

end Directive

namespace Head

variable {head head' : Head}

/-- Heads are equal part by part: texts are the same, arguments and directives are equal. -/
theorem parts_of_beq (h : head == head') : head.arguments == head'.arguments
    ∧ head.aliasName = head'.aliasName ∧ head.aliasFor = head'.aliasFor
    ∧ head.declared = head'.declared ∧ head.directive == head'.directive := by
  obtain ⟨h, hdirective⟩ := Bool.and_eq_true_iff.1 h
  obtain ⟨h, hdeclared⟩ := Bool.and_eq_true_iff.1 h
  obtain ⟨h, haliasFor⟩ := Bool.and_eq_true_iff.1 h
  obtain ⟨harguments, haliasName⟩ := Bool.and_eq_true_iff.1 h
  exact ⟨harguments, eq_of_beq haliasName, eq_of_beq haliasFor, eq_of_beq hdeclared, hdirective⟩

/-- What follows the name of a field is the same for equal heads. -/
theorem attachment_eq_of_beq (h : head == head') : head.attachment = head'.attachment := by
  obtain ⟨harguments, -, -, hdeclared, hdirective⟩ := parts_of_beq h
  rw [attachment, attachment, hdeclared]
  cases head'.declared with
  | some declarations => rfl
  | none =>
    dsimp only
    congr 1
    · rcases none_or_some_of_beq hdirective with ⟨hnone, hnone'⟩ | ⟨d, d', hsome, hsome', hd⟩
      · rw [hnone, hnone']
      · rw [hsome, hsome']
        exact congrArg (" @" ++ Writes.text ·) (Directive.writes_eq_of_beq hd)
    · rcases none_or_some_of_beq harguments with ⟨hnone, hnone'⟩ | ⟨as, bs, hsome, hsome', has⟩
      · rw [hnone, hnone']
      · rw [hsome, hsome']
        exact congrArg parenthesized (Arguments.writes_eq_of_beq has)

/-- **Fields with equal heads have one line.** -/
theorem token_eq_of_beq (h : head == head') (name : String) :
    head.token name = head'.token name := by
  obtain ⟨-, haliasName, haliasFor, -, -⟩ := parts_of_beq h
  rw [token, token, haliasName, haliasFor, attachment_eq_of_beq h]

/-- Equal heads have the same parts, so one is empty just if the other is. -/
theorem isEmpty_eq_of_beq (h : head == head') : head.isEmpty = head'.isEmpty := by
  obtain ⟨harguments, haliasName, haliasFor, hdeclared, hdirective⟩ := parts_of_beq h
  rw [isEmpty, isEmpty, isNone_eq_of_beq harguments, haliasName, haliasFor, hdeclared,
    isNone_eq_of_beq hdirective]

end Head

/-! ## Trees -/

namespace Node

/-- Nodes are equal part by part. No list of fragments is not the same as an empty one. -/
theorem parts_of_beq : ∀ {a b : Node}, a.beq b = true → a.head == b.head
    ∧ beqFields a.fields b.fields = true ∧ a.fragments.isSome = b.fragments.isSome
    ∧ beqFragments (a.fragments.getD []) (b.fragments.getD []) = true
  | ⟨_, _, none⟩, ⟨_, _, none⟩, h => by
      obtain ⟨h, -⟩ := Bool.and_eq_true_iff.1 h
      obtain ⟨hhead, hfields⟩ := Bool.and_eq_true_iff.1 h
      exact ⟨hhead, hfields, rfl, rfl⟩
  | ⟨_, _, some _⟩, ⟨_, _, some _⟩, h => by
      obtain ⟨h, hfragments⟩ := Bool.and_eq_true_iff.1 h
      obtain ⟨hhead, hfields⟩ := Bool.and_eq_true_iff.1 h
      exact ⟨hhead, hfields, rfl, hfragments⟩
  | ⟨_, _, none⟩, ⟨_, _, some _⟩, h | ⟨_, _, some _⟩, ⟨_, _, none⟩, h =>
      absurd (Bool.and_eq_true_iff.1 h).2 Bool.false_ne_true

/-- Equal lists of fields name the same fields in the same order. -/
theorem names_eq_of_beq : ∀ {fields fields' : List Field}, beqFields fields fields' = true →
    fields.map (·.name) = fields'.map (·.name)
  | [], [], _ => rfl
  | .leaf _ _ :: _, .leaf _ _ :: _, h | .node _ _ :: _, .node _ _ :: _, h => by
      obtain ⟨hfield, hrest⟩ := Bool.and_eq_true_iff.1 h
      obtain ⟨hname, -⟩ := Bool.and_eq_true_iff.1 hfield
      rw [List.map_cons, List.map_cons, names_eq_of_beq hrest]
      exact congrArg (· :: _) (eq_of_beq hname)

variable {ignored : List String} {a b : Node}

/-- Braces depend on names and on whether there are fragments. -/
theorem opens_eq_of_beq (h : a.beq b = true) : a.opens ignored = b.opens ignored := by
  obtain ⟨-, hfields, hfragments, -⟩ := parts_of_beq h
  have hany := congrArg (List.any · fun name => !ignored.contains name) (names_eq_of_beq hfields)
  rw [List.any_map, List.any_map] at hany
  rw [opens, opens, hfragments]
  exact congrArg (· || _) hany

theorem fieldLines_congr {level : Nat} {name : String} (h : a.beq b = true)
    (hfields : selectionLines ignored (level + 1) a.fields
      = selectionLines ignored (level + 1) b.fields)
    (hfragments : fragmentLines ignored (level + 1) (a.fragments.getD [])
      = fragmentLines ignored (level + 1) (b.fragments.getD [])) :
    fieldLines ignored level name a = fieldLines ignored level name b := by
  rw [fieldLines_eq, fieldLines_eq, opens_eq_of_beq h, Head.token_eq_of_beq (parts_of_beq h).1,
    hfields, hfragments]

mutual

/-- Equal nodes print the same lines as the node of a field. -/
theorem fieldLines_eq_of_beq (level : Nat) (name : String) : ∀ {a b : Node}, a.beq b = true →
    fieldLines ignored level name a = fieldLines ignored level name b
  | ⟨_, _, none⟩, ⟨_, _, none⟩, h => by
      obtain ⟨-, hfields, -, -⟩ := parts_of_beq h
      exact fieldLines_congr h (selectionLines_eq_of_beq (level + 1) hfields) rfl
  | ⟨_, _, some _⟩, ⟨_, _, some _⟩, h => by
      obtain ⟨-, hfields, -, hfragments⟩ := parts_of_beq h
      exact fieldLines_congr h (selectionLines_eq_of_beq (level + 1) hfields)
        (fragmentLines_eq_of_beq (level + 1) hfragments)
  | ⟨_, _, none⟩, ⟨_, _, some _⟩, h => absurd (parts_of_beq h).2.2.1 Bool.false_ne_true
  | ⟨_, _, some _⟩, ⟨_, _, none⟩, h => absurd (parts_of_beq h).2.2.1.symm Bool.false_ne_true

/-- Equal fields print the same lines: a leaf for its name alone, if it is as truthy. -/
theorem selectionLines_eq_of_beq (level : Nat) : ∀ {fields fields' : List Field},
    beqFields fields fields' = true →
      selectionLines ignored level fields = selectionLines ignored level fields'
  | [], [], _ => rfl
  | .leaf name value :: rest, .leaf name' value' :: rest', h => by
      obtain ⟨hfield, hrest⟩ := Bool.and_eq_true_iff.1 h
      obtain ⟨hname, hvalue⟩ := Bool.and_eq_true_iff.1 hfield
      obtain rfl := eq_of_beq hname
      rw [selectionLines, selectionLines, Value.isTruthy_eq_of_beq hvalue,
        selectionLines_eq_of_beq level hrest]
  | .node name child :: rest, .node name' child' :: rest', h => by
      obtain ⟨hfield, hrest⟩ := Bool.and_eq_true_iff.1 h
      obtain ⟨hname, hchild⟩ := Bool.and_eq_true_iff.1 hfield
      obtain rfl := eq_of_beq hname
      rw [selectionLines, selectionLines, fieldLines_eq_of_beq level name hchild,
        selectionLines_eq_of_beq level hrest]

/-- Equal fragments print the same lines, below the same line of their type. -/
theorem fragmentLines_eq_of_beq (level : Nat) : ∀ {fragments fragments' : List Fragment},
    beqFragments fragments fragments' = true →
      fragmentLines ignored level fragments = fragmentLines ignored level fragments'
  | [], [], _ => rfl
  | ⟨condition, ⟨_, _, _⟩⟩ :: rest, ⟨condition', ⟨_, _, _⟩⟩ :: rest', h => by
      obtain ⟨hfragment, hrest⟩ := Bool.and_eq_true_iff.1 h
      obtain ⟨hcondition, hselection⟩ := Bool.and_eq_true_iff.1 hfragment
      obtain rfl := eq_of_beq hcondition
      obtain ⟨-, hfields, -, -⟩ := parts_of_beq hselection
      rw [fragmentLines, fragmentLines, fragmentLines_eq_of_beq level hrest,
        selectionLines_eq_of_beq (level + 1) hfields]

end

/-- **Equal trees have the same lines.** -/
theorem lines_eq_of_beq (h : a == b) : a.lines ignored = b.lines ignored :=
  selectionLines_eq_of_beq 0 (parts_of_beq h).2.1

theorem isEmpty_eq_of_beq (h : a == b) : a.isEmpty = b.isEmpty := by
  obtain ⟨hhead, hfields, hfragments, -⟩ := parts_of_beq h
  have hnames := congrArg List.isEmpty (names_eq_of_beq hfields)
  rw [List.isEmpty_map, List.isEmpty_map] at hnames
  rw [isEmpty, isEmpty, hnames, Head.isEmpty_eq_of_beq hhead, ← Option.not_isSome,
    ← Option.not_isSome, hfragments]

end Node

/-- **Equal data prints equally.** Equal values have one text and select a field alike. Equal trees
have the same lines, whatever is ignored, and compile to the same text or are refused alike. -/
theorem printed_eq_of_beq :
    (∀ a b : Value, a == b → a.text = b.text ∧ a.isTruthy = b.isTruthy)
      ∧ ∀ a b : Node, a == b → (∀ options, compile a options = compile b options)
        ∧ ∀ ignored, a.lines ignored = b.lines ignored := by
  refine ⟨fun a b h => ⟨Value.text_eq_of_beq h, Value.isTruthy_eq_of_beq h⟩, fun a b h => ?_⟩
  refine ⟨fun options => ?_, fun ignored => Node.lines_eq_of_beq h⟩
  rw [compile, compile, Node.isEmpty_eq_of_beq h, Node.text, Node.text, Node.lines_eq_of_beq h]

/-- A tree with a double as a leaf, in arguments, in a directive and below a fragment. -/
def doubledTree (x : Float) : Node :=
  { fields := [.node "point"
      { head :=
          { arguments := some [⟨"at", .list [.float x, .object [⟨"y", .float x⟩]]⟩]
            directive := some ⟨"near", some [⟨"by", .float x⟩]⟩ }
        fields := [.leaf "x" (.float x), .leaf "id" (.bool true)]
        fragments := some [⟨"Marked", { fields := [.leaf "mark" (.float x)] }⟩] }] }

theorem printed_eq_of_beq_doubledTree :
    (0.0 : Float) ≠ -0.0 ∧ (doubledTree 0.0 == doubledTree (-0.0)) = true
      ∧ compile (doubledTree 0.0) {} = compile (doubledTree (-0.0)) {}
      ∧ (Value.list [.float 0.0]).text = (Value.list [.float (-0.0)]).text
      ∧ (doubledTree (0.0 / 0.0) == doubledTree (0.0 / 0.0)) = false := by
  have htree : doubledTree 0.0 == doubledTree (-0.0) := by decide
  have hvalue : Value.list [.float 0.0] == Value.list [.float (-0.0)] := by decide
  exact ⟨by decide, htree, (printed_eq_of_beq.2 _ _ htree).1 {}, (printed_eq_of_beq.1 _ _ hvalue).1,
    by decide⟩

end QueryTree

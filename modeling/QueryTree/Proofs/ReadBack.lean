import QueryTree.Proofs.Image.Value
import QueryTree.Proofs.Reading.Listed
import QueryTree.Proofs.Reading.Reader

/-!
# Proofs/ReadBack — values read back from their texts

A value without enum constants, variables and doubles is printed as JSON, but for the keys of
objects, which are bare. A reader that accepts bare keys gets JSON back from which the value is
converted again (`Value.exists_read?_text`). The reader keeps the entries it has seen of each list
that is open, last first; what it has read of a list is a statement about all of them
(`Listing.run_listed`).
-/

namespace QueryTree

/-! ## What follows a value -/

/-- What may follow a value that stands anywhere in JSON. -/
def ValueEnds (rest : List Char) : Prop :=
  ∀ c ∈ rest.head?, c = ',' ∨ c = ']' ∨ c = '}'

namespace ValueEnds

variable {rest : List Char}

/-- What may follow a value does not go on with an integer… -/
theorem intEnds (h : ValueEnds rest) : Numeral.IntEnds rest := by
  intro c hc
  rcases h c hc with rfl | rfl | rfl <;> decide

/-- …nor with a word. -/
theorem wordEnds (h : ValueEnds rest) : Ends Name.isRest rest := by
  intro c hc
  rcases h c hc with rfl | rfl | rfl <;> decide

end ValueEnds

/-- So it is with what follows an entry: a comma or the closing bracket. -/
theorem EntryEnds.valueEnds {close : Char} (hclose : close = ']' ∨ close = '}')
    {rest : List Char} (h : EntryEnds close rest) : ValueEnds rest := by
  intro c hc
  rw [Option.mem_def] at hc
  rcases h with h | h
  · exact .inl (Option.some.inj (hc.symm.trans h))
  · obtain rfl : c = close := Option.some.inj (hc.symm.trans h)
    exact .inr hclose

namespace Json.Reader

/-! ## Lists -/

/-- How a list of entries is read in an open array or object: where an entry is awaited behind those
that were read, what the state is behind one, and what it is behind the closing mark. -/
structure Listing (β : Type) where
  close : Char
  closing : Token
  awaits : List β → State → Prop
  /-- The state behind an entry and those before it. -/
  behind : β → List β → State
  done : List β → State
  mark : Token.ofMark? close = some closing
  comma : ∀ y ys, ∃ state, step .bareKeys (behind y ys) .comma = some state ∧ awaits (y :: ys) state
  closed : ∀ y ys, step .bareKeys (behind y ys) closing = some (done (y :: ys).reverse)

namespace Listing

variable {α β : Type} (listing : Listing β) {print : α → List Char} {convert : α → β}

/-- An entry is read: from wherever one is awaited, the reader gets behind it. -/
def ReadsEntry (cs : List Char) (y : β) : Prop :=
  ∀ ⦃ys state rest⦄, listing.awaits ys state → EntryEnds listing.close rest →
    run .bareKeys state (cs ++ rest) = run .bareKeys (listing.behind y ys) rest

/-- The entries behind the first, and the closing mark. -/
theorem run_behind (rest : List Char) : ∀ {xs : List α} (y : β) (ys : List β),
    (∀ x ∈ xs, listing.ReadsEntry (print x) (convert x)) →
      run .bareKeys (listing.behind y ys)
          ((xs.flatMap fun x => ',' :: ' ' :: print x) ++ listing.close :: rest)
        = run .bareKeys (listing.done ((y :: ys).reverse ++ xs.map convert)) rest
  | [], y, ys, _ => by
      rw [List.map_nil, List.append_nil]
      exact run_token (Token.begins_mark listing.mark) (listing.closed y ys)
  | x :: xs, y, ys, h => by
      obtain ⟨state, hstep, hawaits⟩ := listing.comma y ys
      have hx := h x List.mem_cons_self hawaits (entryEnds_behind print listing.close xs rest)
      have ih := run_behind rest (convert x) (y :: ys) fun x hx => h x (List.mem_cons_of_mem _ hx)
      rw [List.flatMap_cons, List.cons_append, List.cons_append, List.cons_append,
        List.cons_append, List.append_assoc, run_token (Token.begins_mark rfl) hstep,
        run_blank rfl, hx, ih, List.reverse_cons, List.append_assoc, List.singleton_append,
        List.map_cons]

/-- **A list is read** with its closing mark, if its entries are. -/
theorem run_listed {start : State} (hstart : listing.awaits [] start)
    (hempty : step .bareKeys start listing.closing = some (listing.done [])) (rest : List Char) :
    ∀ {xs : List α}, (∀ x ∈ xs, listing.ReadsEntry (print x) (convert x)) →
      run .bareKeys start (listed print xs ++ listing.close :: rest)
        = run .bareKeys (listing.done (xs.map convert)) rest
  | [], _ => run_token (Token.begins_mark listing.mark) hempty
  | x :: xs, h => by
      have hx := h x List.mem_cons_self hstart (entryEnds_behind print listing.close xs rest)
      rw [listed, List.append_assoc, hx]
      exact listing.run_behind rest (convert x) [] fun x hx => h x (List.mem_cons_of_mem _ hx)

end Listing

/-! ## Values -/

/-- Where a value is awaited in arrays and objects that are open. The end of an array may stand
there too. -/
def AwaitsValue (frames : List Frame) (state : State) : Prop :=
  ∀ token, token ≠ .closeArray → step .bareKeys state token = beginValue frames token

/-- The items of an array. -/
def items (frames : List Frame) : Listing Json where
  close := ']'
  closing := .closeArray
  awaits ys := AwaitsValue (.array ys :: frames)
  behind y ys := .after y (.array ys :: frames)
  done ys := .after (.array ys) frames
  mark := rfl
  comma _ _ := ⟨_, rfl, fun _ _ => rfl⟩
  closed _ _ := rfl

/-- The members of an object. -/
def members (frames : List Frame) : Listing (Named Json) where
  close := '}'
  closing := .closeObject
  awaits ys state := ∀ s, step .bareKeys state (.word s) = some (.colon ys s frames)
  behind y ys := .after y.value (.object ys y.name :: frames)
  done ys := .after (.object ys) frames
  mark := rfl
  comma _ _ := ⟨_, rfl, fun _ => rfl⟩
  closed _ _ := rfl

/-- A value is read: the reader gets behind it and has its JSON. -/
def ReadsValue (v : Value) : Prop :=
  ∀ ⦃frames state rest⦄, AwaitsValue frames state → ValueEnds rest →
    run .bareKeys state (v.chars ++ rest) = run .bareKeys (.after v.toJson frames) rest

theorem awaitsValue_firstItem (frames : List Frame) :
    AwaitsValue (.array [] :: frames) (.firstItem frames) := by
  intro token htoken
  cases token with
  | closeArray => exact absurd rfl htoken
  | _ => rfl

/-- **A list is read item by item** to the bracket that closes it. -/
theorem readsValue_list {vs : List Value} (h : ∀ v ∈ vs, ReadsValue v) :
    ReadsValue (.list vs) := by
  intro frames state rest hstate _
  have hopen : step .bareKeys state .openArray = some (.firstItem frames) := hstate _ nofun
  have hitems : ∀ v ∈ vs, (items frames).ReadsEntry v.chars v.toJson :=
    fun v hv _ _ _ hstate hrest => h v hv hstate (hrest.valueEnds (.inl rfl))
  rw [Value.chars_list, List.cons_append, List.append_assoc, List.singleton_append,
    run_token (Token.begins_mark rfl) hopen, Value.toJson, Value.toItems_eq_map]
  exact (items frames).run_listed (awaitsValue_firstItem frames) rfl rest hitems

/-- A member is its key, a colon and its value. -/
theorem readsEntry_members (frames : List Frame) {field : Named Value}
    (hname : Name.isName field.name) (h : ReadsValue field.value) :
    (members frames).ReadsEntry (Arguments.entryChars field)
      ⟨field.name, field.value.toJson⟩ := by
  intro ys state rest hstate hrest
  have hkey : step .bareKeys state (.word field.name) = some (.colon ys field.name frames) :=
    hstate field.name
  have hcolon : step .bareKeys (.colon ys field.name frames) .colon
      = some (.value (.object ys field.name :: frames)) := rfl
  have hvalue : AwaitsValue (.object ys field.name :: frames)
      (.value (.object ys field.name :: frames)) := fun _ _ => rfl
  have hends : ∀ cs, Ends Name.isRest (':' :: cs) := fun _ => ends_cons.2 (by decide)
  rw [Arguments.entryChars, List.append_assoc, List.cons_append, List.cons_append,
    run_token (Token.begins_word hname (hends _)) hkey,
    run_token (Token.begins_mark rfl) hcolon, run_blank rfl]
  exact h hvalue (hrest.valueEnds (.inr rfl))

/-- **An object is read field by field**, its bare keys being Names. -/
theorem readsValue_object {fields : List (Named Value)}
    (hnames : ∀ field ∈ fields, Name.isName field.name)
    (h : ∀ field ∈ fields, ReadsValue field.value) : ReadsValue (.object fields) := by
  intro frames state rest hstate _
  have hopen : step .bareKeys state .openObject = some (.firstKey frames) := hstate _ nofun
  have hempty : step .bareKeys (.firstKey frames) .closeObject
      = some (.after (.object []) frames) := rfl
  have hmembers := fun field hfield =>
    readsEntry_members frames (hnames field hfield) (h field hfield)
  rw [Value.chars_object, List.cons_append, List.append_assoc, List.singleton_append,
    run_token (Token.begins_mark rfl) hopen, Value.toJson, Value.toMembers_eq_map]
  exact (members frames).run_listed (fun _ => rfl) hempty rest hmembers

theorem readsValue_string (s : String) : ReadsValue (.string s) := by
  intro frames state rest hstate _
  rw [Value.chars_string, run_token (Token.begins_string s) (hstate _ nofun)]
  rfl

theorem readsValue_int (n : Int64) : ReadsValue (.int n) := by
  intro frames state rest hstate hrest
  have hstep : step .bareKeys state (.number (Numeral.ofInt n.toInt))
      = some (.after (Value.int n).toJson frames) := by
    rw [hstate (.number _) nofun, beginValue, Number.ofNumeral?_ofInt (Value.toInt_inRange n)]
    rfl
  rw [Value.chars_int, run_token (Token.begins_int n.toInt hrest.intEnds) hstep]

/-- The words of JSON. -/
theorem readsValue_word {v : Value} {s : String} (hchars : v.chars = s.toList)
    (hname : Name.isName s) (hword : ofWord? s = some v.toJson) : ReadsValue v := by
  intro frames state rest hstate hrest
  have hstep : step .bareKeys state (.word s) = some (.after v.toJson frames) := by
    rw [hstate (.word s) nofun, beginValue, hword]
    rfl
  rw [hchars, run_token (Token.begins_word hname hrest.wordEnds) hstep]

end Json.Reader

/-! ## Texts -/

namespace Value

/-- A value of which the text says all that it holds: no enum constants, no variables and no
doubles, and the names of an object are Names, none of them twice. -/
inductive Plain : Value → Prop
  | null : Plain .null
  | bool (b : Bool) : Plain (.bool b)
  | int (n : Int64) : Plain (.int n)
  | string (s : String) : Plain (.string s)
  | list {items : List Value} (hitems : ∀ item ∈ items, Plain item) : Plain (.list items)
  | object {fields : List (Named Value)} (hnodup : (fields.map (·.name)).Nodup)
      (hnames : ∀ field ∈ fields, Name.isName field.name)
      (hfields : ∀ field ∈ fields, Plain field.value) : Plain (.object fields)

namespace Plain

variable {v : Value}

/-- A plain value has no part that JSON lacks. -/
theorem isJson (h : v.Plain) : v.IsJson := by
  induction h with
  | null => exact .null
  | bool b => exact .bool b
  | int n => exact .int n
  | string s => exact .string s
  | list _ ih => exact .list ih
  | object hnodup _ _ ih => exact .object hnodup ih

/-- **A plain value is read**, wherever it stands. -/
theorem readsValue (h : v.Plain) : Json.Reader.ReadsValue v := by
  induction h with
  | null => exact Json.Reader.readsValue_word chars_null (by decide) rfl
  | bool b =>
    cases b with
    | false => exact Json.Reader.readsValue_word (chars_bool false) (by decide) rfl
    | true => exact Json.Reader.readsValue_word (chars_bool true) (by decide) rfl
  | int n => exact Json.Reader.readsValue_int n
  | string s => exact Json.Reader.readsValue_string s
  | list _ ih => exact Json.Reader.readsValue_list ih
  | object _ hnames _ ih => exact Json.Reader.readsValue_object hnames ih

/-- The whole text of a plain value is read as its JSON. -/
theorem read?_text (h : v.Plain) : Json.read? .bareKeys v.text = some v.toJson := by
  have hstate : Json.Reader.AwaitsValue [] (.value []) := fun _ _ => rfl
  have hends : ValueEnds [] := nofun
  have hrun := h.readsValue hstate hends
  rw [List.append_nil, Json.Reader.run_nil] at hrun
  rw [Json.Reader.read?_eq, ← chars, hrun]
  rfl

end Plain

/-- **The text of a plain value is read back**: as a whole it is JSON with bare keys, no object of
it has a key twice, and the value is what it is converted to. -/
theorem exists_read?_text {v : Value} (h : v.Plain) :
    ∃ json, Json.read? .bareKeys v.text = some json ∧ json.Unrepeated ∧ ofJson json = v :=
  ⟨v.toJson, h.read?_text, unrepeated_toJson h.isJson, ofJson_toJson h.isJson⟩

/-- A value with the least integer, an escaped text, empty lists and a key like a word. -/
def nestedValue : Value :=
  .object [⟨"null", .list [.int Int64.minValue, .string "a\"\n\x01", .list [], .bool true]⟩,
    ⟨"_x", .object [⟨"y", .null⟩, ⟨"z", .object []⟩]⟩]

theorem exists_read?_text_nestedValue : nestedValue.Plain
    ∧ nestedValue.text = r#"{null: [-9223372036854775808, "a\"\n\u0001", [], true], "#
      ++ r"_x: {y: null, z: {}}}"
    ∧ ∃ json, Json.read? .bareKeys nestedValue.text = some json ∧ json.Unrepeated
      ∧ ofJson json = nestedValue := by
  have hlist : (Value.list
      [.int Int64.minValue, .string "a\"\n\x01", .list [], .bool true]).Plain :=
    .list (by simp [Plain.int, Plain.string, Plain.list, Plain.bool])
  have hobject : (Value.object [⟨"y", .null⟩, ⟨"z", .object []⟩]).Plain :=
    .object (by decide) (by decide) (by simp [Plain.null, Plain.object])
  have h : nestedValue.Plain := .object (by decide) (by decide) (by simp [hlist, hobject])
  exact ⟨h, rfl, exists_read?_text h⟩

end Value

end QueryTree

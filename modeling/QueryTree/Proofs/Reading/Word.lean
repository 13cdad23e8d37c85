import QueryTree.Proofs.Numeral
import QueryTree.Text.Name

/-!
# Proofs/Reading/Word — words told apart by what follows them

A word is a run of characters of one kind: a Name, the digits of a number. Read from the left it
ends where the kind does, so a word that begins a text is known as soon as what follows it begins
otherwise (`Ends`). `Readable` is this for any printer: of two equal texts that begin with printed
things, the things are the same and so is what follows.
-/

namespace QueryTree

/-- What is printed of `x` is told apart from what is printed of any other good thing, if what
follows both allows it. -/
def Readable {α : Type} (print : α → List Char) (good : α → Prop) (follow : List Char → Prop)
    (x : α) : Prop :=
  ∀ ⦃y rest rest'⦄, good y → follow rest → follow rest' → print x ++ rest = print y ++ rest' →
    x = y ∧ rest = rest'

theorem Readable.imp {α : Type} {print : α → List Char} {good : α → Prop}
    {follow follow' : List Char → Prop} {x : α} (h : Readable print good follow x)
    (hfollow : ∀ rest, follow' rest → follow rest) : Readable print good follow' x :=
  fun _ _ _ hy hrest hrest' => h hy (hfollow _ hrest) (hfollow _ hrest')

/-- A text that does not go on with a character of that kind. -/
def Ends (kind : Char → Bool) (rest : List Char) : Prop :=
  ∀ c ∈ rest.head?, kind c = false

theorem ends_nil (kind : Char → Bool) : Ends kind [] := by
  simp [Ends]

/-- A text ends a class of characters if its first one is outside. -/
theorem ends_cons {kind : Char → Bool} {c : Char} {rest : List Char} :
    Ends kind (c :: rest) ↔ kind c = false := by
  simp [Ends]

/-- A word is taken from a text up to where it ends. -/
theorem takeWhile_append_of_ends {kind : Char → Bool} {word rest : List Char} (h : word.all kind)
    (hrest : Ends kind rest) : (word ++ rest).takeWhile kind = word
      ∧ (word ++ rest).dropWhile kind = rest := by
  rw [List.takeWhile_append_of_pos (by simpa using h),
    List.dropWhile_append_of_pos (by simpa using h)]
  cases rest with
  | nil => simp
  | cons c rest => simp [ends_cons.1 hrest]

/-- **A word is known by where it ends.** -/
theorem readable_word {kind : Char → Bool} {word : List Char} (h : word.all kind) :
    Readable id (fun word => word.all kind) (Ends kind) word := by
  intro word' rest rest' h' hrest hrest' heq
  have hl := takeWhile_append_of_ends h hrest
  have hr := takeWhile_append_of_ends h' hrest'
  rw [id_eq, id_eq] at heq
  rw [heq] at hl
  exact ⟨hl.1.symm.trans hr.1, hl.2.symm.trans hr.2⟩

/-! ## Names -/

namespace Name

theorem isRest_of_isStart {c : Char} (h : isStart c) : isRest c := by
  simp only [isStart, isRest, Bool.or_eq_true, Char.isAlphanum] at *
  exact h.imp_left Or.inl

theorem isStart_of_isDigit {c : Char} (h : c.isDigit) : isStart c = false := by
  obtain ⟨-, hle⟩ : '0'.val ≤ c.val ∧ c.val ≤ '9'.val := by simpa [Char.isDigit] using h
  have hupper : c.isUpper = false :=
    decide_eq_false fun hge => absurd (UInt32.le_trans hge.1 hle) (by decide)
  have hlower : c.isLower = false :=
    Bool.and_eq_false_iff.2 <| .inl <| decide_eq_false fun hge =>
      absurd (UInt32.le_trans hge hle) (by decide)
  have hunderscore : (c == '_') = false := by
    rw [beq_eq_false_iff_ne]
    rintro rfl
    exact absurd h (by decide)
  change (c.isUpper || c.isLower || c == '_') = false
  rw [hupper, hlower, hunderscore]
  rfl

/-- A Name begins as Names do. -/
theorem exists_cons_of_isName {s : String} (h : isName s) :
    ∃ c cs, s.toList = c :: cs ∧ isStart c ∧ cs.all isRest := by
  unfold isName at h
  split at h
  · exact absurd h (by simp)
  · next c cs hs => exact ⟨c, cs, hs, by simpa using h⟩

theorem all_isRest_of_isName {s : String} (h : isName s) : s.toList.all isRest := by
  obtain ⟨c, cs, hs, hc, hcs⟩ := exists_cons_of_isName h
  rw [hs, List.all_cons, isRest_of_isStart hc, hcs]
  rfl

/-- Names are told apart by what does not go on with them. -/
theorem readable_name {s : String} (h : isName s) :
    Readable String.toList (isName ·) (Ends isRest) s := by
  intro s' rest rest' h' hrest hrest' heq
  have := readable_word (all_isRest_of_isName h) (all_isRest_of_isName h') hrest hrest' heq
  exact ⟨String.toList_injective this.1, this.2⟩

end Name

/-! ## Integers -/

/-- An integer is spelled by an optional minus sign and the digits of its magnitude. -/
theorem toList_repr_int (n : Int) :
    n.repr.toList = (if n < 0 then ['-'] else []) ++ Nat.toDigits 10 n.natAbs := by
  rw [Int.repr_eq_if]
  by_cases h : 0 ≤ n
  · rw [if_pos h, if_neg (by omega), Nat.toList_repr, show n.toNat = n.natAbs by omega]
    rfl
  · rw [if_neg h, if_pos (by omega), String.toList_append, Nat.toList_repr]
    congr 2
    omega

theorem readable_toDigits (n : Nat) :
    Readable (Nat.toDigits 10) (fun _ => True) (Ends Char.isDigit) n := by
  intro m rest rest' _ hrest hrest' heq
  obtain ⟨hdigits, hrest⟩ :=
    readable_word (all_isDigit_toDigits n) (all_isDigit_toDigits m) hrest hrest' heq
  refine ⟨?_, hrest⟩
  rw [← Nat.ofDigitChars_ten_toDigits (n := n), hdigits, Nat.ofDigitChars_ten_toDigits]

/-- The first digit of a natural number. -/
theorem exists_cons_toDigits (n : Nat) : ∃ c cs, Nat.toDigits 10 n = c :: cs ∧ c.isDigit := by
  obtain ⟨c, cs, h⟩ := List.exists_cons_of_ne_nil (Nat.toDigits_ne_nil (n := n) (b := 10))
  have := all_isDigit_toDigits n
  rw [h, List.all_cons, Bool.and_eq_true] at this
  exact ⟨c, cs, h, this.1⟩

/-- The first character of an integer. -/
theorem exists_cons_repr (n : Int) :
    ∃ c cs, n.repr.toList = c :: cs ∧ (c = '-' ∨ c.isDigit) := by
  rw [toList_repr_int]
  by_cases h : n < 0
  · exact ⟨'-', _, by rw [if_pos h]; rfl, .inl rfl⟩
  · obtain ⟨c, cs, hcs, hc⟩ := exists_cons_toDigits n.natAbs
    exact ⟨c, cs, by rw [if_neg h]; exact hcs, .inr hc⟩

/-- **An integer is known by where its digits end.** -/
theorem readable_repr_int (n : Int) :
    Readable (fun n : Int => n.repr.toList) (fun _ => True) (Ends Char.isDigit) n := by
  intro m rest rest' _ hrest hrest' heq
  simp only [toList_repr_int, List.append_assoc] at heq
  obtain ⟨c, cs, hn, hc⟩ := exists_cons_toDigits n.natAbs
  obtain ⟨d, ds, hm, hd⟩ := exists_cons_toDigits m.natAbs
  -- a sign is no digit, so both integers have one or neither does
  have hsign : n < 0 ↔ m < 0 := by
    by_cases hn0 : n < 0 <;> by_cases hm0 : m < 0 <;>
      simp only [hn0, hm0, if_true, if_false, hn, hm, List.cons_append, List.nil_append,
        List.cons.injEq] at heq ⊢
    · rw [← heq.1] at hd
      exact absurd hd (by decide)
    · rw [heq.1] at hc
      exact absurd hc (by decide)
  have hdigits : Nat.toDigits 10 n.natAbs ++ rest = Nat.toDigits 10 m.natAbs ++ rest' := by
    by_cases hn0 : n < 0
    · simpa [hn0, hsign.1 hn0] using heq
    · simpa [hn0, mt hsign.2 hn0] using heq
  obtain ⟨habs, hrest⟩ := readable_toDigits n.natAbs trivial hrest hrest' hdigits
  exact ⟨by omega, hrest⟩

end QueryTree

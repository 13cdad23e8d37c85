import QueryTree.Proofs.Shortest
import QueryTree.Value.Printer

/-!
# Proofs/Numeral — the numerals that are written

The digits of a decimal begin with a zero only if it is zero, and the shortest decimal of a double
is zero only if the double is (`Proofs/Shortest`). So every layout writes numerals without a leading
zero before the point (`valid_numeral`), as the grammar of numbers asks.
-/

namespace QueryTree

/-! ## Digits -/

/-- The digits of a whole number: a zero alone, or digits that do not begin with one. -/
def IsWhole (digits : List Char) : Prop :=
  digits = ['0'] ∨ digits.all Char.isDigit ∧ digits ≠ [] ∧ digits.head? ≠ some '0'

/-- A whole part has digits only. -/
theorem IsWhole.all_isDigit {digits : List Char} (h : IsWhole digits) :
    digits.all Char.isDigit := by
  rcases h with rfl | h
  · decide
  · exact h.1

/-- A list that is not empty begins an append as it begins itself. -/
theorem head?_append_ne {α : Type} {xs ys : List α} {x : α} (hne : xs ≠ [])
    (h : xs.head? ≠ some x) : (xs ++ ys).head? ≠ some x := by
  obtain ⟨y, xs, rfl⟩ := List.exists_cons_of_ne_nil hne
  exact h

theorem digitChar_ne_zero : ∀ {n : Nat}, n < 10 → n ≠ 0 → Nat.digitChar n ≠ '0' := by
  decide

theorem all_isDigit_toDigits (n : Nat) : (Nat.toDigits 10 n).all Char.isDigit :=
  List.all_eq_true.2 fun _ hc => Nat.isDigit_of_mem_toDigits (by decide) (by decide) hc

/-- **Digits begin with a zero only for zero.** -/
theorem head?_toDigits_ne (n : Nat) (h : n ≠ 0) : (Nat.toDigits 10 n).head? ≠ some '0' := by
  by_cases hn : n < 10
  · rw [Nat.toDigits_of_lt_base hn, List.head?_cons, ne_eq, Option.some.injEq]
    exact digitChar_ne_zero hn h
  · have ih := head?_toDigits_ne (n / 10) (by omega)
    rw [Nat.toDigits_of_base_le (by decide) (by omega)]
    exact head?_append_ne Nat.toDigits_ne_nil ih

theorem isWhole_toDigits (n : Nat) : IsWhole (Nat.toDigits 10 n) := by
  by_cases h : n = 0
  · exact .inl (h ▸ Nat.toDigits_zero 10)
  · exact .inr ⟨all_isDigit_toDigits n, Nat.toDigits_ne_nil, head?_toDigits_ne n h⟩

/-! ## Numerals -/

namespace Numeral

/-- A numeral as the grammar of numbers has it. -/
structure Valid (n : Numeral) : Prop where
  whole : IsWhole n.whole
  fraction : n.fraction.all Char.isDigit

/-- The characters of a numeral: sign, digits, point and digits, mark and exponent. -/
theorem toList_text (n : Numeral) : n.text.toList
    = (if n.negative then ['-'] else []) ++ n.whole
      ++ (if n.fraction.isEmpty then [] else '.' :: n.fraction)
      ++ match n.exponent with
        | none => []
        | some e => 'e' :: (if e < 0 then '-' else '+') :: Nat.toDigits 10 e.natAbs := by
  rw [text, String.toList_append, String.toList_append, String.toList_append, String.toList_ofList]
  congr 1
  · congr 1
    · cases n.negative <;> rfl
    · cases n.fraction.isEmpty <;> simp
  · cases n.exponent with
    | none => rfl
    | some e => by_cases he : e < 0 <;> simp [exponentText, he]

/-- **A numeral has no character beside digits, signs, the point and the mark.** -/
theorem Valid.mem_text {n : Numeral} (h : n.Valid) {c : Char} (hc : c ∈ n.text.toList) :
    c.isDigit ∨ c = '-' ∨ c = '+' ∨ c = '.' ∨ c = 'e' := by
  rw [toList_text] at hc
  rcases List.mem_append.1 hc with hc | hc
  · rcases List.mem_append.1 hc with hc | hc
    · rcases List.mem_append.1 hc with hc | hc
      · split at hc <;> simp_all
      · exact .inl (List.all_eq_true.1 h.whole.all_isDigit c hc)
    · split at hc
      · simp at hc
      · rcases List.mem_cons.1 hc with hc | hc
        · simp [hc]
        · exact .inl (List.all_eq_true.1 h.fraction c hc)
  · split at hc
    · simp at hc
    · rcases List.mem_cons.1 hc with hc | hc
      · simp [hc]
      · rcases List.mem_cons.1 hc with hc | hc
        · split at hc <;> simp [hc]
        · exact .inl (List.all_eq_true.1 (all_isDigit_toDigits _) c hc)

end Numeral

namespace Layout

variable {digits : List Char}

/-- Zeros behind digits are digits… -/
theorem all_isDigit_append_zeros (h : digits.all Char.isDigit) (n : Nat) :
    (digits ++ List.replicate n '0').all Char.isDigit := by
  rw [List.all_append, h, List.all_replicate]
  cases n <;> rfl

/-- …as they are before them. -/
theorem all_isDigit_zeros_append (h : digits.all Char.isDigit) (n : Nat) :
    (List.replicate n '0' ++ digits).all Char.isDigit := by
  rw [List.all_append, h, List.all_replicate]
  cases n <;> rfl

theorem all_isDigit_take (h : digits.all Char.isDigit) (n : Nat) :
    (digits.take n).all Char.isDigit :=
  List.all_eq_true.2 fun c hc => List.all_eq_true.1 h c (List.mem_of_mem_take hc)

theorem all_isDigit_drop (h : digits.all Char.isDigit) (n : Nat) :
    (digits.drop n).all Char.isDigit :=
  List.all_eq_true.2 fun c hc => List.all_eq_true.1 h c (List.mem_of_mem_drop hc)

/-- Digits that do not begin with a zero are written out with no zero before the point but one
alone. -/
theorem valid_plain (layout : Layout) (negative : Bool) (exponent : Int)
    (hdigits : digits.all Char.isDigit) (hne : digits ≠ []) (hhead : digits.head? ≠ some '0') :
    (layout.plain negative digits exponent).Valid := by
  simp only [plain]
  split
  · refine ⟨.inr ⟨all_isDigit_append_zeros hdigits _, by simp [hne], head?_append_ne hne hhead⟩, ?_⟩
    cases layout.pointZero <;> rfl
  · split
    · next hwhole =>
      refine ⟨.inr ⟨all_isDigit_take hdigits _, ?_, ?_⟩, all_isDigit_drop hdigits _⟩
      · rw [ne_eq, List.take_eq_nil_iff]
        rintro (h | h)
        · omega
        · exact hne h
      · rwa [List.head?_take, if_neg (by omega)]
    · exact ⟨.inl rfl, all_isDigit_zeros_append hdigits _⟩

/-- A marked numeral begins with the first digit, which must not be zero. -/
theorem valid_marked (negative : Bool) (leading : Int) (hdigits : digits.all Char.isDigit)
    (hne : digits ≠ []) (hhead : digits.head? ≠ some '0') :
    (marked negative digits leading).Valid := by
  refine ⟨.inr ⟨all_isDigit_take hdigits _, ?_, ?_⟩, all_isDigit_drop hdigits _⟩
  · simpa [marked, List.take_eq_nil_iff] using hne
  · simpa [marked, List.head?_take] using hhead

/-- **Every layout writes valid numerals.** -/
theorem valid_numeral (layout : Layout) (negative : Bool) {d : Decimal} (h : d.coefficient ≠ 0) :
    (layout.numeral negative d).Valid := by
  have hhead := head?_toDigits_ne d.coefficient h
  simp only [numeral]
  split
  · exact valid_plain layout negative _ (all_isDigit_toDigits _) Nat.toDigits_ne_nil hhead
  · exact valid_marked negative _ (all_isDigit_toDigits _) Nat.toDigits_ne_nil hhead

end Layout

/-- **What is written for a double**: `null` if it is not finite, a zero without a sign, or a valid
numeral. -/
theorem Value.floatText_cases (x : Float) : floatText x = "null" ∨ floatText x = "0"
    ∨ ∃ n : Numeral, n.Valid ∧ floatText x = n.text := by
  unfold floatText
  cases hfinite : x.isFinite with
  | false => exact .inl rfl
  | true =>
    cases hzero : x == 0.0 with
    | true => exact .inr (.inl rfl)
    | false =>
      refine .inr (.inr ⟨_, ?_, rfl⟩)
      exact Layout.valid_numeral _ _ (Double.coefficient_shortest_ne_zero hzero)

end QueryTree

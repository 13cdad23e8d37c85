import QueryTree.Proofs.Reading.Word

/-!
# Proofs/Reading/Numeral — numerals are read as they were written

The parts of a numeral are a sign, digits, digits behind a point and digits behind a mark. What
follows a part begins otherwise, so each is read to its end, and the whole numeral is read as it was
written (`Numeral.scan_text`), up to what cannot belong to it.
-/

namespace QueryTree

/-- A whole number begins with a digit. -/
theorem IsWhole.exists_cons {digits : List Char} (h : IsWhole digits) :
    ∃ c cs, digits = c :: cs ∧ c.isDigit := by
  have hall := h.all_isDigit
  have hne : digits ≠ [] := by
    rcases h with rfl | h
    · exact List.cons_ne_nil _ _
    · exact h.2.1
  obtain ⟨c, cs, rfl⟩ := List.exists_cons_of_ne_nil hne
  rw [List.all_cons, Bool.and_eq_true] at hall
  exact ⟨c, cs, rfl, hall.1⟩

namespace Numeral

/-- The numeral of an integer. -/
def ofInt (n : Int) : Numeral where
  negative := n < 0
  whole := Nat.toDigits 10 n.natAbs
  fraction := []
  exponent := none

/-- What may follow an integer, or any other numeral. -/
def IntEnds (rest : List Char) : Prop :=
  ∀ c ∈ rest.head?, c.isDigit = false ∧ c ≠ '.' ∧ c ≠ 'e' ∧ c ≠ 'E'

/-- The fraction of a numeral, with its point. -/
def fractionChars (fraction : List Char) : List Char :=
  if fraction.isEmpty then [] else '.' :: fraction

/-- The exponent of a numeral, with its mark and sign. -/
def exponentChars : Option Int → List Char
  | none => []
  | some e => 'e' :: (if e < 0 then '-' else '+') :: Nat.toDigits 10 e.natAbs

theorem toList_text_eq (n : Numeral) : n.text.toList
    = (if n.negative then ['-'] else []) ++ (n.whole ++ (fractionChars n.fraction
      ++ exponentChars n.exponent)) := by
  rw [toList_text, List.append_assoc, List.append_assoc]
  congr 3

/-- The text of the numeral of an integer is that of the integer. -/
theorem toList_text_ofInt (n : Int) : (ofInt n).text.toList = n.repr.toList := by
  rw [toList_text_eq, toList_repr_int]
  simp [ofInt, fractionChars, exponentChars]

theorem valid_ofInt (n : Int) : (ofInt n).Valid :=
  ⟨isWhole_toDigits _, rfl⟩

/-! ## The parts -/

variable {rest : List Char}

theorem IntEnds.ends (h : IntEnds rest) : Ends Char.isDigit rest :=
  fun c hc => (h c hc).1

/-- What follows an integer is no part of it. -/
theorem IntEnds.scan_rest (h : IntEnds rest) :
    scanFraction rest = some ([], rest) ∧ scanExponent rest = some (none, rest) := by
  cases rest with
  | nil => exact ⟨rfl, rfl⟩
  | cons c rest =>
    obtain ⟨-, hpoint, hmark⟩ := h c rfl
    simp [scanFraction, scanExponent, hpoint, hmark]

theorem scanDigits?_append {digits : List Char} (h : digits.all Char.isDigit) (hne : digits ≠ [])
    (hrest : Ends Char.isDigit rest) : scanDigits? (digits ++ rest) = some (digits, rest) := by
  obtain ⟨htake, hdrop⟩ := takeWhile_append_of_ends h hrest
  obtain ⟨c, cs, rfl⟩ := List.exists_cons_of_ne_nil hne
  rw [scanDigits?, htake, hdrop]

/-- Whole numbers are read to their last digit. -/
theorem scanWhole_append {digits : List Char} (h : IsWhole digits)
    (hrest : Ends Char.isDigit rest) : scanWhole (digits ++ rest) = some (digits, rest) := by
  rcases h with rfl | ⟨hall, hne, hhead⟩
  · rfl
  · obtain ⟨c, cs, rfl⟩ := List.exists_cons_of_ne_nil hne
    have hc : c ≠ '0' := by simpa using hhead
    rw [← scanDigits?_append hall hne hrest, scanWhole]
    simpa using hc

theorem scanMinus_append (negative : Bool) {digits : List Char} (h : IsWhole digits) :
    scanMinus ((if negative then ['-'] else []) ++ (digits ++ rest))
      = (negative, digits ++ rest) := by
  cases negative with
  | true => rfl
  | false =>
    obtain ⟨c, cs, rfl, hc⟩ := h.exists_cons
    have hminus : c ≠ '-' := by
      rintro rfl
      exact absurd hc (by decide)
    simp [scanMinus, hminus]

theorem scanExponent_append (exponent : Option Int) (hrest : IntEnds rest) :
    scanExponent (exponentChars exponent ++ rest) = some (exponent, rest) := by
  cases exponent with
  | none => exact hrest.scan_rest.2
  | some e =>
    have hall := all_isDigit_toDigits e.natAbs
    have hdigits := scanDigits?_append hall Nat.toDigits_ne_nil hrest.ends
    have hmark : 'e' = 'e' ∨ 'e' = 'E' := .inl rfl
    rw [exponentChars, List.cons_append, scanExponent, if_pos hmark, List.cons_append]
    by_cases he : e < 0
    · have habs : -(e.natAbs : Int) = e := by omega
      rw [if_pos he, scanSign, hdigits]
      simp only [Option.bind_eq_bind, Option.bind_some, Nat.ofDigitChars_ten_toDigits, if_true,
        habs]
      rfl
    · have habs : (e.natAbs : Int) = e := by omega
      rw [if_neg he, scanSign, hdigits]
      simp only [Option.bind_eq_bind, Option.bind_some, Nat.ofDigitChars_ten_toDigits,
        Bool.false_eq_true, if_false, habs]
      rfl

/-- Behind a whole number there is no digit. -/
theorem ends_fractionChars (fraction : List Char) (exponent : Option Int) (hrest : IntEnds rest) :
    Ends Char.isDigit (fractionChars fraction ++ (exponentChars exponent ++ rest)) := by
  rw [fractionChars]
  split
  · cases exponent with
    | none => exact hrest.ends
    | some e => exact ends_cons.2 rfl
  · exact ends_cons.2 rfl

theorem scanFraction_append {fraction : List Char} (h : fraction.all Char.isDigit)
    (exponent : Option Int) (hrest : IntEnds rest) :
    scanFraction (fractionChars fraction ++ (exponentChars exponent ++ rest))
      = some (fraction, exponentChars exponent ++ rest) := by
  cases fraction with
  | nil =>
    cases exponent with
    | none => exact hrest.scan_rest.1
    | some e => rfl
  | cons c cs =>
    have hends : Ends Char.isDigit (exponentChars exponent ++ rest) :=
      ends_fractionChars [] exponent hrest
    exact scanDigits?_append h (List.cons_ne_nil c cs) hends

/-- **A numeral is read as it was written**, up to what cannot belong to it. -/
theorem scan_text {n : Numeral} (h : n.Valid) (hrest : IntEnds rest) :
    scan (n.text.toList ++ rest) = some (n, rest) := by
  have hwhole := scanWhole_append h.whole (ends_fractionChars n.fraction n.exponent hrest)
  rw [toList_text_eq, List.append_assoc, List.append_assoc, List.append_assoc, scan,
    scanMinus_append n.negative h.whole, hwhole]
  simp only [Option.bind_eq_bind, Option.bind_some, scanFraction_append h.fraction n.exponent hrest,
    scanExponent_append n.exponent hrest]
  rfl

/-- **An integer is read as it was written.** -/
theorem scan_repr (n : Int) (hrest : IntEnds rest) :
    scan (n.repr.toList ++ rest) = some (ofInt n, rest) := by
  rw [← toList_text_ofInt]
  exact scan_text (valid_ofInt n) hrest

/-! ## The mark of the exponent -/

/-- A character that is not in the front of a text is behind it. -/
theorem exists_eq_append_cons_of_not_mem {c : Char} {tail after : List Char} :
    ∀ {front before : List Char}, c ∉ front → front ++ tail = before ++ c :: after →
      ∃ cs, tail = cs ++ c :: after
  | [], before, _, heq => ⟨before, heq⟩
  | _ :: _, [], hfront, heq => by
      obtain ⟨rfl, -⟩ := List.cons.inj heq
      exact absurd List.mem_cons_self hfront
  | _ :: _, _ :: _, hfront, heq =>
      exists_eq_append_cons_of_not_mem (mt (List.mem_cons_of_mem _) hfront) (List.cons.inj heq).2

theorem mark_notMem_digits {cs : List Char} (h : cs.all Char.isDigit) : 'e' ∉ cs :=
  fun hmem => absurd (List.all_eq_true.1 h 'e' hmem) (by decide)

theorem head?_of_exponentChars {exponent : Option Int} {before after : List Char}
    (heq : exponentChars exponent = before ++ 'e' :: after) :
    after.head? = some '+' ∨ after.head? = some '-' := by
  cases exponent with
  | none => simp [exponentChars] at heq
  | some e =>
    rw [exponentChars] at heq
    cases before with
    | nil =>
      obtain ⟨-, rfl⟩ := List.cons.inj heq
      by_cases he : e < 0 <;> simp [he]
    | cons c before =>
      have hmem : 'e' ∈ (if e < 0 then '-' else '+') :: Nat.toDigits 10 e.natAbs := by
        rw [(List.cons.inj heq).2]
        simp
      rcases List.mem_cons.1 hmem with hsign | hmem
      · split at hsign <;> exact absurd hsign (by decide)
      · exact absurd hmem (mark_notMem_digits (all_isDigit_toDigits _))

/-- **An exponent carries a sign.** Its mark stands nowhere else. -/
theorem Valid.sign_of_mark {n : Numeral} (h : n.Valid) {before after : List Char} {mark : Char}
    (heq : n.text.toList = before ++ mark :: after) (hmark : mark = 'e' ∨ mark = 'E') :
    after.head? = some '+' ∨ after.head? = some '-' := by
  obtain rfl : mark = 'e' := by
    have hmem : mark ∈ n.text.toList := by simp [heq]
    rcases hmark with rfl | rfl
    · rfl
    · exact absurd (h.mem_text hmem) (by decide)
  have hminus : 'e' ∉ if n.negative then ['-'] else [] := by cases n.negative <;> decide
  have hfraction : 'e' ∉ fractionChars n.fraction := by
    have := mark_notMem_digits h.fraction
    rw [fractionChars]
    split <;> simp_all
  rw [toList_text_eq] at heq
  obtain ⟨_, heq⟩ := exists_eq_append_cons_of_not_mem hminus heq
  obtain ⟨_, heq⟩ := exists_eq_append_cons_of_not_mem (mark_notMem_digits h.whole.all_isDigit) heq
  obtain ⟨_, heq⟩ := exists_eq_append_cons_of_not_mem hfraction heq
  exact head?_of_exponentChars heq

end Numeral

end QueryTree

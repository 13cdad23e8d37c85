import QueryTree.Proofs.Nearest
import QueryTree.Proofs.Reading.Numeral
import QueryTree.Proofs.Shortest.Search

/-!
# Proofs/Denotation — what the text of a double denotes

A layout moves the point of a decimal and fills gaps with zeros, and the number stays the same
(`Layout.toRat_numeral`). So the text of a double denotes the decimal that is chosen for it. Nothing
is used of the choice but that it is shortest (`Double.ChoosesShortest`), so that it reads back as
the double: doubles with one text are the same (`Value.text_float_denotes`).
-/

namespace QueryTree

/-! ## What a layout denotes -/

namespace Decimal

/-- Zeros behind the digits move the point. -/
theorem toRat_zeros (c : Nat) (p : Int) : ∀ n : Nat,
    toRat ⟨Nat.ofDigitChars 10 (List.replicate n '0') c, p - n⟩ = toRat ⟨c, p⟩
  | 0 => by simp
  | n + 1 => by
      have hzero : Nat.ofDigitChars 10 (List.replicate (n + 1) '0') c
          = Nat.ofDigitChars 10 (List.replicate n '0') (10 * c) := rfl
      have ih := toRat_zeros (10 * c) (p - 1) n
      rw [toRat_mul_ten] at ih
      rw [hzero, show p - (n + 1 : Nat) = p - 1 - n by omega, ih, Int.sub_add_cancel]

/-- The last digit is that of the coefficient. -/
theorem getLast?_digits {d : Decimal} (h : d.coefficient % 10 ≠ 0) :
    d.digits.getLast? ≠ some '0' := by
  have hlast := digitChar_ne_zero (Nat.mod_lt d.coefficient (by decide)) h
  rw [digits, Nat.toDigits_eq_if (by decide)]
  split
  · next hlt =>
    rw [Nat.mod_eq_of_lt hlt] at hlast
    simpa using hlast
  · simpa using hlast

end Decimal

/-- A numeral with the digits of a decimal, between zeros that its exponent allows for, denotes the
decimal. -/
theorem Numeral.toRat_toDecimal {n : Numeral} {d : Decimal} (front back : Nat)
    (hdigits : n.whole ++ n.fraction
      = List.replicate front '0' ++ (d.digits ++ List.replicate back '0'))
    (hexponent : n.exponent.getD 0 - n.fraction.length = d.exponent - back) :
    n.toDecimal.toRat = d.toRat := by
  rw [toDecimal, hdigits, hexponent, Nat.ofDigitChars_append, Nat.ofDigitChars_replicate_zero,
    Nat.mul_zero, Nat.ofDigitChars_append, Decimal.digits, Nat.ofDigitChars_ten_toDigits]
  exact Decimal.toRat_zeros _ _ _

namespace Layout

theorem negative_plain (layout : Layout) (negative : Bool) (digits : List Char) (exponent : Int) :
    (layout.plain negative digits exponent).negative = negative := by
  simp only [plain]
  split
  · rfl
  · split <;> rfl

theorem exponent_plain (layout : Layout) (negative : Bool) (digits : List Char) (exponent : Int) :
    (layout.plain negative digits exponent).exponent = none := by
  simp only [plain]
  split
  · rfl
  · split <;> rfl

theorem toRat_plain (layout : Layout) (negative : Bool) (d : Decimal) :
    (layout.plain negative d.digits d.exponent).toDecimal.toRat = d.toRat := by
  simp only [plain]
  split
  · -- zeros behind the digits, one of them behind the point if there is one
    cases layout.pointZero with
    | false => exact Numeral.toRat_toDecimal 0 d.exponent.toNat (by simp) (by simp; omega)
    | true =>
      refine Numeral.toRat_toDecimal 0 (d.exponent.toNat + 1) ?_ (by simp; omega)
      simp [List.replicate_succ']
  · split
    · -- the point among the digits
      refine Numeral.toRat_toDecimal 0 0 (by simp) ?_
      simp
      omega
    · -- the point and zeros before the digits
      refine Numeral.toRat_toDecimal ((-(d.digits.length + d.exponent)).toNat + 1) 0 ?_ ?_
      · simp [List.replicate_succ]
      · simp
        omega

theorem toRat_marked (negative : Bool) (d : Decimal) :
    (marked negative d.digits d.leading).toDecimal.toRat = d.toRat := by
  have hlength : 0 < d.digits.length := Nat.length_toDigits_pos
  refine Numeral.toRat_toDecimal 0 0 ?_ ?_
  · simp only [marked, List.take_append_drop]
    simp
  · simp [marked, Decimal.leading]
    omega

/-- A layout looks at the exponent of the first digit. -/
theorem numeral_eq (layout : Layout) (negative : Bool) (d : Decimal) : layout.numeral negative d
    = if layout.leastPlain ≤ d.leading ∧ d.leading ≤ layout.mostPlain then
        layout.plain negative d.digits d.exponent
      else
        marked negative d.digits d.leading := rfl

theorem negative_numeral (layout : Layout) (negative : Bool) (d : Decimal) :
    (layout.numeral negative d).negative = negative := by
  rw [numeral_eq]
  split
  · exact negative_plain _ _ _ _
  · rfl

theorem toRat_toDecimal_numeral (layout : Layout) (negative : Bool) (d : Decimal) :
    (layout.numeral negative d).toDecimal.toRat = d.toRat := by
  rw [numeral_eq]
  split
  · exact toRat_plain _ _ _
  · exact toRat_marked _ _

/-- **What a layout writes denotes the decimal.** -/
theorem toRat_numeral (layout : Layout) (negative : Bool) (d : Decimal) :
    (layout.numeral negative d).toRat = if negative then -d.toRat else d.toRat := by
  rw [Numeral.toRat, toRat_toDecimal_numeral, negative_numeral]

/-- Just the numbers outside the plain range have an exponent. -/
theorem exponent_numeral_eq_none_iff (layout : Layout) (negative : Bool) (d : Decimal) :
    (layout.numeral negative d).exponent = none
      ↔ layout.leastPlain ≤ d.leading ∧ d.leading ≤ layout.mostPlain := by
  rw [numeral_eq]
  split
  · next hplain => exact iff_of_true (exponent_plain _ _ _ _) hplain
  · next hmarked => exact iff_of_false (Option.some_ne_none _) hmarked

variable {layout : Layout} {digits : List Char}

/-- What is behind a place of the digits is empty or ends as they do. -/
theorem drop_cases (digits : List Char) (n : Nat) : digits.length ≤ n ∧ digits.drop n = []
    ∨ n < digits.length ∧ digits.drop n ≠ [] ∧ (digits.drop n).getLast? = digits.getLast? := by
  by_cases h : digits.length ≤ n
  · exact .inl ⟨h, List.drop_eq_nil_of_le h⟩
  · refine .inr ⟨by omega, ?_, ?_⟩
    · rwa [ne_eq, List.drop_eq_nil_iff]
    · rw [List.getLast?_drop, if_neg h]

/-- Where a whole number has no point, only digits below the ones are behind it. -/
theorem fraction_plain (hpoint : layout.pointZero = false) (hne : digits ≠ []) (negative : Bool)
    (exponent : Int) :
    0 ≤ exponent ∧ (layout.plain negative digits exponent).fraction = []
      ∨ exponent < 0 ∧ (layout.plain negative digits exponent).fraction ≠ []
        ∧ (layout.plain negative digits exponent).fraction.getLast? = digits.getLast? := by
  have hlength := List.length_pos_iff.2 hne
  simp only [plain]
  split
  · next hexponent =>
    rw [hpoint]
    exact .inl ⟨hexponent, rfl⟩
  · next hexponent =>
    refine .inr ⟨by omega, ?_⟩
    split
    · rcases drop_cases digits (digits.length + exponent).toNat with hdrop | hdrop
      · omega
      · exact hdrop.2
    · refine ⟨by simp [hne], ?_⟩
      rw [List.getLast?_append, List.getLast?_eq_some_getLast hne]
      rfl

/-- A numeral has a fraction just if a digit is behind the point, and then ends with the last. -/
theorem fraction_numeral (hpoint : layout.pointZero = false) (negative : Bool) {d : Decimal}
    (hlast : d.digits.getLast? ≠ some '0') :
    ((layout.numeral negative d).fraction ≠ [] ↔
      if (layout.numeral negative d).exponent = none then d.leading + 1 < d.digits.length
      else 1 < d.digits.length)
    ∧ (layout.numeral negative d).fraction.getLast? ≠ some '0' := by
  have hleading : d.leading = d.exponent + d.digits.length - 1 := rfl
  rw [numeral_eq]
  split
  · rw [exponent_plain, if_pos rfl]
    have hne : d.digits ≠ [] := Nat.toDigits_ne_nil
    rcases fraction_plain hpoint hne negative d.exponent with
      ⟨hexponent, hnil⟩ | ⟨hexponent, hne, hend⟩
    · rw [hnil]
      exact ⟨iff_of_false (not_not_intro rfl) (by omega), by simp⟩
    · exact ⟨iff_of_true hne (by omega), by rwa [hend]⟩
  · have hmarked : (marked negative d.digits d.leading).exponent ≠ none := Option.some_ne_none _
    rw [if_neg hmarked]
    change (d.digits.drop 1 ≠ [] ↔ _) ∧ (d.digits.drop 1).getLast? ≠ _
    rcases drop_cases d.digits 1 with ⟨hle, hnil⟩ | ⟨hlt, hne, hend⟩
    · rw [hnil]
      exact ⟨iff_of_false (not_not_intro rfl) (by omega), by simp⟩
    · exact ⟨iff_of_true hne hlt, by rwa [hend]⟩

end Layout

/-! ## The text of a double -/

/-- A text is the numeral of a decimal with this sign, written out in full from `10 ^ -6` up to
`10 ^ 20` and with a signed exponent elsewhere, with a fraction just if a digit is behind the point
and no zero at its end. -/
structure Numeral.Spells (n : Numeral) (negative : Bool) (d : Decimal) (s : String) : Prop where
  scan : Numeral.scan s.toList = some (n, [])
  value : n.toRat = if negative then -d.toRat else d.toRat
  plain : n.exponent = none ↔ -6 ≤ d.leading ∧ d.leading ≤ 20
  signed : ∀ before mark after, s.toList = before ++ mark :: after → mark = 'e' ∨ mark = 'E' →
    after.head? = some '+' ∨ after.head? = some '-'
  fraction : n.fraction ≠ [] ↔
    if n.exponent = none then d.leading + 1 < d.digits.length else 1 < d.digits.length
  trailing : n.fraction.getLast? ≠ some '0'

/-- What is chosen for a double is a shortest decimal, but for the zeros and what is not finite. -/
def Double.ChoosesShortest (choice : Float → Decimal) : Prop :=
  ∀ x : Float, x.isFinite = true → (x == 0.0) = false → IsShortest x (choice x)

namespace Value

/-- A decimal without a trailing zero has none behind the point. -/
theorem spells_numeral (negative : Bool) {d : Decimal} (h : d.coefficient % 10 ≠ 0) :
    (floatLayout.numeral negative d).Spells negative d (floatLayout.numeral negative d).text := by
  have hcoefficient : d.coefficient ≠ 0 := fun hzero => h (by rw [hzero])
  have hvalid := Layout.valid_numeral floatLayout negative hcoefficient
  have hlast := Decimal.getLast?_digits h
  have hends : Numeral.IntEnds [] := by simp [Numeral.IntEnds]
  have hscan := Numeral.scan_text hvalid hends
  rw [List.append_nil] at hscan
  have hplain := Layout.exponent_numeral_eq_none_iff floatLayout negative d
  have hpoint : floatLayout.pointZero = false := rfl
  obtain ⟨hfraction, htrailing⟩ := Layout.fraction_numeral hpoint negative hlast
  exact ⟨hscan, Layout.toRat_numeral _ _ _, hplain, fun _ _ _ => hvalid.sign_of_mark, hfraction,
    htrailing⟩

/-- The text of a double with the digits of that choice. -/
def floatTextBy (choice : Float → Decimal) (x : Float) : String :=
  if !x.isFinite then "null"
  else if x == 0.0 then "0"
  else (floatLayout.numeral (Double.isNegative x) (choice x)).text

theorem text_float (x : Float) : (float x).text = floatTextBy Double.shortest x := by
  change "" ++ floatText x = _
  rw [String.empty_append]
  rfl

section Choice

variable {choice : Float → Decimal} {x : Float}

theorem floatTextBy_eq (hfinite : x.isFinite = true) (hzero : (x == 0.0) = false) :
    floatTextBy choice x = (floatLayout.numeral (Double.isNegative x) (choice x)).text := by
  rw [floatTextBy, hfinite, hzero]
  rfl

/-- The text of a double is read as a numeral nearest to the double. -/
theorem exists_spells_floatTextBy (hfinite : x.isFinite = true) (hzero : (x == 0.0) = false)
    (hshortest : Double.IsShortest x (choice x)) :
    ∃ n : Numeral, n.Spells (Double.isNegative x) (choice x) (floatTextBy choice x)
      ∧ n.toFloat = x := by
  rw [floatTextBy_eq hfinite hzero]
  refine ⟨_, spells_numeral _ hshortest.trailing_ne_zero, ?_⟩
  have hbits := Double.readsBack_iff.1 hshortest.readsBack
  have hnegative := Layout.negative_numeral floatLayout (Double.isNegative x) (choice x)
  rw [Numeral.toFloat, Layout.toRat_toDecimal_numeral, hnegative]
  exact Double.nearest_eq_of_nearestBits_eq hfinite hbits

/-- No double is nearer to a decimal that reads back as this one. -/
theorem distance_choice_le (hfinite : x.isFinite = true)
    (hshortest : Double.IsShortest x (choice x)) (y : Float) :
    distance (Double.magnitude x) (choice x).toRat
      ≤ distance (Double.magnitude y) (choice x).toRat := by
  have hpos : 0 < (choice x).toRat :=
    Rat.mul_pos (Rat.natCast_pos.2 (Nat.pos_of_ne_zero hshortest.coefficient_ne_zero))
      (ten_zpow_pos _)
  have hbits := Double.readsBack_iff.1 hshortest.readsBack
  have hnearest := Double.distance_nearestBits_le hpos (hbits ▸ Double.magnitudeBits_lt hfinite)
    (Double.magnitudeBits y)
  rwa [hbits] at hnearest

end Choice

/-- **The text of a double denotes its shortest decimal**, whichever that is: if several are
shortest, the choice of one for each double is free, and `Double.shortest` is a choice. To the
decimal no double is nearer, so the text reads back as the double. Hence no two doubles have one
text, but the zeros and what is not finite. -/
theorem text_float_denotes :
    Double.ChoosesShortest Double.shortest
      ∧ (∀ x : Float, (float x).text = floatTextBy Double.shortest x)
      ∧ ∀ {choice : Float → Decimal}, Double.ChoosesShortest choice →
        ∀ {x : Float}, x.isFinite = true → (x == 0.0) = false →
          (choice x).digits.head? ≠ some '0' ∧ (choice x).digits.getLast? ≠ some '0'
            ∧ (∃ n : Numeral, n.Spells (Double.isNegative x) (choice x) (floatTextBy choice x)
              ∧ n.toFloat = x)
            ∧ (∀ y : Float, distance (Double.magnitude x) (choice x).toRat
              ≤ distance (Double.magnitude y) (choice x).toRat)
            ∧ ∀ y : Float, y.isFinite = true → (y == 0.0) = false →
              floatTextBy choice y = floatTextBy choice x → y = x := by
  refine ⟨fun x => Double.isShortest_shortest, text_float, fun {choice} h {x} hfinite hzero => ?_⟩
  have hshortest := h x hfinite hzero
  obtain ⟨n, hn, hx⟩ := exists_spells_floatTextBy hfinite hzero hshortest
  refine ⟨head?_toDigits_ne _ hshortest.coefficient_ne_zero,
    Decimal.getLast?_digits hshortest.trailing_ne_zero, ⟨n, hn, hx⟩,
    distance_choice_le hfinite hshortest, fun y hyfinite hyzero htext => ?_⟩
  obtain ⟨m, hm, hy⟩ := exists_spells_floatTextBy hyfinite hyzero (h y hyfinite hyzero)
  have hscan := hm.scan
  rw [htext, hn.scan] at hscan
  obtain rfl : n = m := by simpa using hscan
  exact hy.symm.trans hx

/-- Seventeen digits and an exponent, and a double nearby with sixteen. -/
theorem text_float_denotes_thirds :
    (float (-3.3333333333333334e-8)).text = "-3.3333333333333334e-8"
      ∧ (∃ n : Numeral, n.Spells true ⟨33333333333333334, -24⟩ "-3.3333333333333334e-8"
        ∧ n.toFloat = -3.3333333333333334e-8)
      ∧ (float (-3.333333333333333e-8)).text ≠ (float (-3.3333333333333334e-8)).text := by
  have htext : (float (-3.3333333333333334e-8)).text = "-3.3333333333333334e-8" := by
    decide +kernel
  have hshortest : Double.shortest (-3.3333333333333334e-8) = ⟨33333333333333334, -24⟩ := by
    decide +kernel
  have hnegative : Double.isNegative (-3.3333333333333334e-8) = true := by decide
  obtain ⟨hchoice, htexts, hdenotes⟩ := text_float_denotes
  obtain ⟨-, -, hspells, -, hinj⟩ :=
    hdenotes hchoice (x := -3.3333333333333334e-8) (by decide) (by decide)
  rw [hnegative, hshortest, ← htexts, htext] at hspells
  refine ⟨htext, hspells, fun heq => ?_⟩
  rw [htexts, htexts] at heq
  have hne : (-3.333333333333333e-8 : Float) ≠ -3.3333333333333334e-8 := by decide
  exact hne (hinj _ (by decide) (by decide) heq)

end Value

end QueryTree

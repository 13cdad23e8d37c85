import QueryTree.Decimal.Basic
import QueryTree.Decimal.Double

/-!
# Decimal/Numeral — numbers as they are written

A numeral is the spelling of a JSON number: a sign, the digits before and after the point, and an
exponent. `Numeral.text` writes one, `Numeral.scan` reads one, and `Numeral.toRat` is the number it
denotes. A numeral with neither a point nor an exponent is an integer.
-/

namespace QueryTree

/-- A written number. Without digits after it there is no point. -/
structure Numeral where
  negative : Bool
  whole : List Char
  fraction : List Char
  exponent : Option Int
deriving DecidableEq

namespace Numeral

/-- An exponent with its mark and, always, its sign. -/
def exponentText (e : Int) : String :=
  (if e < 0 then "e-" else "e+") ++ Nat.repr e.natAbs

/-- The spelling of a numeral. -/
def text (n : Numeral) : String :=
  (if n.negative then "-" else "") ++ String.ofList n.whole
    ++ (if n.fraction.isEmpty then "" else "." ++ String.ofList n.fraction)
    ++ (match n.exponent with
      | none => ""
      | some e => exponentText e)

/-- The decimal of all the digits, without the sign. -/
def toDecimal (n : Numeral) : Decimal where
  coefficient := Nat.ofDigitChars 10 (n.whole ++ n.fraction) 0
  exponent := n.exponent.getD 0 - n.fraction.length

/-- The number a numeral denotes. -/
def toRat (n : Numeral) : Rat :=
  if n.negative then -n.toDecimal.toRat else n.toDecimal.toRat

/-- Whether the numeral has neither a point nor an exponent. -/
def isInteger (n : Numeral) : Bool :=
  n.fraction.isEmpty && n.exponent.isNone

/-- The double nearest the number, with the sign of the numeral even at zero. -/
def toFloat (n : Numeral) : Float :=
  Double.nearest n.negative n.toDecimal.toRat

/-! ## Reading -/

/-- The longest run of digits, which must not be empty, and what follows it. -/
def scanDigits? (cs : List Char) : Option (List Char × List Char) :=
  match cs.takeWhile Char.isDigit with
  | [] => none
  | digits => some (digits, cs.dropWhile Char.isDigit)

/-- A minus sign, if there is one. -/
def scanMinus : List Char → Bool × List Char
  | '-' :: rest => (true, rest)
  | cs => (false, cs)

/-- The digits before the point: a zero alone, or digits that do not begin with one. -/
def scanWhole : List Char → Option (List Char × List Char)
  | '0' :: rest => some (['0'], rest)
  | cs => scanDigits? cs

/-- The digits after the point. A point needs at least one. -/
def scanFraction : List Char → Option (List Char × List Char)
  | '.' :: rest => scanDigits? rest
  | cs => some ([], cs)

/-- The sign an exponent may have. -/
def scanSign : List Char → Bool × List Char
  | '-' :: rest => (true, rest)
  | '+' :: rest => (false, rest)
  | cs => (false, cs)

/-- An exponent, if there is one. Its mark needs at least one digit. -/
def scanExponent : List Char → Option (Option Int × List Char)
  | [] => some (none, [])
  | c :: rest =>
    if c = 'e' ∨ c = 'E' then do
      let (digits, after) ← scanDigits? (scanSign rest).2
      let e : Int := Nat.ofDigitChars 10 digits 0
      return (some (if (scanSign rest).1 then -e else e), after)
    else
      some (none, c :: rest)

/-- Reads a numeral, and what follows it. -/
def scan (cs : List Char) : Option (Numeral × List Char) := do
  let (whole, afterWhole) ← scanWhole (scanMinus cs).2
  let (fraction, afterFraction) ← scanFraction afterWhole
  let (exponent, after) ← scanExponent afterFraction
  return ({ negative := (scanMinus cs).1, whole, fraction, exponent }, after)

/-! ## Reading goes forward -/

/-- A run of digits is not empty, and what follows it is the rest of the text. -/
theorem eq_append_of_scanDigits? {cs digits after : List Char}
    (h : scanDigits? cs = some (digits, after)) : cs = digits ++ after ∧ digits ≠ [] := by
  unfold scanDigits? at h
  split at h
  · simp at h
  · next hne =>
    cases h
    exact ⟨List.takeWhile_append_dropWhile.symm, hne⟩

/-- So at least one digit is read. -/
theorem length_lt_of_scanDigits? {cs digits after : List Char}
    (h : scanDigits? cs = some (digits, after)) : after.length < cs.length := by
  obtain ⟨rfl, hne⟩ := eq_append_of_scanDigits? h
  have := List.length_pos_iff.2 hne
  simp only [List.length_append]
  omega

theorem length_scanMinus_le (cs : List Char) : (scanMinus cs).2.length ≤ cs.length := by
  fun_cases scanMinus cs <;> simp

theorem length_scanSign_le (cs : List Char) : (scanSign cs).2.length ≤ cs.length := by
  fun_cases scanSign cs <;> simp

/-- The whole part has a digit at least. -/
theorem length_lt_of_scanWhole {cs digits after : List Char}
    (h : scanWhole cs = some (digits, after)) : after.length < cs.length := by
  unfold scanWhole at h
  split at h
  · cases h
    simp
  · exact length_lt_of_scanDigits? h

/-- A fraction may be missing, and then nothing is read. -/
theorem length_le_of_scanFraction {cs digits after : List Char}
    (h : scanFraction cs = some (digits, after)) : after.length ≤ cs.length := by
  unfold scanFraction at h
  split at h
  · have := length_lt_of_scanDigits? h
    simp only [List.length_cons]
    omega
  · cases h
    exact Nat.le_refl _

/-- So may the exponent. -/
theorem length_le_of_scanExponent {cs after : List Char} {e : Option Int}
    (h : scanExponent cs = some (e, after)) : after.length ≤ cs.length := by
  unfold scanExponent at h
  split at h
  · cases h
    exact Nat.le_refl _
  · next c rest =>
    split at h
    · obtain ⟨⟨digits, tail⟩, hdigits, htail⟩ := Option.bind_eq_some_iff.1 h
      cases htail
      have := length_lt_of_scanDigits? hdigits
      have := length_scanSign_le rest
      simp only [List.length_cons]
      omega
    · cases h
      exact Nat.le_refl _

/-- **A numeral is never empty.** -/
theorem length_lt_of_scan {cs after : List Char} {n : Numeral} (h : scan cs = some (n, after)) :
    after.length < cs.length := by
  obtain ⟨⟨whole, cs₁⟩, hwhole, h⟩ := Option.bind_eq_some_iff.1 h
  obtain ⟨⟨fraction, cs₂⟩, hfraction, h⟩ := Option.bind_eq_some_iff.1 h
  obtain ⟨⟨exponent, cs₃⟩, hexponent, h⟩ := Option.bind_eq_some_iff.1 h
  cases h
  have := length_scanMinus_le cs
  have := length_lt_of_scanWhole hwhole
  have := length_le_of_scanFraction hfraction
  have := length_le_of_scanExponent hexponent
  omega

end Numeral

end QueryTree

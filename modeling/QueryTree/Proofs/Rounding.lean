import QueryTree.Proofs.Finite
import QueryTree.Proofs.Shortest

/-!
# Proofs/Rounding — the nearest double

A positive number stands between two powers of two, and that place fixes the spacing of the doubles
around it. Rounding respects the order of numbers (`nearestBits_mono`) and leaves a double as it is
(`nearestBits_ofMagnitudeBits`); so the numbers that round to one double are all those between any
two of them.
-/

namespace QueryTree

/-! ## Natural numbers -/

/-- Rounding never goes below the whole part. -/
theorem floor_le_roundEven (r : Rat) : r.floor.toNat ≤ roundEven r := by
  simp only [roundEven]
  split
  · exact Nat.le_refl _
  · split <;> omega

/-- A whole number is rounded to itself. -/
theorem roundEven_natCast (n : Nat) : roundEven n = n := by
  have hfloor : (n : Rat).floor = n := Rat.floor_intCast n
  have hhalf : (n : Rat) - n < 1 / 2 := by grind
  simp only [roundEven, hfloor, Int.toNat_natCast]
  rw [if_pos hhalf]

/-- **Rounding respects the order.** Numbers with one floor are told apart by what is left. -/
theorem roundEven_mono {r s : Rat} (h : r ≤ s) : roundEven r ≤ roundEven s := by
  have hfloor : r.floor.toNat ≤ s.floor.toNat := Int.toNat_le_toNat (Rat.floor_monotone h)
  rcases Nat.lt_or_eq_of_le hfloor with hlt | heq
  · calc roundEven r ≤ r.floor.toNat + 1 := Double.roundEven_le r
      _ ≤ s.floor.toNat := hlt
      _ ≤ roundEven s := floor_le_roundEven s
  · simp only [roundEven, heq]
    generalize s.floor.toNat = below
    grind

namespace Double

/-! ## Powers of two around a number -/

theorem two_zpow_pos (e : Int) : (0 : Rat) < (2 : Rat) ^ e :=
  Rat.zpow_pos (by decide)

theorem two_zpow_add_one (e : Int) : (2 : Rat) ^ (e + 1) = 2 * (2 : Rat) ^ e := by
  rw [Rat.zpow_add_one (by decide), Rat.mul_comm]

/-- A positive number times its denominator is its numerator. -/
theorem mul_den_eq {r : Rat} (h : 0 < r) : r * r.den = r.num.natAbs := by
  have hden : (r.den : Rat) ≠ 0 := Rat.ne_of_gt (Rat.natCast_pos.2 r.den_pos)
  have hnum : 0 ≤ r.num := Rat.num_nonneg.2 (Rat.le_of_lt h)
  have hdiv : r = r.num / r.den := by
    rw [← Rat.mkRat_eq_div, Rat.mkRat_self]
  have hcast : (r.num.natAbs : Rat) = r.num := by
    rw [← Rat.intCast_natCast, Int.natAbs_of_nonneg hnum]
  rw [hcast]
  conv => lhs; lhs; rw [hdiv]
  exact Rat.div_mul_cancel hden

/-- A positive number has a numerator that is not zero. -/
theorem num_ne_zero {r : Rat} (h : 0 < r) : r.num.natAbs ≠ 0 := by
  intro hzero
  have hnum : r.num = 0 := by omega
  exact Rat.ne_of_gt h (Rat.num_eq_zero.1 hnum)

/-- Numerator and denominator give the binade up to one. -/
theorem log2_bounds {r : Rat} (h : 0 < r) :
    (2 : Rat) ^ ((r.num.natAbs.log2 : Int) - r.den.log2 - 1) ≤ r
      ∧ r < (2 : Rat) ^ ((r.num.natAbs.log2 : Int) - r.den.log2 + 1) := by
  have hmul := mul_den_eq h
  have hnum := two_zpow_log2_le (num_ne_zero h)
  have hnum' := lt_two_zpow_log2 r.num.natAbs
  have hden := two_zpow_log2_le r.den_nz
  have hden' := lt_two_zpow_log2 r.den
  have hpos : (0 : Rat) < r.den := Rat.natCast_pos.2 r.den_pos
  generalize r.num.natAbs.log2 = a at *
  generalize r.den.log2 = b at *
  have hlow := two_zpow_pos ((a : Int) - b - 1)
  have hhigh := two_zpow_pos ((a : Int) - b + 1)
  constructor
  · have hsplit : (2 : Rat) ^ (a : Int)
        = (2 : Rat) ^ ((a : Int) - b - 1) * (2 : Rat) ^ ((b + 1 : Nat) : Int) := by
      rw [← Rat.zpow_add (by decide)]
      congr 1
      omega
    have hlt := Rat.mul_lt_mul_of_pos_left hden' hlow
    refine Rat.le_of_mul_le_mul_right ?_ hpos
    grind
  · have hsplit : (2 : Rat) ^ ((a + 1 : Nat) : Int)
        = (2 : Rat) ^ ((a : Int) - b + 1) * (2 : Rat) ^ (b : Int) := by
      rw [← Rat.zpow_add (by decide)]
      congr 1
      omega
    have hle := Rat.mul_le_mul_of_nonneg_left hden (Rat.le_of_lt hhigh)
    refine Rat.lt_of_mul_lt_mul_right ?_ (Rat.le_of_lt hpos)
    grind

/-- **A positive number stands in its binade**, from the power of two on and below its double. -/
theorem two_zpow_binade_le {r : Rat} (h : 0 < r) : (2 : Rat) ^ binade r ≤ r := by
  simp only [binade]
  split
  · exact (log2_bounds h).1
  · next hle => exact Rat.not_lt.1 hle

/-- …and below the next power of two. -/
theorem lt_two_zpow_binade {r : Rat} (h : 0 < r) : r < (2 : Rat) ^ (binade r + 1) := by
  simp only [binade]
  split
  · next hlt => rwa [Int.sub_add_cancel]
  · exact (log2_bounds h).2

/-- The exponent of a power of two that is not above the number is at most its binade… -/
theorem le_binade {r : Rat} {e : Int} (h : (2 : Rat) ^ e ≤ r) : e ≤ binade r := by
  have hr : 0 < r := Std.lt_of_lt_of_le (two_zpow_pos e) h
  rw [← Int.not_lt]
  intro hlt
  have := lt_two_zpow_binade hr
  have := two_zpow_le_two_zpow (show binade r + 1 ≤ e from hlt)
  grind

/-- …and that of a power above the number is greater. -/
theorem binade_lt {r : Rat} {e : Int} (hr : 0 < r) (h : r < (2 : Rat) ^ e) : binade r < e := by
  rw [← Int.not_le]
  intro hle
  have := two_zpow_binade_le hr
  have := two_zpow_le_two_zpow hle
  grind

theorem binade_mono {r s : Rat} (hr : 0 < r) (h : r ≤ s) : binade r ≤ binade s :=
  le_binade (Rat.le_trans (two_zpow_binade_le hr) h)

/-! ## Counted in units of the spacing -/

/-- How many units of its spacing a number is. -/
def units (r : Rat) : Rat :=
  r / (2 : Rat) ^ spacing r

/-- The bits of a positive number: as many binades as its spacing is above the least, and its units
rounded. What is too large has those of infinity. -/
theorem nearestBits_of_pos {r : Rat} (h : 0 < r) : nearestBits r
    = min infinityBits ((spacing r + 1074).toNat * perBinade + roundEven (units r)) := by
  rw [nearestBits, if_neg (Rat.not_le.2 h), units]

/-- A number is its units times the power of two they count. -/
theorem units_mul (r : Rat) : units r * (2 : Rat) ^ spacing r = r :=
  Rat.div_mul_cancel (Rat.ne_of_gt (two_zpow_pos _))

/-- There are fewer units than two binades hold. -/
theorem units_lt {r : Rat} (h : 0 < r) : units r < (2 * perBinade : Nat) := by
  have hpow : ((2 * perBinade : Nat) : Rat) = (2 : Rat) ^ (53 : Int) := rfl
  rw [units, Rat.div_lt_iff (two_zpow_pos _), hpow, ← Rat.zpow_add (by decide)]
  have hle : binade r + 1 ≤ 53 + spacing r := by
    rw [spacing]
    omega
  exact Std.lt_of_lt_of_le (lt_two_zpow_binade h) (two_zpow_le_two_zpow hle)

/-- Above the least spacing a number fills the leading digit. -/
theorem perBinade_le_units {r : Rat} (h : 0 < r) (hspacing : -1074 < spacing r) :
    (perBinade : Rat) ≤ units r := by
  have hpow : (perBinade : Rat) = (2 : Rat) ^ (52 : Int) := rfl
  have heq : 52 + spacing r = binade r := by
    rw [spacing] at *
    omega
  rw [← Rat.not_lt, units, Rat.div_lt_iff (two_zpow_pos _), hpow, ← Rat.zpow_add (by decide),
    heq, Rat.not_lt]
  exact two_zpow_binade_le h

/-- Rounding may carry into the next binade, but not beyond its first number. -/
theorem roundEven_units_le {r : Rat} (h : 0 < r) : roundEven (units r) ≤ 2 * perBinade := by
  have := roundEven_mono (Rat.le_of_lt (units_lt h))
  rwa [roundEven_natCast] at this

/-- Above the subnormal numbers there are as many units as a binade holds, at least. -/
theorem perBinade_le_roundEven_units {r : Rat} (h : 0 < r) (hspacing : -1074 < spacing r) :
    perBinade ≤ roundEven (units r) := by
  have := roundEven_mono (perBinade_le_units h hspacing)
  rwa [roundEven_natCast] at this

theorem spacing_mono {r s : Rat} (hr : 0 < r) (h : r ≤ s) : spacing r ≤ spacing s := by
  have := binade_mono hr h
  rw [spacing, spacing]
  omega

theorem le_spacing (r : Rat) : -1074 ≤ spacing r := by
  rw [spacing]
  omega

/-- **Greater numbers have greater bits.** With one spacing the rounded units decide; a greater
spacing begins where the one before it ends. -/
theorem nearestBits_mono {r s : Rat} (h : r ≤ s) : nearestBits r ≤ nearestBits s := by
  by_cases hr : 0 < r
  · have hs : 0 < s := Std.lt_of_lt_of_le hr h
    have hspacing := spacing_mono hr h
    have hle := le_spacing r
    rw [nearestBits_of_pos hr, nearestBits_of_pos hs]
    refine Nat.le_min.2 ⟨Nat.min_le_left _ _, Nat.le_trans (Nat.min_le_right _ _) ?_⟩
    rcases Int.lt_or_eq_of_le hspacing with hlt | heq
    · have hlow := roundEven_units_le hr
      have hhigh := perBinade_le_roundEven_units hs (by omega)
      have hmul := Nat.mul_le_mul_right perBinade
        (show (spacing r + 1074).toNat + 1 ≤ (spacing s + 1074).toNat by omega)
      rw [Nat.add_mul] at hmul
      omega
    · have hunits : units r ≤ units s := by
        refine Rat.le_of_mul_le_mul_right ?_ (two_zpow_pos (spacing r))
        rwa [units_mul, heq, units_mul]
      rw [heq]
      exact Nat.add_le_add_left (roundEven_mono hunits) _
  · rw [nearestBits, if_pos (Rat.not_lt.1 hr)]
    exact Nat.zero_le _

/-- A significand of its binade, or any below that on the least spacing, counts in units of its own
spacing. -/
theorem spacing_natCast_mul {n : Nat} {q : Int} (hpos : 0 < n) (hlt : n < 2 * perBinade)
    (hq : -1074 ≤ q) (hlead : q = -1074 ∨ perBinade ≤ n) :
    spacing (n * (2 : Rat) ^ q) = q := by
  have hr : (0 : Rat) < n * (2 : Rat) ^ q := Rat.mul_pos (Rat.natCast_pos.2 hpos) (two_zpow_pos q)
  have hhigh : (n : Rat) * (2 : Rat) ^ q < (2 : Rat) ^ (53 + q) := by
    rw [Rat.zpow_add (by decide)]
    exact Rat.mul_lt_mul_of_pos_right (Rat.natCast_lt_natCast.2 hlt) (two_zpow_pos q)
  have hbinade := binade_lt hr hhigh
  rw [spacing]
  rcases hlead with hleast | hlead
  · omega
  · have hlow : (2 : Rat) ^ (52 + q) ≤ n * (2 : Rat) ^ q := by
      rw [Rat.zpow_add (by decide)]
      exact Rat.mul_le_mul_of_nonneg_right (Rat.natCast_le_natCast.2 hlead)
        (Rat.le_of_lt (two_zpow_pos q))
    have := le_binade hlow
    omega

/-- **A number that is some units of its own spacing keeps them**, unless it is too large. -/
theorem nearestBits_natCast_mul {n : Nat} {q : Int} (hpos : 0 < n) (hlt : n < 2 * perBinade)
    (hq : -1074 ≤ q) (hlead : q = -1074 ∨ perBinade ≤ n) :
    nearestBits (n * (2 : Rat) ^ q)
      = min infinityBits ((q + 1074).toNat * perBinade + n) := by
  have hr : (0 : Rat) < n * (2 : Rat) ^ q := Rat.mul_pos (Rat.natCast_pos.2 hpos) (two_zpow_pos q)
  have hspacing := spacing_natCast_mul hpos hlt hq hlead
  have hunits : units (n * (2 : Rat) ^ q) = n := by
    rw [units, hspacing]
    exact Rat.mul_div_cancel (Rat.ne_of_gt (two_zpow_pos q))
  rw [nearestBits_of_pos hr, hunits, hspacing, roundEven_natCast]

/-- A significand and the spacing it counts. -/
theorem ofMagnitudeBits_eq (bits : Nat) : ∃ (c : Nat) (n : Nat), c < 2 * perBinade
    ∧ ofMagnitudeBits bits = c * (2 : Rat) ^ (-1074 + n : Int) := by
  have hmod : bits % perBinade < perBinade := Nat.mod_lt _ (by decide)
  simp only [ofMagnitudeBits]
  split
  · exact ⟨_, 0, by omega, rfl⟩
  · next hbiased =>
    generalize bits / perBinade = biased at *
    have hexponent : (biased : Int) - 1075 = -1074 + (biased - 1 : Nat) := by omega
    rw [hexponent]
    exact ⟨_, _, by omega, rfl⟩

/-- **A double is nearest itself.** -/
theorem nearestBits_ofMagnitudeBits {bits : Nat} (h : bits < infinityBits) :
    nearestBits (ofMagnitudeBits bits) = bits := by
  have hdiv := Nat.div_add_mod' bits perBinade
  have hmod : bits % perBinade < perBinade := Nat.mod_lt _ (by decide)
  simp only [ofMagnitudeBits]
  generalize bits / perBinade = biased at *
  generalize bits % perBinade = fraction at *
  split
  · next hbiased =>
    rw [hbiased, Nat.zero_mul, Nat.zero_add] at hdiv
    subst hdiv
    by_cases hzero : fraction = 0
    · subst hzero
      have hnone : ((0 : Nat) : Rat) * (2 : Rat) ^ (-1074 : Int) = 0 := Rat.zero_mul _
      rw [hnone, nearestBits, if_pos Rat.le_refl]
    · have hleast : (-1074 + 1074 : Int).toNat = 0 := rfl
      rw [nearestBits_natCast_mul (Nat.pos_of_ne_zero hzero) (by omega) (by omega) (.inl rfl),
        hleast, Nat.zero_mul, Nat.zero_add]
      exact Nat.min_eq_right (Nat.le_of_lt h)
  · next hbiased =>
    have hsteps : ((biased : Int) - 1075 + 1074).toNat + 1 = biased := by omega
    rw [nearestBits_natCast_mul (by omega) (by omega) (by omega) (.inr (by omega)),
      ← Nat.add_assoc, ← Nat.add_one_mul, hsteps, hdiv]
    exact Nat.min_eq_right (Nat.le_of_lt h)

end Double

end QueryTree

import QueryTree.Proofs.Rounding

/-!
# Proofs/Nearest — no double is nearer

Around a number the doubles are the whole multiples of its spacing; those with a smaller spacing lie
below the power of two that it stands above. So the multiple that the number rounds to is as near to
it as any double (`Double.distance_nearestBits_le`).
-/

namespace QueryTree

/-! ## Distance -/

/-- The distance of two numbers. -/
def distance (r s : Rat) : Rat :=
  if r ≤ s then s - r else r - s

theorem distance_of_le {r s : Rat} (h : r ≤ s) : distance r s = s - r :=
  if_pos h

theorem distance_of_ge {r s : Rat} (h : s ≤ r) : distance r s = r - s := by
  by_cases hle : r ≤ s
  · obtain rfl := Rat.le_antisymm h hle
    exact if_pos hle
  · exact if_neg hle

/-- The distance counted in units. -/
theorem distance_mul {t : Rat} (h : 0 < t) (r s : Rat) :
    distance (r * t) (s * t) = distance r s * t := by
  have ht := Rat.le_of_lt h
  rcases (Rat.le_total : r ≤ s ∨ s ≤ r) with hle | hle
  · rw [distance_of_le hle, distance_of_le (Rat.mul_le_mul_of_nonneg_right hle ht)]
    grind
  · rw [distance_of_ge hle, distance_of_ge (Rat.mul_le_mul_of_nonneg_right hle ht)]
    grind

/-- The rounded number is one of the two around the number, and not the farther. -/
theorem roundEven_cases {r : Rat} (h : 0 ≤ r) : ∃ below : Nat,
    (below : Rat) ≤ r ∧ r < (below + 1 : Nat)
      ∧ (roundEven r = below ∧ r - below ≤ 1 / 2
        ∨ roundEven r = below + 1 ∧ 1 / 2 ≤ r - below) := by
  have hfloor : (r.floor.toNat : Rat) = r.floor := by
    rw [← Rat.intCast_natCast, Int.toNat_of_nonneg (Rat.le_floor_iff.2 h)]
  have hle := Rat.floor_le r
  have hlt := Rat.lt_floor_add_one r
  rw [Rat.intCast_add, ← hfloor] at hlt
  rw [← hfloor] at hle
  refine ⟨r.floor.toNat, hle, by rw [Rat.natCast_add]; exact hlt, ?_⟩
  simp only [roundEven]
  split
  · next hlow => exact .inl ⟨rfl, Rat.le_of_lt hlow⟩
  · next hlow =>
    split
    · next hhigh => exact .inr ⟨rfl, Rat.le_of_lt hhigh⟩
    · next hhigh =>
      rcases Nat.mod_two_eq_zero_or_one r.floor.toNat with heven | hodd
      · rw [heven]
        exact .inl ⟨rfl, Rat.not_lt.1 hhigh⟩
      · rw [hodd]
        exact .inr ⟨rfl, Rat.not_lt.1 hlow⟩

/-- **No whole number is nearer** than the rounded one. -/
theorem distance_roundEven_le {r : Rat} (h : 0 ≤ r) (m : Nat) :
    distance (roundEven r) r ≤ distance m r := by
  obtain ⟨below, hle, hlt, hround⟩ := roundEven_cases h
  have hcast : ((below + 1 : Nat) : Rat) = below + 1 := Rat.natCast_add below 1
  have hm : (m : Rat) ≤ below ∨ ((below + 1 : Nat) : Rat) ≤ m := by
    rcases Nat.lt_or_ge below m with hlt | hge
    · exact .inr (Rat.natCast_le_natCast.2 hlt)
    · exact .inl (Rat.natCast_le_natCast.2 hge)
  rcases hround with ⟨heq, hhalf⟩ | ⟨heq, hhalf⟩
  · rw [heq, distance_of_le hle]
    rcases hm with hm | hm
    · rw [distance_of_le (Rat.le_trans hm hle)]
      grind
    · rw [distance_of_ge (Rat.le_trans (Rat.le_of_lt hlt) hm)]
      grind
  · rw [heq, distance_of_ge (Rat.le_of_lt hlt)]
    rcases hm with hm | hm
    · rw [distance_of_le (Rat.le_trans hm hle)]
      grind
    · rw [distance_of_ge (Rat.le_trans (Rat.le_of_lt hlt) hm)]
      grind

namespace Double

/-! ## Multiples of a spacing -/

/-- Bits counted from a power of two on, or from zero, are multiples of the spacing there. -/
theorem ofMagnitudeBits_steps {steps k : Nat} (hlow : steps = 0 ∨ perBinade ≤ k)
    (hhigh : k ≤ 2 * perBinade) :
    ofMagnitudeBits (steps * perBinade + k) = k * (2 : Rat) ^ ((steps : Int) - 1074) := by
  have hpos : 0 < perBinade := by decide
  rcases (by omega : k < perBinade ∨ perBinade ≤ k ∧ k < 2 * perBinade ∨ k = 2 * perBinade) with
    hlt | ⟨hle, hlt⟩ | rfl
  · obtain rfl : steps = 0 := by omega
    rw [Nat.zero_mul, Nat.zero_add, ofMagnitudeBits, Nat.div_eq_of_lt hlt, Nat.mod_eq_of_lt hlt]
    rfl
  · obtain ⟨fraction, rfl⟩ : ∃ fraction, k = perBinade + fraction := ⟨k - perBinade, by omega⟩
    have hbits : steps * perBinade + (perBinade + fraction)
        = fraction + (steps + 1) * perBinade := by
      rw [Nat.add_one_mul]
      omega
    have hexponent : ((steps + 1 : Nat) : Int) - 1075 = steps - 1074 := by omega
    rw [hbits, ofMagnitudeBits, Nat.add_mul_div_right _ _ hpos, Nat.add_mul_mod_self_right,
      Nat.div_eq_of_lt (by omega), Nat.mod_eq_of_lt (by omega), Nat.zero_add,
      if_neg (Nat.succ_ne_zero _), hexponent]
  · have hbits : steps * perBinade + 2 * perBinade = 0 + (steps + 2) * perBinade := by
      rw [Nat.add_mul]
      omega
    have hexponent : ((steps + 2 : Nat) : Int) - 1075 = steps - 1074 + 1 := by omega
    have hcast : ((2 * perBinade : Nat) : Rat) = 2 * perBinade := Rat.natCast_mul 2 perBinade
    rw [hbits, ofMagnitudeBits, Nat.add_mul_div_right _ _ hpos, Nat.add_mul_mod_self_right,
      Nat.zero_div, Nat.zero_mod, Nat.zero_add, if_neg (Nat.succ_ne_zero _), hexponent,
      two_zpow_add_one, hcast, Nat.add_zero]
    grind

/-- A double is a multiple of a spacing, or it lies below the power of two where that begins. -/
theorem ofMagnitudeBits_cases (bits : Nat) (q : Int) :
    (∃ m : Nat, ofMagnitudeBits bits = m * (2 : Rat) ^ q)
      ∨ -1074 < q ∧ ofMagnitudeBits bits ≤ perBinade * (2 : Rat) ^ q := by
  obtain ⟨c, n, hc, heq⟩ := ofMagnitudeBits_eq bits
  rw [heq]
  by_cases hle : q ≤ -1074 + n
  · obtain ⟨k, hk⟩ := Int.le.dest hle
    have hpow : (2 : Rat) ^ (k : Int) = (2 ^ k : Nat) := (Rat.natCast_pow 2 k).symm
    refine .inl ⟨c * 2 ^ k, ?_⟩
    rw [← hk, Rat.zpow_add (by decide), hpow, Rat.natCast_mul]
    grind
  · have hcast : ((2 * perBinade : Nat) : Rat) = 2 * perBinade := Rat.natCast_mul 2 perBinade
    have hle : (c : Rat) ≤ (2 * perBinade : Nat) := Rat.natCast_le_natCast.2 (Nat.le_of_lt hc)
    have hpower := two_zpow_le_two_zpow (show (-1074 + n : Int) + 1 ≤ q by omega)
    rw [two_zpow_add_one] at hpower
    refine .inr ⟨by omega, ?_⟩
    calc (c : Rat) * (2 : Rat) ^ (-1074 + n : Int)
      _ ≤ (2 * perBinade : Nat) * (2 : Rat) ^ (-1074 + n : Int) :=
          Rat.mul_le_mul_of_nonneg_right hle (Rat.le_of_lt (two_zpow_pos _))
      _ = perBinade * (2 * (2 : Rat) ^ (-1074 + n : Int)) := by
          rw [hcast]
          grind
      _ ≤ perBinade * (2 : Rat) ^ q := Rat.mul_le_mul_of_nonneg_left hpower Rat.natCast_nonneg

/-! ## The nearest double -/

/-- What a number rounds to is the rounded multiple of its spacing. -/
theorem ofMagnitudeBits_nearestBits {r : Rat} (hr : 0 < r)
    (hfinite : nearestBits r < infinityBits) :
    ofMagnitudeBits (nearestBits r) = roundEven (units r) * (2 : Rat) ^ spacing r := by
  have hq := le_spacing r
  have hsteps : ((spacing r + 1074).toNat : Int) - 1074 = spacing r := by omega
  have hlow : (spacing r + 1074).toNat = 0 ∨ perBinade ≤ roundEven (units r) := by
    by_cases hleast : spacing r = -1074
    · exact .inl (by omega)
    · exact .inr (perBinade_le_roundEven_units hr (by omega))
  have hbits : nearestBits r = (spacing r + 1074).toNat * perBinade + roundEven (units r) := by
    rw [nearestBits_of_pos hr] at hfinite ⊢
    omega
  rw [hbits, ofMagnitudeBits_steps hlow (roundEven_units_le hr), hsteps]

/-- **No double is nearer** to a number than the one it rounds to. -/
theorem distance_nearestBits_le {r : Rat} (hr : 0 < r) (hfinite : nearestBits r < infinityBits)
    (bits : Nat) :
    distance (ofMagnitudeBits (nearestBits r)) r ≤ distance (ofMagnitudeBits bits) r := by
  have hpos := two_zpow_pos (spacing r)
  have hunits : 0 ≤ units r := by
    rw [← Rat.not_lt, units, Rat.div_lt_iff hpos, Rat.zero_mul, Rat.not_lt]
    exact Rat.le_of_lt hr
  -- among the multiples of the spacing the rounded one is nearest
  have hmultiple : ∀ m : Nat, distance (ofMagnitudeBits (nearestBits r)) r
      ≤ distance (m * (2 : Rat) ^ spacing r) r := by
    intro m
    have hround := distance_roundEven_le hunits m
    have hmul := Rat.mul_le_mul_of_nonneg_right hround (Rat.le_of_lt hpos)
    rwa [← distance_mul hpos, ← distance_mul hpos, units_mul,
      ← ofMagnitudeBits_nearestBits hr hfinite] at hmul
  rcases ofMagnitudeBits_cases bits (spacing r) with ⟨m, hm⟩ | ⟨hq, hbelow⟩
  · rw [hm]
    exact hmultiple m
  · have hlead : perBinade * (2 : Rat) ^ spacing r ≤ r := by
      have hmul := Rat.mul_le_mul_of_nonneg_right (perBinade_le_units hr hq) (Rat.le_of_lt hpos)
      rwa [units_mul] at hmul
    have hpower := hmultiple perBinade
    rw [distance_of_le hlead] at hpower
    rw [distance_of_le (Rat.le_trans hbelow hlead)]
    grind

end Double

end QueryTree

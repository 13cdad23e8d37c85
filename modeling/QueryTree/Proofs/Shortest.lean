import QueryTree.Decimal.Shortest

/-!
# Proofs/Shortest — the shortest decimal of a double is zero only for zero

A zero reads back as zero, so no grid offers it for another double. On the last grid, that of
`10 ^ -1074`, the coefficient is at least one, since no double but zero is below `2 ^ -1074`.
-/

namespace QueryTree

theorem one_le_roundEven {r : Rat} (h : 1 ≤ r) : 1 ≤ roundEven r := by
  have hfloor : 1 ≤ r.floor := Rat.le_floor_iff.2 h
  simp only [roundEven]
  split
  · omega
  · split <;> omega

namespace Double

/-- **The bits of a double other than the two zeros are not all unset**, its sign apart. -/
theorem magnitudeBits_ne_zero {x : Float} (h : (x == 0.0) = false) : magnitudeBits x ≠ 0 := by
  obtain ⟨⟨bits, valid⟩⟩ := x
  intro hbits
  have hlt : bits.toNat < 2 * signBit := bits.toNat_lt
  have hzero : bits = 0 ∨ bits = 0x8000000000000000 := by
    have hmod : bits.toNat % signBit = 0 := hbits
    rw [signBit] at hmod hlt
    rcases (by omega : bits.toNat = 0 ∨ bits.toNat = 0x8000000000000000) with h | h
    · exact .inl (UInt64.toNat_inj.1 h)
    · exact .inr (UInt64.toNat_inj.1 h)
  rcases hzero with rfl | rfl
  · have hx : (⟨⟨0, valid⟩⟩ : Float) = Float.ofBits 0 := rfl
    rw [hx] at h
    exact absurd h (by decide)
  · have hx : (⟨⟨0x8000000000000000, valid⟩⟩ : Float) = Float.ofBits 0x8000000000000000 := rfl
    rw [hx] at h
    exact absurd h (by decide)

theorem two_zpow_le_two_zpow {e e' : Int} (h : e ≤ e') : (2 : Rat) ^ e ≤ (2 : Rat) ^ e' := by
  obtain ⟨n, rfl⟩ := Int.le.dest h
  induction n with
  | zero => simp
  | succ n ih =>
    have hpos : (0 : Rat) < (2 : Rat) ^ (e + n) := Rat.zpow_pos (by decide)
    rw [Int.natCast_add, ← Int.add_assoc, Int.natCast_one, Rat.zpow_add_one (by decide)]
    grind

/-- No double but zero is smaller. -/
theorem two_zpow_le_magnitude {x : Float} (h : magnitudeBits x ≠ 0) :
    (2 : Rat) ^ (-1074 : Int) ≤ magnitude x := by
  have hpos : ∀ e : Int, (0 : Rat) < (2 : Rat) ^ e := fun e => Rat.zpow_pos (by decide)
  have hmul : ∀ (n : Nat) (e : Int), n ≠ 0 → (2 : Rat) ^ e ≤ n * (2 : Rat) ^ e := by
    intro n e hn
    have hone : (1 : Rat) ≤ n := Rat.natCast_le_natCast.2 (Nat.one_le_iff_ne_zero.2 hn)
    have := Rat.mul_le_mul_of_nonneg_right hone (Rat.le_of_lt (hpos e))
    rwa [Rat.one_mul] at this
  simp only [magnitude, ofMagnitudeBits]
  split
  · next hbiased =>
    refine hmul _ _ ?_
    rw [perBinade] at *
    omega
  · next hbiased =>
    refine Rat.le_trans (two_zpow_le_two_zpow ?_) (hmul _ _ (by rw [perBinade]; omega))
    generalize magnitudeBits x / perBinade = biased at *
    omega

/-- Between `2 ^ -1074` and the last grid lies a factor of `5 ^ 1074`. -/
theorem ten_zpow_le_two_zpow : (10 : Rat) ^ (-1074 : Int) ≤ (2 : Rat) ^ (-1074 : Int) := by
  decide +kernel

theorem readsBack_zero {x : Float} (h : magnitudeBits x ≠ 0) : readsBack x 0 = false := by
  simp [readsBack, nearestBits, h.symm]

/-- What a grid offers is not zero. -/
theorem coefficient_nearestOn?_ne_zero {x : Float} (h : magnitudeBits x ≠ 0) {p : Int}
    {d : Decimal} (hd : nearestOn? x p = some d) : d.coefficient ≠ 0 := by
  intro hzero
  have hreads : readsBack x d.toRat := by
    have := List.find?_some hd
    simpa using this
  have hrat : d.toRat = 0 := by
    rw [Decimal.toRat, hzero]
    exact Rat.zero_mul _
  rw [hrat, readsBack_zero h] at hreads
  cases hreads

theorem coefficient_shortestFrom_ne_zero {x : Float} (h : magnitudeBits x ≠ 0) :
    ∀ (steps : Nat) (p : Int), p = steps - 1074 → (shortestFrom x steps p).coefficient ≠ 0
  | 0, p, hp => by
      have hten : (0 : Rat) < (10 : Rat) ^ (-1074 : Int) := Rat.zpow_pos (by decide)
      have hle := Rat.le_trans ten_zpow_le_two_zpow (two_zpow_le_magnitude h)
      have hp : p = -1074 := by omega
      have hone : 1 ≤ magnitude x / (10 : Rat) ^ p := by
        rw [hp, ← Rat.not_lt, Rat.div_lt_iff hten, Rat.one_mul, Rat.not_lt]
        exact hle
      rw [shortestFrom]
      exact Nat.one_le_iff_ne_zero.1 (one_le_roundEven hone)
  | steps + 1, p, hp => by
      rw [shortestFrom]
      cases hd : nearestOn? x p with
      | some d => exact coefficient_nearestOn?_ne_zero h hd
      | none => exact coefficient_shortestFrom_ne_zero h steps (p - 1) (by omega)

/-- **Only zero has zero for its shortest decimal.** -/
theorem coefficient_shortest_ne_zero {x : Float} (h : (x == 0.0) = false) :
    (shortest x).coefficient ≠ 0 :=
  coefficient_shortestFrom_ne_zero (magnitudeBits_ne_zero h) _ _ (by omega)

end Double

end QueryTree

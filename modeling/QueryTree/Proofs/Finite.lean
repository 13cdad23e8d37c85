import QueryTree.Decimal.Double

/-!
# Proofs/Finite — the doubles near integers are finite

What bits are read as is told by their exponent and their mantissa (`Unpacks`): a double is infinite
or not a number just if all bits of its exponent are set. The bits found for a number stay below
those of infinity unless it is beyond all doubles, and an integer of no more than 64 binary digits
is far from that (`isFinite_ofInt`).
-/

namespace QueryTree.Double

open Float.Model (UnpackedFloat Format)
open Float.Model.UnpackedFloat (unpackExponent unpackMantissa unpackSign Sign)

/-! ## Bits of finite doubles -/

/-- What bits are read as, by their exponent and their mantissa. The mantissa of a finite number has
a leading one unless the exponent is zero. -/
inductive Unpacks {spec : Format} (b : BitVec spec.numBits) : UnpackedFloat → Prop
  | infinity (hall : unpackExponent b = -1#_) (hnone : unpackMantissa b = 0#_) :
      Unpacks b (.infinity (.ofBitVec (unpackSign b)))
  | notANumber (hall : unpackExponent b = -1#_) : Unpacks b .notANumber
  | zero (hall : unpackExponent b ≠ -1#_) : Unpacks b (.zero (.ofBitVec (unpackSign b)))
  | subnormal (hall : unpackExponent b ≠ -1#_) (hnone : unpackExponent b = 0#_)
      (hm : 0 < (unpackMantissa b).toNat) :
      Unpacks b (.finite (.ofBitVec (unpackSign b)) (unpackMantissa b).toNat
        ((unpackExponent b).toNat - (spec.exponentBias + spec.mantissaBitsWithoutImplicit) + 1) hm)
  | normal (hall : unpackExponent b ≠ -1#_) (hm : 0 < (1#1 ++ unpackMantissa b).toNat) :
      Unpacks b (.finite (.ofBitVec (unpackSign b)) (1#1 ++ unpackMantissa b).toNat
        ((unpackExponent b).toNat - (spec.exponentBias + spec.mantissaBitsWithoutImplicit)) hm)

theorem unpacks_unpack {spec : Format} (b : BitVec spec.numBits) :
    Unpacks b (UnpackedFloat.unpack spec b) := by
  unfold UnpackedFloat.unpack
  dsimp only
  by_cases hall : unpackExponent b = -1#_
  · rw [if_pos hall]
    by_cases hinfinite : unpackMantissa b = 0#_
    · rw [if_pos hinfinite]
      exact .infinity hall hinfinite
    · rw [if_neg hinfinite]
      exact .notANumber hall
  · rw [if_neg hall]
    by_cases hsubnormal : unpackExponent b = 0#_
    · rw [if_pos hsubnormal]
      by_cases hzero : unpackMantissa b = 0#_
      · rw [dif_pos hzero]
        exact .zero hall
      · rw [dif_neg hzero]
        exact .subnormal hall hsubnormal _
    · rw [if_neg hsubnormal]
      exact .normal hall _

theorem Unpacks.isFinite_iff {spec : Format} {b : BitVec spec.numBits} {u : UnpackedFloat}
    (h : Unpacks b u) : u.isFinite = true ↔ unpackExponent b ≠ -1#_ := by
  cases h with
  | infinity hall => exact iff_of_false Bool.false_ne_true fun hne => hne hall
  | notANumber hall => exact iff_of_false Bool.false_ne_true fun hne => hne hall
  | zero hall => exact iff_of_true rfl hall
  | subnormal hall => exact iff_of_true rfl hall
  | normal hall => exact iff_of_true rfl hall

theorem unpackExponent_pack_finite {sign : Sign} {m : Nat} {e : Int} {hm : 0 < m}
    (h : e + 1075 < 2047) :
    unpackExponent (UnpackedFloat.pack Format.binary64 (.finite sign m e hm)) ≠ -1#_ := by
  have hbias : (Format.exponentBias Format.binary64 : Int) = 1023 := rfl
  unfold UnpackedFloat.pack
  dsimp only
  rw [hbias, if_neg (by simp; omega)]
  split
  · simp [← BitVec.toNat_inj]
    omega
  · simp

/-- Bits with an exponent that is not all set keep such an exponent when they are read and written
again. -/
theorem Unpacks.unpackExponent_pack {b : BitVec Format.binary64.numBits} {u : UnpackedFloat}
    (h : Unpacks b u) (hexponent : unpackExponent b ≠ -1#_) :
    unpackExponent (UnpackedFloat.pack Format.binary64 u) ≠ -1#_ := by
  have hbias : (Format.exponentBias Format.binary64 : Int) = 1023 := rfl
  have hlt : (unpackExponent b).toNat < 2047 := by
    have hlt : (unpackExponent b).toNat < 2048 := (unpackExponent b).isLt
    have hne : (unpackExponent b).toNat ≠ 2047 := fun heq => hexponent (BitVec.eq_of_toNat_eq heq)
    omega
  cases h with
  | infinity hall => exact absurd hall hexponent
  | notANumber hall => exact absurd hall hexponent
  | zero =>
    unfold UnpackedFloat.pack
    simp [UnpackedFloat.packedZero]
  | subnormal hall hnone =>
    refine unpackExponent_pack_finite ?_
    simp [hnone, hbias]
  | normal =>
    refine unpackExponent_pack_finite ?_
    simp only [hbias]
    omega

/-- The exponent stands between the sign and the fraction. -/
theorem toNat_unpackExponent (b : BitVec Format.binary64.numBits) :
    (unpackExponent b).toNat = b.toNat % signBit / perBinade := by
  simp [unpackExponent, Nat.shiftRight_eq_div_pow, signBit, perBinade]
  omega

/-- **A magnitude below infinity is finite.** -/
theorem isFinite_ofBits {bits : UInt64} (h : bits.toNat % signBit < infinityBits) :
    (Float.ofBits bits).isFinite = true := by
  have hunpacks := @unpacks_unpack Format.binary64 bits.toBitVec
  refine (unpacks_unpack _).isFinite_iff.2 (hunpacks.unpackExponent_pack fun heq => ?_)
  have hexponent := toNat_unpackExponent bits.toBitVec
  have hall : (-1#11 : BitVec 11).toNat = 2047 := rfl
  rw [heq, hall, UInt64.toNat_toBitVec] at hexponent
  simp only [infinityBits, perBinade] at *
  omega

theorem isFinite_nearest {r : Rat} (h : nearestBits r < infinityBits) (negative : Bool) :
    (nearest negative r).isFinite = true := by
  refine isFinite_ofBits ?_
  rw [UInt64.toNat_ofNat']
  generalize nearestBits r = bits at *
  simp only [infinityBits, perBinade, signBit] at *
  split <;> omega

/-! ## Integers -/

theorem roundEven_le (r : Rat) : roundEven r ≤ r.floor.toNat + 1 := by
  simp only [roundEven]
  split
  · omega
  · split <;> omega

/-- A natural number lies between the power of two at its highest digit and the next one. -/
theorem two_zpow_log2_le {n : Nat} (h : n ≠ 0) : (2 : Rat) ^ (n.log2 : Int) ≤ n := by
  have hpow : (2 : Rat) ^ (n.log2 : Int) = (2 ^ n.log2 : Nat) := (Rat.natCast_pow 2 _).symm
  rw [hpow]
  exact Rat.natCast_le_natCast.2 (Nat.log2_self_le h)

theorem lt_two_zpow_log2 (n : Nat) : (n : Rat) < (2 : Rat) ^ ((n.log2 + 1 : Nat) : Int) := by
  have hpow : (2 : Rat) ^ ((n.log2 + 1 : Nat) : Int) = (2 ^ (n.log2 + 1) : Nat) :=
    (Rat.natCast_pow 2 _).symm
  rw [hpow]
  exact Rat.natCast_lt_natCast.2 Nat.lt_log2_self

/-- The binade of a natural number is the place of its highest digit. -/
theorem binade_natCast {n : Nat} (h : n ≠ 0) : binade n = n.log2 := by
  have hone : Nat.log2 1 = 0 := rfl
  simp only [binade, Rat.num_natCast, Rat.den_natCast, Int.natAbs_natCast, hone, Int.natCast_zero,
    Int.sub_zero]
  rw [if_neg (Rat.not_lt.2 (two_zpow_log2_le h))]

theorem nearestBits_natCast_lt {n : Nat} (h : n < 0x10000000000000000) :
    nearestBits n < infinityBits := by
  by_cases hzero : n = 0
  · subst hzero
    decide
  · have hpos : (0 : Rat) < n := Rat.natCast_pos.2 (Nat.pos_of_ne_zero hzero)
    have hlog : n.log2 < 64 := (Nat.log2_lt hzero).2 h
    have hspacing : spacing n = n.log2 - 52 := by
      rw [spacing, binade_natCast hzero]
      omega
    -- counted in units of the spacing, the number has 53 digits
    have hlt : (n : Rat) / (2 : Rat) ^ ((n.log2 : Int) - 52) < (2 ^ 53 : Int) := by
      have hsum : (53 : Int) + (n.log2 - 52) = (n.log2 + 1 : Nat) := by omega
      have hpow : ((2 ^ 53 : Int) : Rat) = (2 : Rat) ^ (53 : Int) := rfl
      rw [Rat.div_lt_iff (Rat.zpow_pos (by decide)), hpow, ← Rat.zpow_add (by decide), hsum]
      exact lt_two_zpow_log2 n
    have hfloor := Rat.floor_lt_iff.2 hlt
    have hround := roundEven_le ((n : Rat) / (2 : Rat) ^ ((n.log2 : Int) - 52))
    rw [nearestBits, if_neg (Rat.not_le.2 hpos), hspacing]
    simp only [infinityBits, perBinade]
    omega

/-- **An integer of 64 digits is near a finite double.** -/
theorem isFinite_ofInt {n : Int} (h : n.natAbs < 0x10000000000000000) :
    (ofInt n).isFinite = true :=
  isFinite_nearest (nearestBits_natCast_lt h) _

end QueryTree.Double

import QueryTree.Proofs.Equality.Double

/-!
# Proofs/Bits — doubles and their bits

A finite double is known by its bits: what they are read as is written back to them
(`pack_unpack`). So the bits of the nearest double are those that were found for it
(`toBits_ofBits`), and a finite double is the one of its bits (`ofBits_toBits`).
-/

namespace QueryTree.Double

open Float.Model (UnpackedFloat Format)
open Float.Model.UnpackedFloat (unpackExponent unpackMantissa unpackSign packComponents Sign)

/-! ## Reading and writing -/

theorem unpackSign_packComponents {spec : Format} {sign : Sign} {e : BitVec spec.exponentBits}
    {m : BitVec spec.mantissaBitsWithoutImplicit} :
    unpackSign (packComponents spec sign e m) = sign.toBitVec := by
  ext i hi
  obtain rfl : i = 0 := by omega
  unfold unpackSign packComponents
  simp [BitVec.getLsbD_append, BitVec.getElem_append]

theorem toBitVec_ofBitVec : ∀ v : BitVec 1, (Sign.ofBitVec v).toBitVec = v
  | 0#1 => rfl
  | 1#1 => rfl

/-- Bits are put together from their fields. -/
theorem packComponents_unpack (b : BitVec Format.binary64.numBits) :
    packComponents Format.binary64 (.ofBitVec (unpackSign b)) (unpackExponent b)
      (unpackMantissa b) = b := by
  refine eq_of_fields ?_ ?_ ?_
  · rw [unpackSign_packComponents, toBitVec_ofBitVec]
  · rw [UnpackedFloat.unpackExponent_packComponents]
  · rw [UnpackedFloat.unpackMantissa_packComponents]

/-- Below the leading one there is no room for a digit of a subnormal number. -/
theorem log2_lt_of_lt_perBinade {m : Nat} (hpos : m ≠ 0) (h : m < perBinade) : m.log2 < 52 :=
  (Nat.log2_lt hpos).2 h

theorem log2_leading {m : Nat} (h : m < perBinade) : (perBinade + m).log2 = 52 := by
  have hpos : perBinade + m ≠ 0 := by
    rw [perBinade]
    omega
  have hle : 52 ≤ (perBinade + m).log2 := (Nat.le_log2 hpos).2 (Nat.le_add_right _ _)
  have hlt : (perBinade + m).log2 < 53 := (Nat.log2_lt hpos).2 (by rw [perBinade] at *; omega)
  omega

/-- **What bits of a finite double are read as is written back to them.** -/
theorem pack_unpack {b : BitVec Format.binary64.numBits} (h : unpackExponent b ≠ -1#_) :
    UnpackedFloat.pack Format.binary64 (UnpackedFloat.unpack Format.binary64 b) = b := by
  have hlt : (unpackExponent b).toNat < 2047 := by
    have hlt : (unpackExponent b).toNat < 2048 := (unpackExponent b).isLt
    have hne : (unpackExponent b).toNat ≠ 2047 := fun heq => h (BitVec.eq_of_toNat_eq heq)
    omega
  have hmantissa : (unpackMantissa b).toNat < perBinade := (unpackMantissa b).isLt
  have hbias : (Format.exponentBias Format.binary64 : Int) = 1023 := rfl
  have hbits : Format.mantissaBits Format.binary64 = 52 + 1 := rfl
  have hb := packComponents_unpack b
  unfold UnpackedFloat.unpack
  dsimp only
  rw [if_neg h]
  by_cases hsubnormal : unpackExponent b = 0#_
  · rw [hsubnormal] at hb
    rw [if_pos hsubnormal]
    by_cases hzero : unpackMantissa b = 0#_
    · rw [dif_pos hzero]
      rw [hzero] at hb
      exact hb
    · have hne : (unpackMantissa b).toNat ≠ 0 := fun heq => hzero (BitVec.eq_of_toNat_eq heq)
      have hlog := log2_lt_of_lt_perBinade hne hmantissa
      rw [dif_neg hzero]
      unfold UnpackedFloat.pack
      dsimp only
      rw [hbias, hsubnormal, if_neg (by simp), if_neg (by omega), BitVec.ofNat_toNat,
        BitVec.setWidth_eq]
      exact hb
  · have hleading := toNat_leading_append (unpackMantissa b)
    have hexponent : (((unpackExponent b).toNat : Int) - (1023 + (52 : Nat)) + 1023
        + (52 : Nat)).toNat = (unpackExponent b).toNat := by omega
    have hofNat : BitVec.ofNat 52 (perBinade + (unpackMantissa b).toNat) = unpackMantissa b := by
      refine BitVec.eq_of_toNat_eq ?_
      rw [BitVec.toNat_ofNat]
      change (perBinade + (unpackMantissa b).toNat) % perBinade = _
      rw [Nat.add_mod_left, Nat.mod_eq_of_lt hmantissa]
    rw [if_neg hsubnormal]
    unfold UnpackedFloat.pack
    dsimp only
    rw [hbias, hleading, log2_leading hmantissa]
    rw [hexponent, if_neg (by simp; omega), if_pos hbits.symm, hofNat, BitVec.ofNat_toNat,
      BitVec.setWidth_eq]
    exact hb

/-! ## Finite doubles -/

theorem unpackExponent_ne_iff (bits : UInt64) :
    @unpackExponent Format.binary64 bits.toBitVec ≠ -1#_
      ↔ bits.toNat % signBit < infinityBits := by
  have hexponent := toNat_unpackExponent bits.toBitVec
  have hall : (-1#11 : BitVec 11).toNat = 2047 := rfl
  rw [ne_eq, ← BitVec.toNat_inj, hall, hexponent, UInt64.toNat_toBitVec]
  simp only [infinityBits, perBinade, signBit]
  omega

/-- **The bits of a finite double are those it was made of.** -/
theorem toBits_ofBits {bits : UInt64} (h : bits.toNat % signBit < infinityBits) :
    (Float.ofBits bits).toBits = bits := by
  have hpack := pack_unpack ((unpackExponent_ne_iff bits).2 h)
  change UInt64.ofBitVec (UnpackedFloat.pack Format.binary64
    (UnpackedFloat.unpack Format.binary64 bits.toBitVec)) = bits
  rw [hpack]

variable {x : Float}

theorem magnitudeBits_lt (h : x.isFinite = true) : magnitudeBits x < infinityBits :=
  (unpackExponent_ne_iff x.toBits).1 ((unpacks_float x).isFinite_iff.1 h)

/-- **A finite double is the one of its bits.** -/
theorem ofBits_toBits (h : x.isFinite = true) : Float.ofBits x.toBits = x := by
  have hbits := toBits_ofBits (magnitudeBits_lt h)
  generalize Float.ofBits x.toBits = y at *
  obtain ⟨⟨bits, hvalid⟩⟩ := x
  obtain ⟨⟨bits', hvalid'⟩⟩ := y
  obtain rfl : bits' = bits := hbits
  rfl

/-- What equals zero has no bit set but the sign. -/
theorem magnitudeBits_of_beq_zero (h : x == 0.0) : magnitudeBits x = 0 := by
  obtain ⟨s, hs⟩ := beq_zero_iff.1 h
  have hpack := pack_unpack ((unpacks_float x).isFinite_iff.1 (isFinite_of_beq_zero h))
  have hbits : x.toModel.toBits.toBitVec = UnpackedFloat.pack Format.binary64 (.zero s) := by
    rw [← hs]
    exact hpack.symm
  have hnat : x.toBits.toNat = (UnpackedFloat.pack Format.binary64 (.zero s)).toNat := by
    rw [← hbits]
    rfl
  rw [magnitudeBits, hnat]
  cases s <;> rfl

/-- The sign and the magnitude make up the bits. -/
theorem toNat_toBits (x : Float) :
    x.toBits.toNat = magnitudeBits x + if isNegative x then signBit else 0 := by
  have hlt : x.toBits.toNat < 2 * signBit := x.toBits.toNat_lt
  by_cases hsign : signBit ≤ x.toBits.toNat
  · have hnegative : isNegative x = true := decide_eq_true hsign
    rw [hnegative, if_pos rfl, magnitudeBits, signBit] at *
    omega
  · have hpositive : isNegative x = false := decide_eq_false hsign
    rw [hpositive, if_neg Bool.false_ne_true, magnitudeBits, signBit] at *
    omega

/-- **A number reads back as a double** with its sign if the magnitude does. -/
theorem nearest_eq_of_nearestBits_eq (h : x.isFinite = true) {r : Rat}
    (hr : nearestBits r = magnitudeBits x) : nearest (isNegative x) r = x := by
  have hbits : UInt64.ofNat x.toBits.toNat = x.toBits := UInt64.ofNat_toNat
  rw [nearest, hr, ← toNat_toBits, hbits, ofBits_toBits h]

theorem toNat_toBits_nearest {r : Rat} (h : nearestBits r < infinityBits) (negative : Bool) :
    (nearest negative r).toBits.toNat = nearestBits r + if negative then signBit else 0 := by
  have hofNat : (UInt64.ofNat (nearestBits r + if negative then signBit else 0)).toNat
      = nearestBits r + if negative then signBit else 0 := by
    refine UInt64.toNat_ofNat_of_lt ?_
    rw [infinityBits, perBinade] at h
    cases negative <;> simp [signBit, UInt64.size] <;> omega
  have hfinite : (nearestBits r + if negative then signBit else 0) % signBit < infinityBits := by
    rw [infinityBits, perBinade] at *
    cases negative <;> simp [signBit] <;> omega
  rw [nearest, toBits_ofBits (by rwa [hofNat]), hofNat]

/-- **The nearest double has the bits that were found for it.** -/
theorem magnitudeBits_nearest {r : Rat} (h : nearestBits r < infinityBits) (negative : Bool) :
    magnitudeBits (nearest negative r) = nearestBits r := by
  rw [magnitudeBits, toNat_toBits_nearest h]
  rw [infinityBits, perBinade] at h
  cases negative <;> simp [signBit] <;> omega

end QueryTree.Double

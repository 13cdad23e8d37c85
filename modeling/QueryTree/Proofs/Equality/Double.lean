import QueryTree.Proofs.Finite
import QueryTree.Value.Printer

/-!
# Proofs/Equality/Double — equal doubles

Doubles are compared as numbers. Equal ones are the same, bit for bit, or both are zero
(`eq_or_zero_of_beq`): the sign of a zero is all that a comparison misses. Neither the text of a
double nor its truth shows that sign, so equal doubles agree in both.
-/

namespace QueryTree

namespace Double

open Float.Model (UnpackedFloat Format)
open Float.Model.UnpackedFloat (unpackExponent unpackMantissa unpackSign Sign)

/-! ## The same number, the same bits -/

theorem toNat_unpackMantissa (b : BitVec Format.binary64.numBits) :
    (unpackMantissa b).toNat = b.toNat % perBinade := by
  simp [unpackMantissa, perBinade]

theorem toNat_unpackSign (b : BitVec Format.binary64.numBits) :
    (unpackSign b).toNat = b.toNat / signBit := by
  have hlt : b.toNat < 2 ^ 64 := b.isLt
  unfold unpackSign
  simp [Nat.shiftRight_eq_div_pow, signBit]
  omega

theorem ofBitVec_inj : ∀ {v v' : BitVec 1}, Sign.ofBitVec v = Sign.ofBitVec v' → v = v'
  | 0#1, 0#1, _ => rfl
  | 1#1, 1#1, _ => rfl

/-- A leading one stands above all digits of the mantissa. -/
theorem toNat_leading_append (m : BitVec Format.binary64.mantissaBitsWithoutImplicit) :
    (1#1 ++ m).toNat = perBinade + m.toNat := by
  rw [BitVec.toNat_append, ← Nat.shiftLeft_add_eq_or_of_lt m.isLt]
  rfl

section

variable {b b' : BitVec Format.binary64.numBits}

/-- Bits are a sign, an exponent and a mantissa. -/
theorem eq_of_fields (hsign : Sign.ofBitVec (unpackSign b) = Sign.ofBitVec (unpackSign b'))
    (hexponent : unpackExponent b = unpackExponent b')
    (hmantissa : unpackMantissa b = unpackMantissa b') : b = b' := by
  have hs := congrArg BitVec.toNat (ofBitVec_inj hsign)
  have he := congrArg BitVec.toNat hexponent
  have hm := congrArg BitVec.toNat hmantissa
  rw [toNat_unpackSign, toNat_unpackSign] at hs
  rw [toNat_unpackExponent, toNat_unpackExponent] at he
  rw [toNat_unpackMantissa, toNat_unpackMantissa] at hm
  refine BitVec.eq_of_toNat_eq ?_
  simp only [signBit, perBinade] at hs he hm
  omega

/-- **A number other than zero is read from one pattern of bits alone.** -/
theorem Unpacks.eq {u : UnpackedFloat} (h : Unpacks b u) (h' : Unpacks b' u)
    (hnumber : u ≠ .notANumber) (hzero : ∀ s, u ≠ .zero s) : b = b' := by
  have hlt : (unpackMantissa b).toNat < 0x10000000000000 := (unpackMantissa b).isLt
  have hlt' : (unpackMantissa b').toNat < 0x10000000000000 := (unpackMantissa b').isLt
  generalize hu : u = u' at h'
  cases h with
  | infinity hall hnone =>
    cases h' with
    | infinity hall' hnone' =>
      injection hu with hsign
      exact eq_of_fields hsign (hall.trans hall'.symm) (hnone.trans hnone'.symm)
    | _ => cases hu
  | notANumber => exact absurd rfl hnumber
  | zero => exact absurd rfl (hzero _)
  | subnormal hall hnone =>
    cases h' with
    | subnormal hall' hnone' =>
      injection hu with hsign hmantissa
      exact eq_of_fields hsign (hnone.trans hnone'.symm) (BitVec.eq_of_toNat_eq hmantissa)
    | normal =>
      injection hu with hsign hmantissa
      rw [toNat_leading_append, perBinade] at hmantissa
      omega
    | _ => cases hu
  | normal =>
    cases h' with
    | subnormal =>
      injection hu with hsign hmantissa
      rw [toNat_leading_append, perBinade] at hmantissa
      omega
    | normal =>
      injection hu with hsign hmantissa hexponent
      rw [toNat_leading_append, toNat_leading_append] at hmantissa
      refine eq_of_fields hsign (BitVec.eq_of_toNat_eq ?_) (BitVec.eq_of_toNat_eq ?_)
      · omega
      · omega
    | _ => cases hu

end

/-! ## Comparison -/

/-- Numbers that compare as equal are the same, or zeros of any sign. -/
theorem eq_or_zero_of_compare : ∀ {u u' : UnpackedFloat}, u.compare u' = some .eq →
    (u = u' ∧ u ≠ .notANumber) ∨ ∃ s s', u = .zero s ∧ u' = .zero s'
  | .zero s, .zero s', _ => .inr ⟨s, s', rfl, rfl⟩
  | .infinity .positive, .infinity .positive, _ => .inl ⟨rfl, nofun⟩
  | .infinity .negative, .infinity .negative, _ => .inl ⟨rfl, nofun⟩
  | .finite .positive m e _, .finite .positive m' e' _, h => by
      obtain ⟨hexponent, hmantissa⟩ := Ordering.then_eq_eq.1 (Option.some.inj h)
      obtain rfl := Int.compare_eq_eq.1 hexponent
      obtain rfl := Nat.compare_eq_eq.1 hmantissa
      exact .inl ⟨rfl, nofun⟩
  | .finite .negative m e _, .finite .negative m' e' _, h => by
      obtain ⟨hexponent, hmantissa⟩ :=
        Ordering.then_eq_eq.1 (Ordering.swap_eq_eq.1 (Option.some.inj h))
      obtain rfl := Int.compare_eq_eq.1 hexponent
      obtain rfl := Nat.compare_eq_eq.1 hmantissa
      exact .inl ⟨rfl, nofun⟩

variable {x y : Float}

theorem compare_of_beq (h : x == y) : x.toModel.unpack.compare y.toModel.unpack = some .eq :=
  eq_of_beq h

/-- What equals zero is a zero of either sign. -/
theorem beq_zero_iff : x == 0.0 ↔ ∃ s, x.toModel.unpack = .zero s := by
  have hzero : (0.0 : Float).toModel.unpack = .zero .positive := rfl
  refine ⟨fun h => ?_, fun ⟨s, hs⟩ => ?_⟩
  · rcases eq_or_zero_of_compare (compare_of_beq h) with ⟨heq, -⟩ | ⟨s, -, hs, -⟩
    · exact ⟨.positive, heq.trans hzero⟩
    · exact ⟨s, hs⟩
  · change (x.toModel.unpack.compare (0.0 : Float).toModel.unpack == some .eq) = true
    rw [hs, hzero]
    rfl

theorem unpacks_float (x : Float) :
    @Unpacks Format.binary64 x.toModel.toBits.toBitVec x.toModel.unpack :=
  unpacks_unpack _

theorem eq_of_unpack_eq (h : x.toModel.unpack = y.toModel.unpack)
    (hnumber : x.toModel.unpack ≠ .notANumber) (hzero : ∀ s, x.toModel.unpack ≠ .zero s) :
    x = y := by
  have hy := unpacks_float y
  rw [← h] at hy
  have hbits := (unpacks_float x).eq hy hnumber hzero
  obtain ⟨⟨⟨bits⟩, hvalid⟩⟩ := x
  obtain ⟨⟨⟨bits'⟩, hvalid'⟩⟩ := y
  obtain rfl : bits = bits' := hbits
  rfl

/-- **Equal doubles are the same or both zero.** -/
theorem eq_or_zero_of_beq (h : x == y) : x = y ∨ (x == 0.0 ∧ y == 0.0) := by
  rw [beq_zero_iff, beq_zero_iff]
  rcases eq_or_zero_of_compare (compare_of_beq h) with ⟨heq, hnumber⟩ | ⟨s, s', hs, hs'⟩
  · by_cases hzero : ∃ s, x.toModel.unpack = .zero s
    · obtain ⟨s, hs⟩ := hzero
      exact .inr ⟨⟨s, hs⟩, s, heq ▸ hs⟩
    · exact .inl (eq_of_unpack_eq heq hnumber (not_exists.1 hzero))
  · exact .inr ⟨⟨s, hs⟩, s', hs'⟩

theorem isFinite_of_beq_zero (h : x == 0.0) : x.isFinite = true := by
  obtain ⟨s, hs⟩ := beq_zero_iff.1 h
  change x.toModel.unpack.isFinite = true
  rw [hs]
  rfl

end Double

/-! ## Text and truth -/

namespace Value

variable {x y : Float}

theorem floatText_of_beq_zero (h : x == 0.0) : floatText x = "0" := by
  rw [floatText, Double.isFinite_of_beq_zero h, h]
  rfl

/-- **Equal doubles have one text**, zeros without their sign. -/
theorem floatText_eq_of_beq (h : x == y) : floatText x = floatText y := by
  rcases Double.eq_or_zero_of_beq h with rfl | ⟨hx, hy⟩
  · rfl
  · rw [floatText_of_beq_zero hx, floatText_of_beq_zero hy]

/-- Equal doubles select a field alike. -/
theorem isTruthy_float_eq_of_beq (h : x == y) : (float x).isTruthy = (float y).isTruthy := by
  rcases Double.eq_or_zero_of_beq h with rfl | ⟨hx, hy⟩
  · rfl
  · rw [isTruthy, isTruthy, bne, bne, hx, hy, Bool.not_true, Bool.false_and, Bool.false_and]

end Value

end QueryTree

import QueryTree.Proofs.Bits
import QueryTree.Proofs.Rounding

/-!
# Proofs/Shortest/Search — what the search for the shortest decimal finds

The numbers that read back as a double lie around it without a gap (`readsBack_between`). So a power
of ten has a multiple that reads back just if one of the two beside the double does, and the search
from coarse to fine stops at the first power that has one (`coarsest_shortest`). A decimal found
like that has no trailing zero, and none that reads back has fewer digits (`isShortest_shortest`).
-/

namespace QueryTree

/-! ## Powers of ten -/

theorem ten_zpow_pos (e : Int) : (0 : Rat) < (10 : Rat) ^ e :=
  Rat.zpow_pos (by decide)

theorem ten_zpow_le_ten_zpow {e e' : Int} (h : e ≤ e') : (10 : Rat) ^ e ≤ (10 : Rat) ^ e' := by
  obtain ⟨n, rfl⟩ := Int.le.dest h
  induction n with
  | zero => simp
  | succ n ih =>
    have hpos := ten_zpow_pos (e + n)
    rw [Int.natCast_add, ← Int.add_assoc, Int.natCast_one, Rat.zpow_add_one (by decide)]
    grind

/-- The numbers with no more than so many digits. -/
theorem length_toDigits_le_iff {n k : Nat} (h : 0 < k) :
    (Nat.toDigits 10 n).length ≤ k ↔ (n : Rat) < (10 : Rat) ^ (k : Int) := by
  have hcast : (10 : Rat) ^ (k : Int) = (10 ^ k : Nat) := (Rat.natCast_pow 10 k).symm
  rw [hcast, Rat.natCast_lt_natCast, Nat.length_toDigits_le_iff (by decide) h]

namespace Decimal

/-- A trailing zero belongs to the next power of ten. -/
theorem toRat_mul_ten (c : Nat) (p : Int) : toRat ⟨10 * c, p⟩ = toRat ⟨c, p + 1⟩ := by
  have hcast : ((10 * c : Nat) : Rat) = 10 * c := Rat.natCast_mul 10 c
  rw [toRat, toRat, hcast, Rat.zpow_add_one (by decide)]
  grind

/-- A multiple of a power of ten is one of each smaller power. -/
theorem exists_toRat_eq {d : Decimal} {p : Int} (h : p ≤ d.exponent) :
    ∃ c : Nat, d.toRat = toRat ⟨c, p⟩ := by
  obtain ⟨n, hn⟩ := Int.le.dest h
  induction n generalizing p with
  | zero => exact ⟨d.coefficient, by rw [toRat, toRat]; simp_all⟩
  | succ n ih =>
    obtain ⟨c, hc⟩ := @ih (p + 1) (by omega) (by omega)
    exact ⟨10 * c, hc.trans (toRat_mul_ten c p).symm⟩

theorem toRat_le_toRat {c c' : Nat} (h : c ≤ c') (p : Int) : toRat ⟨c, p⟩ ≤ toRat ⟨c', p⟩ :=
  Rat.mul_le_mul_of_nonneg_right (Rat.natCast_le_natCast.2 h) (Rat.le_of_lt (ten_zpow_pos p))

/-- The exponent of the first digit. -/
def leading (d : Decimal) : Int :=
  d.exponent + d.digits.length - 1

/-- A decimal stands between the power of ten of its first digit and the next one. -/
theorem ten_zpow_leading_le {d : Decimal} (h : d.coefficient ≠ 0) :
    (10 : Rat) ^ d.leading ≤ d.toRat := by
  obtain ⟨k, hk⟩ : ∃ k, d.digits.length = k + 1 :=
    ⟨d.digits.length - 1, by have : 0 < d.digits.length := Nat.length_toDigits_pos; omega⟩
  have hleading : d.leading = k + d.exponent := by
    rw [leading, hk]
    omega
  have hcoefficient : (10 : Rat) ^ (k : Int) ≤ d.coefficient := by
    cases k with
    | zero => exact Rat.natCast_le_natCast.2 (Nat.one_le_iff_ne_zero.2 h)
    | succ k =>
      rw [← Rat.not_lt, ← length_toDigits_le_iff (Nat.succ_pos k)]
      exact fun hle => absurd (show d.digits.length ≤ k + 1 from hle) (by omega)
  rw [hleading, Rat.zpow_add (by decide), toRat]
  exact Rat.mul_le_mul_of_nonneg_right hcoefficient (Rat.le_of_lt (ten_zpow_pos _))

theorem lt_ten_zpow_leading (d : Decimal) : d.toRat < (10 : Rat) ^ (d.leading + 1) := by
  have hpos : 0 < d.digits.length := Nat.length_toDigits_pos
  have hcoefficient : (d.coefficient : Rat) < (10 : Rat) ^ (d.digits.length : Int) :=
    (length_toDigits_le_iff hpos).1 (Nat.le_refl _)
  have hleading : d.leading + 1 = d.digits.length + d.exponent := by
    rw [leading]
    omega
  rw [hleading, Rat.zpow_add (by decide), toRat]
  exact Rat.mul_lt_mul_of_pos_right hcoefficient (ten_zpow_pos _)

end Decimal

namespace Double

open Decimal (toRat_mul_ten exists_toRat_eq toRat_le_toRat)

variable {x : Float}

/-! ## What reads back -/

theorem readsBack_iff {r : Rat} : readsBack x r = true ↔ nearestBits r = magnitudeBits x :=
  beq_iff_eq

theorem readsBack_magnitude (h : x.isFinite = true) : readsBack x (magnitude x) = true :=
  readsBack_iff.2 (nearestBits_ofMagnitudeBits (magnitudeBits_lt h))

/-- **Between numbers that read back all do.** -/
theorem readsBack_between {r s t : Rat} (hr : readsBack x r = true) (ht : readsBack x t = true)
    (hrs : r ≤ s) (hst : s ≤ t) : readsBack x s = true := by
  rw [readsBack_iff] at *
  have := nearestBits_mono hrs
  have := nearestBits_mono hst
  omega

/-- Whether a power of ten has a multiple that reads back. -/
def OnGrid (x : Float) (p : Int) : Prop :=
  ∃ c : Nat, readsBack x (Decimal.toRat ⟨c, p⟩) = true

/-- What reads back on a coarse grid does so on every finer one. -/
theorem onGrid_of_readsBack {d : Decimal} (h : readsBack x d.toRat = true) {p : Int}
    (hp : p ≤ d.exponent) : OnGrid x p := by
  obtain ⟨c, hc⟩ := exists_toRat_eq hp
  exact ⟨c, hc ▸ h⟩

/-! ## The multiples beside a double -/

theorem magnitude_nonneg (x : Float) : 0 ≤ magnitude x := by
  obtain ⟨c, n, -, heq⟩ := ofMagnitudeBits_eq (magnitudeBits x)
  rw [magnitude, heq]
  exact Rat.mul_nonneg Rat.natCast_nonneg (Rat.le_of_lt (two_zpow_pos _))

/-- The coefficient of the greatest multiple that is not above the double. -/
def below (x : Float) (p : Int) : Nat :=
  (magnitude x / (10 : Rat) ^ p).floor.toNat

/-- The multiple below a double is the whole part of its quotient. -/
theorem below_cast (x : Float) (p : Int) :
    (below x p : Int) = (magnitude x / (10 : Rat) ^ p).floor := by
  have hdiv : (0 : Rat) ≤ magnitude x / (10 : Rat) ^ p := by
    rw [← Rat.not_lt, Rat.div_lt_iff (ten_zpow_pos p), Rat.zero_mul, Rat.not_lt]
    exact magnitude_nonneg x
  exact Int.toNat_of_nonneg (Rat.le_floor_iff.2 hdiv)

/-- It is at most the double… -/
theorem toRat_below_le (x : Float) (p : Int) :
    Decimal.toRat ⟨below x p, p⟩ ≤ magnitude x := by
  have hfloor := Rat.floor_le (magnitude x / (10 : Rat) ^ p)
  rw [← below_cast, Rat.intCast_natCast] at hfloor
  have hmul := Rat.mul_le_mul_of_nonneg_right hfloor (Rat.le_of_lt (ten_zpow_pos p))
  rwa [Rat.div_mul_cancel (Rat.ne_of_gt (ten_zpow_pos p))] at hmul

/-- …and the next one is above. -/
theorem lt_toRat_below (x : Float) (p : Int) :
    magnitude x < Decimal.toRat ⟨below x p + 1, p⟩ := by
  have hfloor := Rat.lt_floor_add_one (magnitude x / (10 : Rat) ^ p)
  have hcast : (((magnitude x / (10 : Rat) ^ p).floor + 1 : Int) : Rat)
      = (below x p + 1 : Nat) := by
    rw [← below_cast, ← Rat.intCast_natCast]
    rfl
  rwa [hcast, Rat.div_lt_iff (ten_zpow_pos p)] at hfloor

/-- A multiple is none above the lower neighbour, or none below the upper one. -/
theorem below_lt_of_lt {c : Nat} {p : Int} (h : magnitude x < Decimal.toRat ⟨c, p⟩) :
    below x p < c := by
  rw [← Nat.not_le]
  intro hle
  have := toRat_le_toRat hle p
  have := toRat_below_le x p
  grind

theorem le_below_of_le {c : Nat} {p : Int} (h : Decimal.toRat ⟨c, p⟩ ≤ magnitude x) :
    c ≤ below x p := by
  rw [← Nat.not_lt]
  intro hlt
  have := toRat_le_toRat (show below x p + 1 ≤ c from hlt) p
  have := lt_toRat_below x p
  grind

/-- **A power of ten has a multiple that reads back just if a neighbour of the double does.** -/
theorem onGrid_iff (h : x.isFinite = true) {p : Int} :
    OnGrid x p ↔ readsBack x (Decimal.toRat ⟨below x p, p⟩) = true
      ∨ readsBack x (Decimal.toRat ⟨below x p + 1, p⟩) = true := by
  refine ⟨fun ⟨c, hc⟩ => ?_, fun hor => hor.elim (fun h => ⟨_, h⟩) fun h => ⟨_, h⟩⟩
  have hx := readsBack_magnitude h
  by_cases hle : Decimal.toRat ⟨c, p⟩ ≤ magnitude x
  · exact .inl <| readsBack_between hc hx (toRat_le_toRat (le_below_of_le hle) p)
      (toRat_below_le x p)
  · have hlt := below_lt_of_lt (Rat.not_le.1 hle)
    exact .inr <| readsBack_between hx hc (Rat.le_of_lt (lt_toRat_below x p))
      (toRat_le_toRat hlt p)

/-! ## The search -/

/-- The two candidates are the neighbours of the double, the nearer first. -/
theorem nearestOn?_eq (x : Float) (p : Int) :
    nearestOn? x p = [⟨below x p, p⟩, ⟨below x p + 1, p⟩].find?
        (fun d : Decimal => readsBack x d.toRat)
      ∨ nearestOn? x p = [⟨below x p + 1, p⟩, ⟨below x p, p⟩].find?
        (fun d : Decimal => readsBack x d.toRat) := by
  have hlow := floor_le_roundEven (magnitude x / (10 : Rat) ^ p)
  have hhigh := roundEven_le (magnitude x / (10 : Rat) ^ p)
  simp only [nearestOn?, below]
  generalize roundEven (magnitude x / (10 : Rat) ^ p) = near at *
  generalize (magnitude x / (10 : Rat) ^ p).floor.toNat = floor at *
  rcases (by omega : near = floor ∨ near = floor + 1) with rfl | rfl
  · rw [show 2 * near + 1 - near = near + 1 by omega]
    exact .inl rfl
  · rw [show 2 * floor + 1 - (floor + 1) = floor by omega]
    exact .inr rfl

/-- What is found on a grid is one of the two multiples beside the double, and reads back. -/
theorem mem_of_nearestOn? {p : Int} {d : Decimal} (h : nearestOn? x p = some d) :
    d.exponent = p ∧ d.coefficient ≤ below x p + 1 ∧ readsBack x d.toRat = true := by
  have hmem : d = ⟨below x p, p⟩ ∨ d = ⟨below x p + 1, p⟩ := by
    rcases nearestOn?_eq x p with heq | heq
    · have hmem := List.mem_of_find?_eq_some (heq ▸ h)
      rwa [List.mem_cons, List.mem_singleton] at hmem
    · have hmem := List.mem_of_find?_eq_some (heq ▸ h)
      rwa [List.mem_cons, List.mem_singleton, or_comm] at hmem
  have hreads := List.find?_some h
  rcases hmem with rfl | rfl
  · exact ⟨rfl, Nat.le_succ _, hreads⟩
  · exact ⟨rfl, Nat.le_refl _, hreads⟩

/-- **Where the two multiples beside a double do not read back, none does**: what reads back is an
interval around the double. -/
theorem not_onGrid_of_nearestOn? (h : x.isFinite = true) {p : Int}
    (hnone : nearestOn? x p = none) : ¬OnGrid x p := by
  rw [onGrid_iff h, not_or]
  rcases nearestOn?_eq x p with heq | heq
  · simpa using heq.symm.trans hnone
  · simpa [and_comm] using heq.symm.trans hnone

/-- What the search finds: a multiple beside the double that reads back, of the greatest power of
ten up to the first one tried that has such a multiple. -/
structure Coarsest (x : Float) (top : Int) (d : Decimal) : Prop where
  readsBack : readsBack x d.toRat = true
  le_top : d.exponent ≤ top
  beside : d.coefficient ≤ below x d.exponent + 1
  coarser : ∀ p, d.exponent < p → p ≤ top → ¬OnGrid x p

/-- Powers of two from the least spacing on are multiples of the least power of ten. -/
theorem exists_two_zpow_eq (n : Nat) :
    ∃ c : Nat, (2 : Rat) ^ (-1074 + n : Int) = Decimal.toRat ⟨c, -1074⟩ := by
  induction n with
  | zero =>
    have hfive : (2 : Rat) ^ (-1074 : Int) = Decimal.toRat ⟨Nat.pow 5 1074, -1074⟩ := by
      decide +kernel
    exact ⟨_, hfive⟩
  | succ n ih =>
    obtain ⟨c, hc⟩ := ih
    have hcast : ((2 * c : Nat) : Rat) = 2 * c := Rat.natCast_mul 2 c
    refine ⟨2 * c, ?_⟩
    rw [Int.natCast_add, ← Int.add_assoc, Int.natCast_one, two_zpow_add_one, hc, Decimal.toRat,
      Decimal.toRat, hcast, Rat.mul_assoc]

/-- Every double is a multiple of the least power of ten. -/
theorem exists_magnitude_eq (x : Float) :
    ∃ c : Nat, magnitude x = Decimal.toRat ⟨c, -1074⟩ := by
  obtain ⟨k, n, -, heq⟩ := ofMagnitudeBits_eq (magnitudeBits x)
  obtain ⟨c, hc⟩ := exists_two_zpow_eq n
  have hcast : ((k * c : Nat) : Rat) = k * c := Rat.natCast_mul k c
  refine ⟨k * c, ?_⟩
  rw [magnitude, heq, hc, Decimal.toRat, Decimal.toRat, hcast, Rat.mul_assoc]

/-- **The search finds the coarsest grid**: the last one it tries has the double itself. -/
theorem coarsest_shortestFrom (h : x.isFinite = true) : ∀ (steps : Nat) (p : Int),
    p = steps - 1074 → Coarsest x p (shortestFrom x steps p)
  | 0, p, hp => by
      obtain rfl : p = -1074 := by omega
      obtain ⟨n, hn⟩ := exists_magnitude_eq x
      have hdiv : magnitude x / (10 : Rat) ^ (-1074 : Int) = n := by
        rw [hn]
        exact Rat.mul_div_cancel (Rat.ne_of_gt (ten_zpow_pos _))
      have hfound : shortestFrom x 0 (-1074) = ⟨n, -1074⟩ := by
        rw [shortestFrom, hdiv, roundEven_natCast]
      rw [hfound]
      refine ⟨hn ▸ readsBack_magnitude h, Int.le_refl _, ?_, fun p hlt hle => ?_⟩
      · exact Nat.le_succ_of_le (le_below_of_le (hn ▸ Rat.le_refl))
      · exact absurd hlt (Int.not_lt.2 hle)
  | steps + 1, p, hp => by
      rw [shortestFrom]
      cases hd : nearestOn? x p with
      | some d =>
        obtain ⟨rfl, hbeside, hreads⟩ := mem_of_nearestOn? hd
        exact ⟨hreads, Int.le_refl _, hbeside, fun p hlt hle => absurd hlt (Int.not_lt.2 hle)⟩
      | none =>
        have ih := coarsest_shortestFrom h steps (p - 1) (by omega)
        rw [Option.getD_none]
        refine ⟨ih.readsBack, Int.le_trans ih.le_top (by omega), ih.beside, fun q hlt hle => ?_⟩
        rcases (by omega : q = p ∨ q ≤ p - 1) with rfl | hle
        · exact not_onGrid_of_nearestOn? h hd
        · exact ih.coarser q hlt hle

/-! ## The shortest decimal -/

/-- The search begins above the double. -/
theorem magnitude_lt_upperPower (x : Float) :
    magnitude x < (10 : Rat) ^ (upperPower (magnitude x) : Int) := by
  rw [upperPower]
  split
  · next hlt => simpa using hlt
  · have hlt := (length_toDigits_le_iff Nat.length_toDigits_pos).1
      (Nat.le_refl (Nat.toDigits 10 (magnitude x).floor.toNat).length)
    generalize (Nat.toDigits 10 (magnitude x).floor.toNat).length = k at *
    have hcast : (10 : Rat) ^ (k : Int) = (10 ^ k : Nat) := (Rat.natCast_pow 10 k).symm
    rw [hcast, Rat.natCast_lt_natCast] at hlt
    rw [hcast, ← Rat.intCast_natCast, ← Rat.floor_lt_iff]
    omega

/-- A neighbour on the first power tried is zero or one. -/
theorem below_upperPower (x : Float) : below x (upperPower (magnitude x)) = 0 := by
  have hlt : (magnitude x / (10 : Rat) ^ (upperPower (magnitude x) : Int)).floor < 1 := by
    rw [Rat.floor_lt_iff, Rat.div_lt_iff (ten_zpow_pos _)]
    simpa using magnitude_lt_upperPower x
  rw [below]
  omega

theorem coarsest_shortest (h : x.isFinite = true) :
    Coarsest x (upperPower (magnitude x)) (shortest x) :=
  coarsest_shortestFrom h _ _ (by omega)

/-- The shortest decimal of a double, however it is found: it reads back, it has no trailing zero,
and no decimal that reads back has fewer digits. -/
structure IsShortest (x : Float) (d : Decimal) : Prop where
  readsBack : readsBack x d.toRat = true
  trailing_ne_zero : d.coefficient % 10 ≠ 0
  fewest : ∀ d' : Decimal, Double.readsBack x d'.toRat = true →
    d.digits.length ≤ d'.digits.length

theorem IsShortest.coefficient_ne_zero {d : Decimal} (h : IsShortest x d) : d.coefficient ≠ 0 :=
  fun hzero => h.trailing_ne_zero (by rw [hzero])

namespace Coarsest

variable {d : Decimal} (hd : Coarsest x (upperPower (magnitude x)) d)

include hd

/-- A multiple of the next power of ten would have been found before, so there is none. -/
theorem not_onGrid (h : 1 < d.coefficient) : ¬OnGrid x (d.exponent + 1) := by
  refine hd.coarser _ (by omega) ?_
  have hbeside := hd.beside
  rcases Int.lt_or_eq_of_le hd.le_top with hlt | heq
  · exact hlt
  · rw [heq, below_upperPower] at hbeside
    omega

/-- A trailing zero would put the decimal on the next grid. -/
theorem trailing_ne_zero (h : d.coefficient ≠ 0) : d.coefficient % 10 ≠ 0 := by
  intro hten
  obtain ⟨c, hc⟩ : ∃ c, d.coefficient = 10 * c := ⟨d.coefficient / 10, by omega⟩
  have hrat : d.toRat = Decimal.toRat ⟨c, d.exponent + 1⟩ := by
    rw [← toRat_mul_ten, ← hc]
  exact hd.not_onGrid (by omega) ⟨c, hrat ▸ hd.readsBack⟩

/-- With fewer digits, a multiple of the same power of ten or a smaller one stands below the power of
ten of the first digit, and the decimal does not. Then this power reads back too. -/
theorem fewest {d' : Decimal} (hreads : Double.readsBack x d'.toRat = true) :
    d.digits.length ≤ d'.digits.length := by
  rw [← Nat.not_lt]
  intro hlt
  have hpos : 0 < d'.digits.length := Nat.length_toDigits_pos
  have hcoefficient : 1 < d.coefficient := by
    rw [← Nat.not_le]
    intro hle
    have hdigits : d.digits.length ≤ 1 := by
      rw [Decimal.digits, Nat.toDigits_of_lt_base (by omega)]
      exact Nat.le_refl 1
    omega
  refine hd.not_onGrid hcoefficient ?_
  by_cases hle : d.exponent + 1 ≤ d'.exponent
  · exact onGrid_of_readsBack hreads hle
  · have hleading : d'.leading + 1 ≤ d.leading := by
      rw [Decimal.leading, Decimal.leading]
      omega
    have hpower : Decimal.toRat ⟨1, d.leading⟩ = (10 : Rat) ^ d.leading := Rat.one_mul _
    have hbelow : d'.toRat ≤ Decimal.toRat ⟨1, d.leading⟩ := by
      rw [hpower]
      exact Rat.le_trans (Rat.le_of_lt d'.lt_ten_zpow_leading) (ten_zpow_le_ten_zpow hleading)
    have habove : Decimal.toRat ⟨1, d.leading⟩ ≤ d.toRat := by
      rw [hpower]
      exact Decimal.ten_zpow_leading_le (by omega)
    refine onGrid_of_readsBack (readsBack_between hreads hd.readsBack hbelow habove) ?_
    change d.exponent + 1 ≤ d.leading
    rw [Decimal.leading]
    omega

end Coarsest

/-- **The search finds the shortest decimal.** -/
theorem isShortest_shortest (hfinite : x.isFinite = true) (hzero : (x == 0.0) = false) :
    IsShortest x (shortest x) where
  readsBack := (coarsest_shortest hfinite).readsBack
  trailing_ne_zero :=
    (coarsest_shortest hfinite).trailing_ne_zero (coefficient_shortest_ne_zero hzero)
  fewest _ := (coarsest_shortest hfinite).fewest

end Double

end QueryTree

import QueryTree.Proofs.Denotation
import QueryTree.Proofs.Entries
import QueryTree.Proofs.Finite
import QueryTree.Value.OfJson

/-!
# Proofs/Integers — how the integers of JSON are written

A JSON value is written as its literal, each number on its own (`Value.text_ofJson`). An integer of
a signed word keeps its digits. One above them becomes a double, whose shortest decimal is a whole
number again, with no point and no exponent: the integers near a double all read back, so no power
of ten below one is tried (`exponent_shortest_ofInt`).
-/

namespace QueryTree

/-! ## Literals -/

namespace Json

mutual

/-- The literal of a JSON value, with the keys of objects bare and the numbers as they are given. -/
def literal (write : Number → String) : Json → String
  | .null => "null"
  | .bool b => if b then "true" else "false"
  | .number n => write n
  | .string s => (Quoted.writes s).text
  | .array items => "[" ++ ", ".intercalate (itemLiterals write items) ++ "]"
  | .object members => r"{" ++ ", ".intercalate (memberLiterals write members) ++ r"}"

/-- The literals of the items of an array. -/
def itemLiterals (write : Number → String) : List Json → List String
  | [] => []
  | item :: items => item.literal write :: itemLiterals write items

/-- The literals of the members of an object, each behind its key. -/
def memberLiterals (write : Number → String) : List (Named Json) → List String
  | [] => []
  | ⟨key, json⟩ :: members => (key ++ ": " ++ json.literal write) :: memberLiterals write members

end

end Json

namespace Value

mutual

/-- **A JSON value is written as its literal**, each number by itself. -/
theorem text_ofJson : ∀ json : Json,
    (ofJson json).text = json.literal fun n => (ofNumber n).text
  | .null => by
      rw [ofJson, Json.literal]
      exact Writes.text_singleton _
  | .bool b => by
      rw [ofJson, Json.literal]
      exact Writes.text_singleton _
  | .number n => by rw [ofJson, Json.literal]
  | .string s => by rw [ofJson, Json.literal]; rfl
  | .array items => by rw [ofJson, Json.literal, text_list, texts_ofItems]
  | .object members => by
      rw [ofJson, Json.literal, text_object, Arguments.text_writes, texts_ofMembers]

theorem texts_ofItems : ∀ items : List Json,
    (ofItems items).map text = Json.itemLiterals (fun n => (ofNumber n).text) items
  | [] => rfl
  | item :: items => by
      rw [ofItems, List.map_cons, text_ofJson item, texts_ofItems items, Json.itemLiterals]

theorem texts_ofMembers : ∀ members : List (Named Json),
    (ofMembers members).map Arguments.entryText
      = Json.memberLiterals (fun n => (ofNumber n).text) members
  | [] => rfl
  | ⟨key, json⟩ :: members => by
      rw [ofMembers, List.map_cons, Arguments.entryText, text_ofJson json, texts_ofMembers members,
        Json.memberLiterals]

end

end Value

/-! ## Doubles near integers -/

namespace Double

variable {n : Nat}

theorem ofInt_natCast (n : Nat) : ofInt n = nearest false n := by
  have hneg : decide ((n : Int) < 0) = false := by simp
  rw [ofInt, hneg, Int.natAbs_natCast]

theorem magnitudeBits_ofInt (h : n < 0x10000000000000000) :
    magnitudeBits (ofInt n) = nearestBits n := by
  rw [ofInt_natCast, magnitudeBits_nearest (nearestBits_natCast_lt h)]

theorem isNegative_ofInt (h : n < 0x10000000000000000) : isNegative (ofInt n) = false := by
  have hlt := nearestBits_natCast_lt h
  rw [isNegative, ofInt_natCast, toNat_toBits_nearest hlt, if_neg Bool.false_ne_true,
    decide_eq_false_iff_not]
  rw [infinityBits, perBinade] at hlt
  simp only [signBit]
  omega

theorem ofInt_ne_zero (hpos : 0 < n) (h : n < 0x10000000000000000) :
    (ofInt n == 0.0) = false := by
  have hone : nearestBits 1 ≤ nearestBits n := nearestBits_mono (Rat.natCast_le_natCast.2 hpos)
  have hbits : nearestBits 1 = 0x3ff0000000000000 := by decide +kernel
  rw [Bool.eq_false_iff]
  intro hzero
  have := magnitudeBits_of_beq_zero hzero
  rw [magnitudeBits_ofInt h] at this
  omega

/-- An integer reads back as the double nearest to it. -/
theorem onGrid_ofInt (h : n < 0x10000000000000000) : OnGrid (ofInt n) 0 := by
  refine ⟨n, readsBack_iff.2 ?_⟩
  have hrat : Decimal.toRat ⟨n, 0⟩ = n := Rat.mul_one _
  rw [hrat, magnitudeBits_ofInt h]

/-- **The shortest decimal of a double near an integer is an integer.** -/
theorem exponent_shortest_ofInt (h : n < 0x10000000000000000) :
    0 ≤ (shortest (ofInt n)).exponent := by
  have hfinite : (ofInt n).isFinite = true := isFinite_ofInt h
  rw [← Int.not_lt]
  intro hlt
  exact (coarsest_shortest hfinite).coarser 0 hlt (Int.natCast_nonneg _) (onGrid_ofInt h)

/-- It is below `10 ^ 21`, which is far from all integers of 64 binary digits. -/
theorem leading_shortest_ofInt (hpos : 0 < n) (h : n < 0x10000000000000000) :
    (shortest (ofInt n)).leading ≤ 20 := by
  have hfinite : (ofInt n).isFinite = true := isFinite_ofInt h
  have hshortest := isShortest_shortest hfinite (ofInt_ne_zero hpos h)
  have hreads := readsBack_iff.1 hshortest.readsBack
  rw [magnitudeBits_ofInt h] at hreads
  rw [← Int.not_lt]
  intro hlt
  have hlow : (10 : Rat) ^ (21 : Int) ≤ (shortest (ofInt n)).toRat :=
    Rat.le_trans (ten_zpow_le_ten_zpow (by omega))
      (Decimal.ten_zpow_leading_le hshortest.coefficient_ne_zero)
  have hfar := nearestBits_mono hlow
  have hnear : nearestBits n ≤ nearestBits (0x10000000000000000 : Nat) :=
    nearestBits_mono (Rat.natCast_le_natCast.2 (Nat.le_of_lt h))
  have hgap : nearestBits (0x10000000000000000 : Nat) < nearestBits ((10 : Rat) ^ (21 : Int)) := by
    decide +kernel
  omega

end Double

/-! ## Texts of integers -/

/-- Zeros behind the digits of a number are digits of a greater one. -/
theorem toDigits_append_zeros {c : Nat} (h : c ≠ 0) : ∀ k : Nat,
    Nat.toDigits 10 c ++ List.replicate k '0'
      = Nat.toDigits 10 (Nat.ofDigitChars 10 (List.replicate k '0') c)
  | 0 => by simp
  | k + 1 => by
      have hzero : Nat.ofDigitChars 10 (List.replicate (k + 1) '0') c
          = Nat.ofDigitChars 10 (List.replicate k '0') (10 * c) := rfl
      have hten : Nat.toDigits 10 (10 * c) = Nat.toDigits 10 c ++ ['0'] :=
        (Nat.toDigits_append_toDigits (show 1 < 10 by decide) (Nat.pos_of_ne_zero h)
          (show 0 < 10 by decide)).symm
      rw [hzero, ← toDigits_append_zeros (by omega) k, hten, List.append_assoc]
      rfl

/-- The integer that is written for an integer of JSON: above the signed words, the shortest decimal
of the nearest double. -/
def Value.writtenInteger (n : Int) : Int :=
  if n < 0x8000000000000000 then n else (Double.shortest (Double.ofInt n)).toRat.floor

namespace Value

theorem writtenInteger_of_lt {n : Int} (h : n < 0x8000000000000000) : writtenInteger n = n :=
  if_pos h

/-- A whole decimal is written without point and exponent, as its value. -/
theorem text_numeral_of_whole {d : Decimal} (h : d.coefficient ≠ 0) (hexponent : 0 ≤ d.exponent)
    (hleading : d.leading ≤ 20) :
    ∃ N : Nat, d.toRat = N ∧ (floatLayout.numeral false d).text = N.repr := by
  have hleast : -6 ≤ d.leading := by
    rw [Decimal.leading]
    omega
  have hnumeral : floatLayout.numeral false d = ⟨false,
      Nat.toDigits 10 d.coefficient ++ List.replicate d.exponent.toNat '0', [], none⟩ := by
    rw [Layout.numeral_eq, if_pos ⟨hleast, hleading⟩, Layout.plain, if_pos hexponent]
    rfl
  refine ⟨Nat.ofDigitChars 10 (List.replicate d.exponent.toNat '0') d.coefficient, ?_, ?_⟩
  · have hzeros := Decimal.toRat_zeros d.coefficient d.exponent d.exponent.toNat
    rw [show d.exponent - d.exponent.toNat = 0 by omega] at hzeros
    exact hzeros.symm.trans (Rat.mul_one _)
  · rw [hnumeral, ← String.toList_inj, Numeral.toList_text, toDigits_append_zeros h,
      Nat.toList_repr]
    simp

variable {n : Nat}

/-- An integer of an unsigned word is written as the shortest decimal of the nearest double. -/
theorem exists_text_float_ofInt (hpos : 0 < n) (h : n < 0x10000000000000000) :
    ∃ N : Nat, (Double.shortest (Double.ofInt n)).toRat = N
      ∧ (float (Double.ofInt n)).text = N.repr := by
  have hfinite : (Double.ofInt n).isFinite = true := Double.isFinite_ofInt h
  have hzero := Double.ofInt_ne_zero hpos h
  rw [text_float, floatTextBy_eq hfinite hzero, Double.isNegative_ofInt h]
  exact text_numeral_of_whole (Double.coefficient_shortest_ne_zero hzero)
    (Double.exponent_shortest_ofInt h) (Double.leading_shortest_ofInt hpos h)

/-- **Above the signed words**, what is written is a whole number with the same nearest double. -/
theorem writtenInteger_of_le (hle : 0x8000000000000000 ≤ n) (h : n < 0x10000000000000000) :
    (writtenInteger n : Rat) = (Double.shortest (Double.ofInt n)).toRat
      ∧ (float (Double.ofInt n)).text = (writtenInteger n).repr
      ∧ Double.ofInt (writtenInteger n) = Double.ofInt n := by
  have hpos : 0 < n := by omega
  have hfinite : (Double.ofInt n).isFinite = true := Double.isFinite_ofInt h
  have hshortest := Double.isShortest_shortest hfinite (Double.ofInt_ne_zero hpos h)
  have hreads := Double.readsBack_iff.1 hshortest.readsBack
  obtain ⟨N, hN, htext⟩ := exists_text_float_ofInt hpos h
  have hwritten : writtenInteger n = N := by
    rw [writtenInteger, if_neg (by omega), hN, ← Rat.intCast_natCast, Rat.floor_intCast]
  rw [hN, Double.magnitudeBits_ofInt h] at hreads
  rw [hwritten, hN, htext]
  refine ⟨Rat.intCast_natCast N, rfl, ?_⟩
  rw [Double.ofInt_natCast, Double.ofInt_natCast, Double.nearest, Double.nearest, hreads]

/-- **Each integer is written by its digits or those of its shortest decimal.** -/
theorem text_ofNumber_int {n : Int} (h : -0x8000000000000000 ≤ n ∧ n < 0x10000000000000000) :
    (ofNumber (.int n h)).text = (writtenInteger n).repr := by
  rw [ofNumber]
  by_cases hlt : n < 0x8000000000000000
  · have hword : (Int64.ofInt n).toInt = n := Int64.toInt_ofInt_of_le h.1 hlt
    rw [if_pos hlt, writtenInteger_of_lt hlt, text, writes, hword]
    exact Writes.text_singleton _
  · obtain ⟨m, rfl⟩ : ∃ m : Nat, n = m := ⟨n.toNat, by omega⟩
    rw [if_neg hlt]
    exact (writtenInteger_of_le (by omega) (by omega)).2.1

/-- **Integers through JSON.** Every number of a JSON value is written in its place. An integer of a
signed word keeps its digits. A greater one becomes the whole number that is the shortest decimal of
its nearest double, and has the same nearest double. -/
theorem text_ofJson_integers :
    (∀ json : Json, (ofJson json).text = json.literal fun
        | .int n _ => (writtenInteger n).repr
        | .float x _ => (float x).text)
      ∧ (∀ n : Int, n < 0x8000000000000000 → writtenInteger n = n)
      ∧ ∀ n : Int, 0x8000000000000000 ≤ n → n < 0x10000000000000000 →
        Double.IsShortest (Double.ofInt n) (Double.shortest (Double.ofInt n))
          ∧ (writtenInteger n : Rat) = (Double.shortest (Double.ofInt n)).toRat
          ∧ Double.ofInt (writtenInteger n) = Double.ofInt n := by
  refine ⟨fun json => ?_, fun n => writtenInteger_of_lt, fun n hle hlt => ?_⟩
  · have hnumber : (fun n => (ofNumber n).text) = fun
        | .int n _ => (writtenInteger n).repr
        | .float x _ => (float x).text := by
      funext n
      cases n with
      | int n h => exact text_ofNumber_int h
      | float x h => rfl
    rw [text_ofJson, hnumber]
  · obtain ⟨m, rfl⟩ : ∃ m : Nat, n = m := ⟨n.toNat, by omega⟩
    obtain ⟨hrat, -, hnearest⟩ := writtenInteger_of_le (n := m) (by omega) (by omega)
    have hfinite : (Double.ofInt m).isFinite = true := Double.isFinite_ofInt (by omega)
    have hzero := Double.ofInt_ne_zero (n := m) (by omega) (by omega)
    exact ⟨Double.isShortest_shortest hfinite hzero, hrat, hnearest⟩

/-- The least and the greatest integer of a signed word, and two above them: one is the shortest
decimal of its double, the other is not. -/
def wordEnds : Json :=
  .array [.number (.int (-9223372036854775808) (by decide)),
    .object [⟨"id", .number (.int 9223372036854775807 (by decide))⟩],
    .number (.int 9223372036854776000 (by decide)), .number (.int 18446744073709551615 (by decide))]

theorem text_ofJson_integers_wordEnds :
    (ofJson wordEnds).text = r"[-9223372036854775808, {id: 9223372036854775807}, "
        ++ "9223372036854776000, 18446744073709552000]"
      ∧ writtenInteger 9223372036854775807 = 9223372036854775807
      ∧ Double.ofInt (writtenInteger 18446744073709551615) = Double.ofInt 18446744073709551615 := by
  obtain ⟨htext, hword, hdouble⟩ := text_ofJson_integers
  refine ⟨?_, hword _ (by decide), (hdouble _ (by decide) (by decide)).2.2⟩
  rw [htext]
  decide +kernel

/-- **Not every integer keeps its digits.** The first above the signed words is a double, and is not
written as this double but as its shortest decimal. -/
theorem text_ofJson_ne_literal :
    (ofJson (.number (.int 9223372036854775808 (by decide)))).text = "9223372036854776000"
      ∧ (ofJson (.number (.int 9223372036854775808 (by decide)))).text
        ≠ Json.literal (fun
          | .int n _ => n.repr
          | .float x _ => (float x).text) (.number (.int 9223372036854775808 (by decide))) := by
  have htext : (ofJson (.number (.int 9223372036854775808 (by decide)))).text
      = "9223372036854776000" := by
    decide +kernel
  refine ⟨htext, ?_⟩
  rw [htext]
  decide

end Value

end QueryTree

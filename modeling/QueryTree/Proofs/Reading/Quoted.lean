import QueryTree.Text.Quoted

/-!
# Proofs/Reading/Quoted — literals read back

`Quoted.scan` undoes `Quoted.writes` whatever follows the literal: each character is written in one
of three ways (short escape, code, itself), and the scanner knows each by how it begins. None of
them needs a control character (`le_toNat_writes`).
-/

namespace QueryTree.Quoted

/-- A literal behind its opening quote. -/
theorem toList_writes (s : String) : (writes s).text.toList
    = '"' :: (s.toList.flatMap fun c => (escape c).toList) ++ ['"'] := by
  simp [writes, Writes.toList_text, List.flatMap_map]

theorem hexDigit?_digitChar : ∀ {n : Nat}, n < 16 → hexDigit? (Nat.digitChar n) = some n := by
  decide

/-- The code of a character below U+0100 is written in two digits behind two zeros. -/
theorem hex?_digitChar {n : Nat} (h : n < 0x100) :
    hex? '0' '0' (Nat.digitChar (n / 16)) (Nat.digitChar (n % 16)) = some n := by
  have hzero : hexDigit? '0' = some 0 := by decide
  simp only [hex?, hzero, hexDigit?_digitChar (n := n / 16) (by omega),
    hexDigit?_digitChar (n := n % 16) (by omega)]
  simp only [bind, Option.bind, pure]
  congr 1
  omega

theorem ofCodeUnit?_toNat (c : Char) : ofCodeUnit? c.toNat = some c := by
  have hvalid : c.toNat.isValidChar := c.valid
  rw [ofCodeUnit?, dif_pos hvalid]
  rfl

/-- A character that stands for itself. -/
theorem scan_cons {c : Char} (hquote : c ≠ '"') (hslash : c ≠ '\\') (hcode : ¬ c.toNat < 0x20)
    (rest : List Char) : scan (c :: rest) = (scan rest).map fun (s, after) => (c :: s, after) := by
  rw [scan.eq_def]
  split
  case h_5 heq =>
    obtain ⟨rfl, rfl⟩ := List.cons.inj heq
    rw [if_neg hcode]
  all_goals simp_all

/-- **One character is read as it was written.** -/
theorem scan_escape (c : Char) (rest : List Char) :
    scan ((escape c).toList ++ rest) = (scan rest).map fun (s, after) => (c :: s, after) := by
  fun_cases escape c with
  | case1 | case2 | case3 | case4 | case5 | case6 | case7 => simp [scan, unescape?]
  | case8 c _ _ _ _ _ _ _ hcode =>
    simp only [String.toList_ofList, List.cons_append, List.nil_append]
    rw [scan, hex?_digitChar (by omega)]
    simp [ofCodeUnit?_toNat]
  | case9 c hquote hslash _ _ _ _ _ hcode =>
    rw [String.toList_singleton, List.singleton_append]
    exact scan_cons (by simpa using hquote) (by simpa using hslash) hcode rest

/-- **A literal is read as it was written**, up to its closing quote and no further. -/
theorem scan_flatMap_escape (rest : List Char) : ∀ s : List Char,
    scan ((s.flatMap fun c => (escape c).toList) ++ '"' :: rest) = some (s, rest)
  | [] => by simp [scan]
  | c :: s => by
      rw [List.flatMap_cons, List.append_assoc, scan_escape, scan_flatMap_escape rest s]
      rfl

/-- **Two literals that begin two equal texts are the same.** -/
theorem writes_append_inj {s s' : String} {rest rest' : List Char}
    (h : (writes s).text.toList ++ rest = (writes s').text.toList ++ rest') :
    s = s' ∧ rest = rest' := by
  simp only [toList_writes, List.cons_append, List.append_assoc, List.nil_append,
    List.cons.injEq, true_and] at h
  have hscan := congrArg scan h
  simp only [scan_flatMap_escape, Option.some.injEq, Prod.mk.injEq] at hscan
  exact ⟨String.toList_injective hscan.1, hscan.2⟩

/-! ## Characters of a literal -/

theorem le_toNat_digitChar : ∀ {n : Nat}, n < 16 → 0x20 ≤ (Nat.digitChar n).toNat := by
  decide

theorem le_toNat_escape (c : Char) : ∀ c' ∈ (escape c).toList, 0x20 ≤ c'.toNat := by
  have hall : (escape c).toList.all (0x20 ≤ ·.toNat) := by
    fun_cases escape c with
    | case1 | case2 | case3 | case4 | case5 | case6 | case7 => decide
    | case8 c _ _ _ _ _ _ _ hcode =>
      have hhigh := le_toNat_digitChar (n := c.toNat / 16) (by omega)
      have hlow := le_toNat_digitChar (n := c.toNat % 16) (by omega)
      simp [hhigh, hlow]
    | case9 c _ _ _ _ _ _ _ hcode => simpa using hcode
  simpa using hall

/-- **A literal has no control character in it**, whatever its text is. -/
theorem le_toNat_writes (s : String) : ∀ c ∈ (writes s).text.toList, 0x20 ≤ c.toNat := by
  have hquote : 0x20 ≤ '"'.toNat := by decide
  rw [toList_writes, List.cons_append, List.forall_mem_cons, List.forall_mem_append,
    List.forall_mem_singleton, List.forall_mem_flatMap]
  exact ⟨hquote, fun c _ => le_toNat_escape c, hquote⟩

end QueryTree.Quoted

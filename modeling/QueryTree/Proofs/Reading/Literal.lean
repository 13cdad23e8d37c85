import QueryTree.Proofs.Reading.Quoted

/-!
# Proofs/Reading/Literal — string literals are safe and read back

A literal in a longer text ends where its writer ended it, whatever follows. Two views of it: a
reader of JSON literals (`Quoted.read?`, exact by `read?_eq_some_iff`) finds the text again and
stops behind the closing quote, and a look at the characters alone finds no other quote that could
close it, since each one inside stands behind an odd number of backslashes (`literal_safe`).
-/

namespace QueryTree

namespace Quoted

/-! ## The literals of JSON -/

/-- The letters of the short escapes and the characters they stand for. -/
def shortEscapes : List (Char × Char) :=
  [('"', '"'), ('\\', '\\'), ('/', '/'), ('b', '\x08'), ('f', '\x0c'), ('n', '\n'), ('r', '\r'),
    ('t', '\t')]

/-- **What stands between the quotes, and the text it stands for**: characters for themselves, short
escapes, codes of four hexadecimal digits, and pairs of codes for the characters above U+FFFF. -/
inductive Denotes : List Char → List Char → Prop where
  | nil : Denotes [] []
  | plain {c : Char} {cs s : List Char} (quote : c ≠ '"') (slash : c ≠ '\\')
    (code : 0x20 ≤ c.toNat) (rest : Denotes cs s) : Denotes (c :: cs) (c :: s)
  | escape {c x : Char} {cs s : List Char} (letter : (c, x) ∈ shortEscapes)
    (rest : Denotes cs s) : Denotes ('\\' :: c :: cs) (x :: s)
  | code {a b c d x : Char} {cs s : List Char} (digits : hex? a b c d = some x.toNat)
    (rest : Denotes cs s) : Denotes ('\\' :: 'u' :: a :: b :: c :: d :: cs) (x :: s)
  | pair {a b c d a' b' c' d' x : Char} {high low : Nat} {cs s : List Char}
    (digits : hex? a b c d = some high) (digits' : hex? a' b' c' d' = some low)
    (isHigh : 0xD800 ≤ high ∧ high < 0xDC00) (isLow : 0xDC00 ≤ low ∧ low < 0xE000)
    (value : x.toNat = 0x10000 + (high - 0xD800) * 0x400 + (low - 0xDC00))
    (rest : Denotes cs s) :
    Denotes ('\\' :: 'u' :: a :: b :: c :: d :: '\\' :: 'u' :: a' :: b' :: c' :: d' :: cs) (x :: s)

theorem unescape?_eq_some_iff {c x : Char} : unescape? c = some x ↔ (c, x) ∈ shortEscapes := by
  fun_cases unescape? c <;> simp_all [shortEscapes, eq_comm]

theorem ofCodeUnit?_eq_some_iff {n : Nat} {x : Char} : ofCodeUnit? n = some x ↔ x.toNat = n := by
  refine ⟨fun h => ?_, fun h => h ▸ ofCodeUnit?_toNat x⟩
  by_cases hvalid : n.isValidChar
  · rw [ofCodeUnit?, dif_pos hvalid] at h
    obtain rfl := Option.some.inj h
    rfl
  · rw [ofCodeUnit?, dif_neg hvalid] at h
    cases h

/-- A surrogate alone is no character. -/
theorem ofCodeUnit?_of_surrogate {n : Nat} (h : 0xD800 ≤ n ∧ n < 0xE000) :
    ofCodeUnit? n = none := by
  have hvalid : ¬ n.isValidChar := by
    rintro (hlow | hhigh) <;> omega
  exact dif_neg hvalid

theorem ofSurrogates?_eq_some_iff {high low : Nat} {x : Char} :
    ofSurrogates? high low = some x ↔ (0xD800 ≤ high ∧ high < 0xDC00)
      ∧ (0xDC00 ≤ low ∧ low < 0xE000)
      ∧ x.toNat = 0x10000 + (high - 0xD800) * 0x400 + (low - 0xDC00) := by
  unfold ofSurrogates?
  split
  · next h =>
    rw [ofCodeUnit?_eq_some_iff]
    exact ⟨fun hx => ⟨⟨h.1, h.2.1⟩, h.2.2, hx⟩, fun hx => hx.2.2⟩
  · next h =>
    refine ⟨nofun, fun hx => absurd ?_ h⟩
    exact ⟨hx.1.1, hx.1.2, hx.2.1⟩

theorem map_cons_eq_some_iff {x : Char} {read : Option (List Char × List Char)}
    {s after : List Char} : (read.map fun (s, after) => (x :: s, after)) = some (s, after)
      ↔ ∃ s', read = some (s', after) ∧ s = x :: s' := by
  constructor
  · intro h
    obtain ⟨⟨s', rest⟩, hread, heq⟩ := Option.map_eq_some_iff.1 h
    cases heq
    exact ⟨s', hread, rfl⟩
  · rintro ⟨s', rfl, rfl⟩
    rfl

/-- **What is read is a literal**, as far as it is read. -/
theorem exists_denotes_of_scan {cs s after : List Char} (h : scan cs = some (s, after)) :
    ∃ body, Denotes body s ∧ cs = body ++ '"' :: after := by
  fun_induction scan cs generalizing s with
  | case2 rest =>
    cases h
    exact ⟨[], .nil, rfl⟩
  | case4 a b c d n hdigits x rest hunit ih =>
    obtain ⟨s, hs, rfl⟩ := map_cons_eq_some_iff.1 h
    obtain ⟨body, hbody, rfl⟩ := ih hs
    obtain rfl := ofCodeUnit?_eq_some_iff.1 hunit
    exact ⟨_, .code hdigits hbody, rfl⟩
  | case5 a b c d high hdigits a' b' c' d' rest hunit x hpair ih =>
    obtain ⟨s, hs, rfl⟩ := map_cons_eq_some_iff.1 h
    obtain ⟨body, hbody, rfl⟩ := ih hs
    obtain ⟨low, hdigits', hx⟩ := Option.bind_eq_some_iff.1 hpair
    obtain ⟨hhigh, hlow, hvalue⟩ := ofSurrogates?_eq_some_iff.1 hx
    exact ⟨_, .pair hdigits hdigits' hhigh hlow hvalue hbody, rfl⟩
  | case8 c rest _ x hletter ih =>
    obtain ⟨s, hs, rfl⟩ := map_cons_eq_some_iff.1 h
    obtain ⟨body, hbody, rfl⟩ := ih hs
    exact ⟨_, .escape (unescape?_eq_some_iff.1 hletter) hbody, rfl⟩
  | case11 c rest hquote _ hslash hcode ih =>
    obtain ⟨s, hs, rfl⟩ := map_cons_eq_some_iff.1 h
    obtain ⟨body, hbody, rfl⟩ := ih hs
    -- A backslash is read here only at the very end, where there is no literal to be read.
    have hslash : c ≠ '\\' := by
      rintro rfl
      cases body with
      | nil => exact hslash '"' after rfl rfl
      | cons c body => exact hslash c (body ++ '"' :: after) rfl rfl
    exact ⟨_, .plain hquote hslash (by omega) hbody, rfl⟩
  | _ => cases h

/-- A short escape is read as the character it stands for. -/
theorem scan_slash {c x : Char} (h : unescape? c = some x) (rest : List Char) :
    scan ('\\' :: c :: rest) = (scan rest).map fun (s, after) => (x :: s, after) := by
  revert h
  fun_cases unescape? c with
  | case9 => exact nofun
  | _ =>
    rintro ⟨⟩
    simp [scan, unescape?]

/-- **A literal is read**, up to its closing quote, whatever follows. -/
theorem Denotes.scan_append {body s : List Char} (h : Denotes body s) (after : List Char) :
    scan (body ++ '"' :: after) = some (s, after) := by
  induction h with
  | nil => simp [scan]
  | plain hquote hslash hcode _ ih =>
    rw [List.cons_append, scan_cons hquote hslash (by omega), ih]
    rfl
  | escape hletter _ ih =>
    rw [List.cons_append, List.cons_append, scan_slash (unescape?_eq_some_iff.2 hletter), ih]
    rfl
  | code hdigits _ ih =>
    simp only [List.cons_append]
    rw [scan, hdigits]
    simp [ofCodeUnit?_toNat, ih]
  | pair hdigits hdigits' hhigh hlow hvalue _ ih =>
    have hunit := ofCodeUnit?_of_surrogate ⟨hhigh.1, Nat.lt_trans hhigh.2 (by decide)⟩
    have hpair := ofSurrogates?_eq_some_iff.2 ⟨hhigh, hlow, hvalue⟩
    simp only [List.cons_append]
    rw [scan, hdigits]
    simp [hunit, hdigits', hpair, ih]

/-- Reads a literal from its opening quote on: its text, and what follows its closing quote. -/
def read? : List Char → Option (String × List Char)
  | '"' :: rest => (scan rest).map fun (s, after) => (String.ofList s, after)
  | _ => none

/-- **Exactly the literals of JSON are read**, each as the text it stands for. -/
theorem read?_eq_some_iff {cs : List Char} {s : String} {after : List Char} :
    read? cs = some (s, after)
      ↔ ∃ body, Denotes body s.toList ∧ cs = '"' :: (body ++ '"' :: after) := by
  constructor
  · intro h
    unfold read? at h
    split at h
    · obtain ⟨⟨chars, rest⟩, hscan, heq⟩ := Option.map_eq_some_iff.1 h
      obtain ⟨rfl, rfl⟩ := Prod.mk.inj heq
      obtain ⟨body, hbody, rfl⟩ := exists_denotes_of_scan hscan
      exact ⟨body, by rwa [String.toList_ofList], rfl⟩
    · cases h
  · rintro ⟨body, hbody, rfl⟩
    rw [read?, hbody.scan_append]
    exact congrArg (fun s => some (s, after)) String.ofList_toList

/-- **A literal is read back**, and what follows it is left. -/
theorem read?_writes (s : String) (rest : List Char) :
    read? ((writes s).text.toList ++ rest) = some (s, rest) := by
  rw [toList_writes, List.cons_append, List.cons_append, List.append_assoc, List.singleton_append,
    read?, scan_flatMap_escape]
  exact congrArg (fun s => some (s, rest)) String.ofList_toList

/-! ## Quotes behind backslashes -/

/-- The number of backslashes that a text ends with. -/
def slashes (cs : List Char) : Nat :=
  (cs.reverse.takeWhile (· == '\\')).length

theorem slashes_le_length (cs : List Char) : slashes cs ≤ cs.length := by
  rw [← List.length_reverse]
  exact (List.takeWhile_sublist _).length_le

/-- A character in front counts only if it is a backslash with nothing but backslashes behind. -/
theorem slashes_cons (c : Char) (cs : List Char) : slashes (c :: cs)
    = if slashes cs = cs.length ∧ c = '\\' then slashes cs + 1 else slashes cs := by
  have hlength : cs.reverse.length = cs.length := List.length_reverse
  simp only [slashes, List.reverse_cons, List.takeWhile_append, hlength]
  by_cases hall : (cs.reverse.takeWhile (· == '\\')).length = cs.length
  · by_cases hc : c = '\\' <;> simp [hall, hc]
  · simp [hall]

theorem slashes_cons_of_ne {c : Char} (h : c ≠ '\\') (cs : List Char) :
    slashes (c :: cs) = slashes cs := by
  rw [slashes_cons, if_neg fun hc => h hc.2]

/-- A backslash and the character it escapes keep the count odd or even. -/
theorem slashes_pair (c : Char) (cs : List Char) :
    slashes ('\\' :: c :: cs) % 2 = slashes cs % 2 := by
  have hle := slashes_le_length cs
  by_cases h : slashes cs = cs.length ∧ c = '\\'
  · have hfirst : slashes (c :: cs) = slashes cs + 1 := by rw [slashes_cons, if_pos h]
    rw [slashes_cons, hfirst, List.length_cons, if_pos ⟨by omega, rfl⟩]
    omega
  · have hfirst : slashes (c :: cs) = slashes cs := by rw [slashes_cons, if_neg h]
    rw [slashes_cons, hfirst, List.length_cons, if_neg (by omega)]

/-- Every quote in the text stands behind an odd number of backslashes. -/
def Escaped (cs : List Char) : Prop :=
  ∀ before after, cs = before ++ '"' :: after → slashes before % 2 = 1

theorem escaped_nil : Escaped [] := by
  intro before after h
  cases before <;> cases h

theorem Escaped.cons {c : Char} {cs : List Char} (h : Escaped cs) (hquote : c ≠ '"')
    (hslash : c ≠ '\\') : Escaped (c :: cs) := by
  rintro (_ | ⟨_, before⟩) after heq
  · exact absurd (List.cons.inj heq).1 hquote
  · obtain ⟨rfl, hcs⟩ := List.cons.inj heq
    rw [slashes_cons_of_ne hslash]
    exact h before after hcs

/-- A backslash takes the character behind it along, be it a quote. -/
theorem Escaped.slash {cs : List Char} (h : Escaped cs) (c : Char) : Escaped ('\\' :: c :: cs) := by
  rintro (_ | ⟨_, _ | ⟨_, before⟩⟩) after heq
  · exact absurd (List.cons.inj heq).1 (by decide)
  · obtain ⟨rfl, -⟩ := List.cons.inj heq
    rfl
  · obtain ⟨rfl, htail⟩ := List.cons.inj heq
    rw [slashes_pair]
    exact h before after (List.cons.inj htail).2

theorem Escaped.append {cs : List Char} (h : Escaped cs) : ∀ {plain : List Char},
    (∀ c ∈ plain, c ≠ '"' ∧ c ≠ '\\') → Escaped (plain ++ cs)
  | [], _ => h
  | c :: plain, hplain => by
      obtain ⟨⟨hquote, hslash⟩, hplain⟩ := List.forall_mem_cons.1 hplain
      exact (h.append hplain).cons hquote hslash

theorem ne_of_hexDigit? {c : Char} {n : Nat} (h : hexDigit? c = some n) : c ≠ '"' ∧ c ≠ '\\' := by
  constructor <;> rintro rfl <;> cases h

theorem ne_of_hex? {a b c d : Char} {n : Nat} (h : hex? a b c d = some n) :
    ∀ x ∈ [a, b, c, d], x ≠ '"' ∧ x ≠ '\\' := by
  obtain ⟨_, ha, h⟩ := Option.bind_eq_some_iff.1 h
  obtain ⟨_, hb, h⟩ := Option.bind_eq_some_iff.1 h
  obtain ⟨_, hc, h⟩ := Option.bind_eq_some_iff.1 h
  obtain ⟨_, hd, -⟩ := Option.bind_eq_some_iff.1 h
  simp only [List.forall_mem_cons]
  exact ⟨ne_of_hexDigit? ha, ne_of_hexDigit? hb, ne_of_hexDigit? hc, ne_of_hexDigit? hd, nofun⟩

/-- **No quote inside of a literal closes it.** -/
theorem Denotes.escaped {body s : List Char} (h : Denotes body s) : Escaped body := by
  induction h with
  | nil => exact escaped_nil
  | plain hquote hslash _ _ ih => exact ih.cons hquote hslash
  | @escape c _ _ _ _ _ ih => exact ih.slash c
  | code hdigits _ ih => exact (ih.append (ne_of_hex? hdigits)).slash 'u'
  | pair hdigits hdigits' _ _ _ _ ih =>
    exact (((ih.append (ne_of_hex? hdigits')).slash 'u').append (ne_of_hex? hdigits)).slash 'u'

/-- **A string literal is safe and read back**, whatever its text is and whatever follows: it is
read to its end and no further, as the text it was written for; it has no control character in it;
and but for its first and its last character, every quote in it is escaped. -/
theorem literal_safe (s : String) :
    (∀ rest, read? ((writes s).text.toList ++ rest) = some (s, rest))
      ∧ (∀ c ∈ (writes s).text.toList, 0x20 ≤ c.toNat)
      ∧ ∀ before after, (writes s).text.toList = before ++ '"' :: after → before ≠ [] →
        after ≠ [] → slashes before % 2 = 1 := by
  refine ⟨read?_writes s, le_toNat_writes s, fun before after h hbefore hafter => ?_⟩
  obtain ⟨body, hbody, hliteral⟩ := read?_eq_some_iff.1 (read?_writes s [])
  obtain ⟨first, before, rfl⟩ := List.exists_cons_of_ne_nil hbefore
  rw [List.append_nil, h, List.cons_append] at hliteral
  obtain ⟨rfl, hinside⟩ := List.cons.inj hliteral
  -- The last character is the closing quote, so what stands before it is the body.
  have hdrop := congrArg List.dropLast hinside
  rw [List.dropLast_append_cons, List.dropLast_cons_of_ne_nil hafter, List.dropLast_concat] at hdrop
  rw [slashes_cons_of_ne (by decide)]
  exact hbody.escaped before after.dropLast hdrop.symm

/-- A backslash, a quote and a control character, with a quote and a letter behind the literal. -/
theorem literal_safe_slashedQuote :
    read? ((writes "\\\"\x01").text.toList ++ ['"', 'a']) = some ("\\\"\x01", ['"', 'a'])
      ∧ (∀ c ∈ (writes "\\\"\x01").text.toList, 0x20 ≤ c.toNat)
      ∧ (writes "\\\"\x01").text.toList
        = ['"', '\\', '\\', '\\'] ++ '"' :: ['\\', 'u', '0', '0', '0', '1', '"']
      ∧ slashes ['"', '\\', '\\', '\\'] % 2 = 1 := by
  have hwritten : (writes "\\\"\x01").text.toList
      = ['"', '\\', '\\', '\\'] ++ '"' :: ['\\', 'u', '0', '0', '0', '1', '"'] := by decide
  obtain ⟨hread, hcontrol, hquotes⟩ := literal_safe "\\\"\x01"
  exact ⟨hread _, hcontrol, hwritten, hquotes _ _ hwritten (by decide) (by decide)⟩

end Quoted

end QueryTree

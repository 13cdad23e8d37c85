import QueryTree.Json.Reader
import QueryTree.Proofs.Reading.Numeral
import QueryTree.Proofs.Reading.Quoted

/-!
# Proofs/Reading/Reader — the reader of JSON, character by character

The reader splits a text into tokens and steps through them. `Reader.run` does both at once, from
any state on: a token at the beginning of a text (`Token.Begins`) is one step, whatever text follows
(`Reader.run_token`).
-/

namespace QueryTree

/-! ## Tokens -/

namespace Json

/-- **The number of a numeral of an integer** is the integer. -/
theorem Number.ofNumeral?_ofInt {n : Int}
    (h : -0x8000000000000000 ≤ n ∧ n < 0x10000000000000000) :
    ofNumeral? (Numeral.ofInt n) = some (.int n h) := by
  have hcoefficient : (Numeral.ofInt n).toDecimal.coefficient = n.natAbs := by
    simp [Numeral.toDecimal, Numeral.ofInt]
  have hsign : (if (Numeral.ofInt n).negative then -(n.natAbs : Int) else n.natAbs) = n := by
    simp only [Numeral.ofInt, decide_eq_true_eq]
    omega
  have hzero : ((Numeral.ofInt n).isInteger
      && !((Numeral.ofInt n).negative && n.natAbs == 0)) = true := by
    simp [Numeral.isInteger, Numeral.ofInt]
    omega
  simp only [ofNumeral?, hcoefficient]
  rw [if_pos hzero, hsign, ofInt?, dif_pos h]

namespace Token

/-- The token at the beginning of a text, and what follows it. -/
def Begins (token : Token) (cs after : List Char) : Prop :=
  ∃ c rest, cs = c :: rest ∧ isBlank c = false ∧ scan c rest = some (token, after)

section

variable {c : Char} (p : Char → Bool) (hc : p c)

include hc

/-- A character of a class is no blank, if the class has none. -/
theorem isBlank_eq_false (h : [' ', '\t', '\n', '\r'].all (!p ·)) : isBlank c = false := by
  rw [Bool.eq_false_iff]
  intro hblank
  simp only [isBlank, Bool.or_eq_true, beq_iff_eq] at hblank
  rcases hblank with ((rfl | rfl) | rfl) | rfl <;> simp [hc] at h

/-- …and no mark, if the class has none of those. -/
theorem ofMark?_eq_none (h : ['[', ']', '{', '}', ',', ':'].all (!p ·)) :
    ofMark? c = none := by
  fun_cases ofMark? c with
  | case7 => rfl
  | _ => simp [hc] at h

end

variable {rest : List Char}

/-- A mark is a token by itself, whatever follows. -/
theorem begins_mark {c : Char} {token : Token} (h : ofMark? c = some token) :
    token.Begins (c :: rest) rest := by
  have hsome : (ofMark? c).isSome := Option.isSome_of_mem h
  refine ⟨c, rest, rfl, ?_, by rw [scan, h]⟩
  exact isBlank_eq_false (fun c => (ofMark? c).isSome) hsome (by decide)

/-- A literal is a token whatever follows it: it ends at its closing quote. -/
theorem begins_string (s : String) :
    (string s).Begins ((Quoted.writes s).text.toList ++ rest) rest := by
  rw [Quoted.toList_writes, List.cons_append, List.cons_append, List.append_assoc]
  have hmark : ofMark? '"' = none := rfl
  refine ⟨'"', _, rfl, rfl, ?_⟩
  rw [scan, hmark, List.singleton_append, Quoted.scan_flatMap_escape]
  simp

/-- A Name is a token if what follows does not go on with it. -/
theorem begins_word {s : String} (hname : Name.isName s) (hrest : Ends Name.isRest rest) :
    (word s).Begins (s.toList ++ rest) rest := by
  obtain ⟨c, cs, hs, hstart, hcs⟩ := Name.exists_cons_of_isName hname
  obtain ⟨htake, hdrop⟩ := takeWhile_append_of_ends hcs hrest
  have hquote : c ≠ '"' := by
    rintro rfl
    exact absurd hstart (by decide)
  rw [hs, List.cons_append]
  refine ⟨c, _, rfl, isBlank_eq_false Name.isStart hstart (by decide), ?_⟩
  rw [scan, ofMark?_eq_none Name.isStart hstart (by decide)]
  simp only [if_neg hquote, if_pos hstart, Name.scan, htake, hdrop, ← hs, String.ofList_toList]

/-- An integer is a token if what follows does not go on with it. -/
theorem begins_int (n : Int) (hrest : Numeral.IntEnds rest) :
    (number (Numeral.ofInt n)).Begins (n.repr.toList ++ rest) rest := by
  have hscan := Numeral.scan_repr n hrest
  obtain ⟨c, cs, hcs, hc⟩ := exists_cons_repr n
  have hlead : (c == '-' || c.isDigit) = true := by simpa using hc
  have hquote : c ≠ '"' := by
    rintro rfl
    exact absurd hlead (by decide)
  have hstart : Name.isStart c = false := by
    rcases hc with rfl | hc
    · decide
    · exact Name.isStart_of_isDigit hc
  rw [hcs, List.cons_append] at hscan ⊢
  refine ⟨c, _, rfl, ?_, ?_⟩
  · exact isBlank_eq_false (fun c => c == '-' || c.isDigit) hlead (by decide)
  · rw [scan, ofMark?_eq_none (fun c => c == '-' || c.isDigit) hlead (by decide)]
    simp only [if_neg hquote, hstart, Bool.false_eq_true, if_false, hscan]
    rfl

end Token

namespace Reader

/-! ## Runs -/

/-- The state reached from another one by reading a text. -/
def run (grammar : Grammar) (state : State) (cs : List Char) : Option State :=
  (Token.lexChars cs).bind (·.foldlM (step grammar) state)

variable {grammar : Grammar} {state state' : State}

/-- Reading is a run from before the value, if it ends behind it. -/
theorem read?_eq (s : String) :
    read? grammar s = (run grammar (.value []) s.toList).bind State.result? := by
  rw [read?, Token.lex, run, Option.bind_assoc]
  rfl

theorem run_nil : run grammar state [] = some state := by
  rw [run, Token.lexChars]
  rfl

/-- Blanks between tokens are passed over. -/
theorem run_blank {c : Char} (h : Token.isBlank c) (rest : List Char) :
    run grammar state (c :: rest) = run grammar state rest := by
  rw [run, run, Token.lexChars, if_pos h]

/-- **A token is one step.** -/
theorem run_token {cs after : List Char} {token : Token} (htoken : token.Begins cs after)
    (hstep : step grammar state token = some state') :
    run grammar state cs = run grammar state' after := by
  obtain ⟨c, rest, rfl, hblank, hscan⟩ := htoken
  rw [run, run, Token.lexChars, if_neg (by simp [hblank])]
  split
  · next hnone =>
    rw [hscan] at hnone
    cases hnone
  · next token' after' hsome =>
    rw [hscan] at hsome
    cases hsome
    rw [Option.bind_map]
    congr 1
    funext tokens
    rw [Function.comp_apply, List.foldlM_cons, hstep]
    rfl

end Reader

end Json

end QueryTree

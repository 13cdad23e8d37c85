import QueryTree.Text.Sink

/-!
# Text/Quoted — string literals

A string literal stands between double quotes. A quote, a backslash and the characters below U+0020
are escaped; every other character stands for itself. `Quoted.writes` is a literal one character at
a time, as `Quoted.printTo` prints it, and `Quoted.scan` reads one back, from just after its opening
quote to just after its closing one. The scanner accepts every escape of JSON, surrogate pairs
included.
-/

namespace QueryTree.Quoted

/-- How a character is written inside a literal: by its short escape if it has one, by its code in
hexadecimal if it is another control character, else as itself. -/
def escape (c : Char) : String :=
  match c with
  | '"' => "\\\""
  | '\\' => "\\\\"
  | '\x08' => "\\b"
  | '\x0c' => "\\f"
  | '\n' => "\\n"
  | '\r' => "\\r"
  | '\t' => "\\t"
  | c =>
    if c.toNat < 0x20 then
      String.ofList
        ['\\', 'u', '0', '0', Nat.digitChar (c.toNat / 16), Nat.digitChar (c.toNat % 16)]
    else
      String.singleton c

/-- A string literal, written quote by quote and character by character. -/
def writes (s : String) : Writes :=
  "\"" :: s.toList.map escape ++ ["\""]

/-- Prints characters, each as it is written inside a literal. -/
def charsTo : List Char → Printer
  | [], sink => return sink
  | c :: cs, sink => do
    let sink ← sink.write (escape c)
    charsTo cs sink

/-- Prints a string literal. -/
def printTo (s : String) : Printer := fun sink => do
  let sink ← sink.write "\""
  let sink ← charsTo s.toList sink
  sink.write "\""

/-! ## Reading a literal back -/

/-- The character a one-letter escape stands for. -/
def unescape? : Char → Option Char
  | '"' => some '"'
  | '\\' => some '\\'
  | '/' => some '/'
  | 'b' => some '\x08'
  | 'f' => some '\x0c'
  | 'n' => some '\n'
  | 'r' => some '\r'
  | 't' => some '\t'
  | _ => none

/-- The value of a hexadecimal digit, of either case. -/
def hexDigit? (c : Char) : Option Nat :=
  if '0' ≤ c ∧ c ≤ '9' then some (c.toNat - '0'.toNat)
  else if 'a' ≤ c ∧ c ≤ 'f' then some (c.toNat - 'a'.toNat + 10)
  else if 'A' ≤ c ∧ c ≤ 'F' then some (c.toNat - 'A'.toNat + 10)
  else none

/-- The number that four hexadecimal digits denote. -/
def hex? (a b c d : Char) : Option Nat := do
  return (((← hexDigit? a) * 16 + (← hexDigit? b)) * 16 + (← hexDigit? c)) * 16 + (← hexDigit? d)

/-- The character of one code unit, or of a pair of surrogates. A surrogate alone is none. -/
def ofCodeUnit? (n : Nat) : Option Char :=
  if h : n.isValidChar then some (Char.ofNatAux n h) else none

/-- The character above U+FFFF that a high and a low surrogate spell. -/
def ofSurrogates? (high low : Nat) : Option Char :=
  if 0xD800 ≤ high ∧ high < 0xDC00 ∧ 0xDC00 ≤ low ∧ low < 0xE000 then
    ofCodeUnit? (0x10000 + (high - 0xD800) * 0x400 + (low - 0xDC00))
  else
    none

/-- Reads the rest of a literal whose opening quote has been read: its characters, and what follows
its closing quote. Fails on a control character, an unknown escape and a missing quote. -/
def scan : List Char → Option (List Char × List Char)
  | [] => none
  | '"' :: rest => some ([], rest)
  | '\\' :: 'u' :: a :: b :: c :: d :: rest =>
    match hex? a b c d with
    | none => none
    | some n =>
      match ofCodeUnit? n, rest with
      | some x, rest => (scan rest).map fun (s, after) => (x :: s, after)
      | none, '\\' :: 'u' :: a :: b :: c :: d :: rest =>
        match (hex? a b c d).bind (ofSurrogates? n) with
        | some x => (scan rest).map fun (s, after) => (x :: s, after)
        | none => none
      | none, _ => none
  | '\\' :: c :: rest =>
    match unescape? c with
    | some x => (scan rest).map fun (s, after) => (x :: s, after)
    | none => none
  | c :: rest =>
    if c.toNat < 0x20 then none
    else (scan rest).map fun (s, after) => (c :: s, after)

/-- **Reading goes forward**: at least the closing quote is read. -/
theorem length_lt_of_scan {cs s after : List Char} (h : scan cs = some (s, after)) :
    after.length < cs.length := by
  fun_induction scan cs generalizing s with
  | case5 _ _ _ _ _ _ _ _ _ _ rest _ _ _ ih =>
    obtain ⟨p, hp, hq⟩ := Option.map_eq_some_iff.1 h
    cases hq
    have := ih hp
    simp only [List.length_cons]
    omega
  | _ => grind [Option.map_eq_some_iff]

end QueryTree.Quoted

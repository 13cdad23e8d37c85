import QueryTree.Decimal.Basic
import QueryTree.Decimal.Double

/-!
# Decimal/Shortest — the fewest digits that read back

A decimal reads back as a double if that double is the nearest to it. `Double.shortest` takes the
coarsest power of ten with a multiple that reads back, and of its multiples the nearest to the
double. Grids of powers of ten are nested, so on the coarsest one the coefficient has the fewest
digits and no trailing zero. Only the two multiples beside the double need a look: what reads back
is an interval around it.
-/

namespace QueryTree.Double

/-- Whether the double nearest a number has the magnitude of this one. -/
def readsBack (x : Float) (r : Rat) : Bool :=
  nearestBits r == magnitudeBits x

/-- Of the multiples of `10 ^ p` beside the double, the nearer that reads back; of two equally near
the even one. -/
def nearestOn? (x : Float) (p : Int) : Option Decimal :=
  let scaled := magnitude x / (10 : Rat) ^ p
  let near := roundEven scaled
  let far := 2 * scaled.floor.toNat + 1 - near
  [⟨near, p⟩, ⟨far, p⟩].find? fun d : Decimal => readsBack x d.toRat

/-- Tries the grids from `10 ^ p` down, so many of them, and takes the next one unseen. -/
def shortestFrom (x : Float) : Nat → Int → Decimal
  | 0, p => ⟨roundEven (magnitude x / (10 : Rat) ^ p), p⟩
  | steps + 1, p => (nearestOn? x p).getD (shortestFrom x steps (p - 1))

/-- The exponent of the least power of ten above a non-negative number, but no negative one. -/
def upperPower (r : Rat) : Nat :=
  if r < 1 then 0 else (Nat.toDigits 10 r.floor.toNat).length

/-- The shortest decimal that reads back as the magnitude of a finite double. Every double is a
multiple of `10 ^ -1074`, so the search ends there at the latest. -/
def shortest (x : Float) : Decimal :=
  let top := upperPower (magnitude x)
  shortestFrom x (top + 1074) top

end QueryTree.Double

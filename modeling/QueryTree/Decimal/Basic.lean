/-!
# Decimal/Basic — exact decimals

A decimal is a coefficient moved by a power of ten, `coefficient * 10 ^ exponent`. Its value is a
rational number, so the same value has many decimals; which one is written where is the business of
`Decimal/Shortest` and `Decimal/Layout`.
-/

namespace QueryTree

/-- The number `coefficient * 10 ^ exponent`. -/
structure Decimal where
  coefficient : Nat
  exponent : Int
deriving DecidableEq

namespace Decimal

/-- The value of a decimal. -/
def toRat (d : Decimal) : Rat :=
  d.coefficient * (10 : Rat) ^ d.exponent

/-- The decimal digits of the coefficient, at least one. -/
def digits (d : Decimal) : List Char :=
  Nat.toDigits 10 d.coefficient

end Decimal

end QueryTree

import QueryTree.Decimal.Numeral
import QueryTree.Decimal.Shortest

/-!
# Decimal/Layout — where the point goes

A layout says which numbers are written out in full and which with an exponent, and whether a whole
number keeps its point. `Layout.numeral` sets the digits of a decimal accordingly; what it denotes
is the value of the decimal, whatever the layout.
-/

namespace QueryTree

/-- A way to write decimals. The exponent of a decimal is that of its first digit. -/
structure Layout where
  /-- The least exponent written without a mark. -/
  leastPlain : Int
  /-- The greatest exponent written without a mark. -/
  mostPlain : Int
  /-- Whether a whole number written without a mark ends in `.0`. -/
  pointZero : Bool

namespace Layout

/-- The digits written out in full, the point moved to its place and the gap filled with zeros. -/
def plain (layout : Layout) (negative : Bool) (digits : List Char) (exponent : Int) : Numeral :=
  let whole : Int := digits.length + exponent
  if 0 ≤ exponent then
    { negative
      whole := digits ++ List.replicate exponent.toNat '0'
      fraction := if layout.pointZero then ['0'] else []
      exponent := none }
  else if 0 < whole then
    { negative
      whole := digits.take whole.toNat
      fraction := digits.drop whole.toNat
      exponent := none }
  else
    { negative
      whole := ['0']
      fraction := List.replicate (-whole).toNat '0' ++ digits
      exponent := none }

/-- The digits with the point after the first and the exponent marked. -/
def marked (negative : Bool) (digits : List Char) (leading : Int) : Numeral where
  negative := negative
  whole := digits.take 1
  fraction := digits.drop 1
  exponent := some leading

/-- The numeral of a decimal. -/
def numeral (layout : Layout) (negative : Bool) (d : Decimal) : Numeral :=
  let leading := d.exponent + d.digits.length - 1
  if layout.leastPlain ≤ leading ∧ leading ≤ layout.mostPlain then
    layout.plain negative d.digits d.exponent
  else
    marked negative d.digits leading

/-- The text of a finite double: the shortest digits that read back, in this layout. -/
def text (layout : Layout) (x : Float) : String :=
  (layout.numeral (Double.isNegative x) (Double.shortest x)).text

end Layout

end QueryTree

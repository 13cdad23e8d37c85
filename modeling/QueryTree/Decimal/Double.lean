/-!
# Decimal/Double — doubles as exact numbers

The bits of a finite double are a sign and a magnitude. The magnitudes, in the order of their bits,
are `0`, the multiples of `2 ^ -1074` up to `2 ^ -1021`, then `2 ^ 52` numbers to each power of two.
`Double.magnitude` reads the bits as the rational number they stand for, and `Double.nearest` goes
the other way: the double nearest a rational number, a tie going to the even significand.
-/

namespace QueryTree

/-- The natural number nearest a non-negative number, the even one of two equally near. -/
def roundEven (r : Rat) : Nat :=
  let below := r.floor.toNat
  if r - below < 1 / 2 then below
  else if 1 / 2 < r - below then below + 1
  else below + below % 2

namespace Double

/-- How many magnitudes share one spacing: `2 ^ 52`. -/
def perBinade : Nat := 0x10000000000000

/-- The bit of the sign. -/
def signBit : Nat := 0x8000000000000000

/-- The bits of a double without its sign. -/
def magnitudeBits (x : Float) : Nat :=
  x.toBits.toNat % signBit

/-- Whether the sign bit is set, which it is for `-0.0` too. -/
def isNegative (x : Float) : Bool :=
  signBit ≤ x.toBits.toNat

/-- The number that the bits of a finite magnitude stand for. The first `perBinade` of them have no
leading one and the spacing of the second. -/
def ofMagnitudeBits (bits : Nat) : Rat :=
  let biased := bits / perBinade
  let fraction := bits % perBinade
  if biased = 0 then fraction * (2 : Rat) ^ (-1074 : Int)
  else (perBinade + fraction : Nat) * (2 : Rat) ^ ((biased : Int) - 1075)

/-- The absolute value of a finite double, exactly. -/
def magnitude (x : Float) : Rat :=
  ofMagnitudeBits (magnitudeBits x)

/-- The `e` for which a positive number lies between `2 ^ e` and its double. -/
def binade (r : Rat) : Int :=
  let e : Int := (r.num.natAbs.log2 : Int) - r.den.log2
  if r < (2 : Rat) ^ e then e - 1 else e

/-- Doubles near a positive number stand `2 ^ spacing` apart. -/
def spacing (r : Rat) : Int :=
  max (binade r - 52) (-1074)

/-- The bits of infinity, which every number too large for a double is nearest to. -/
def infinityBits : Nat := 0x7ff * perBinade

/-- The bits of the magnitude nearest a non-negative number. Counted in units of the spacing, the
number rounds to a significand; a significand that rounds up to the next power of two carries into
the exponent, as it should. -/
def nearestBits (r : Rat) : Nat :=
  if r ≤ 0 then 0
  else
    let q := spacing r
    min infinityBits ((q + 1074).toNat * perBinade + roundEven (r / (2 : Rat) ^ q))

/-- The double of this sign nearest a non-negative number. -/
def nearest (negative : Bool) (r : Rat) : Float :=
  Float.ofBits (UInt64.ofNat (nearestBits r + if negative then signBit else 0))

/-- The double nearest an integer. -/
def ofInt (n : Int) : Float :=
  nearest (n < 0) n.natAbs

end Double

end QueryTree

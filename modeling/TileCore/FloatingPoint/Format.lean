import TileCore.Word

/-!
# Binary floating-point formats

A format has a sign bit, a field for the exponent and a field for the fraction. A pattern of bits
stands for a datum: a multiple of a power of two with a sign, an infinity, or no number at all.
In the other direction a nonnegative ratio of two whole numbers is rounded to the nearest pattern,
a tie to the even one. Patterns of nonnegative data are ordered like the data, so the significand
that rounding yields is simply added to the pattern of its exponent, and a carry out of it lands
in the exponent where it belongs.

## Main definitions

* `Format`, with `Format.half` and `Format.single`.
* `Datum`: what a pattern of bits stands for.
* `Format.datum`: the datum of a pattern.
* `Format.roundRatio`: the pattern nearest to a ratio.
* `Format.pattern`: the pattern nearest to a datum.
-/

namespace TileCore.FloatingPoint

/-- The widths of the two fields behind the sign bit. -/
structure Format where
  /-- The width of the exponent field. -/
  exponentBits : Nat
  /-- The width of the fraction field. -/
  fractionBits : Nat

/-- What a pattern of bits stands for. -/
inductive Datum
  /-- No number. -/
  | nan (negative : Bool)
  /-- An infinity. -/
  | infinity (negative : Bool)
  /-- The number `significand * 2 ^ exponent` with a sign. -/
  | finite (negative : Bool) (significand : Nat) (exponent : Int)
  deriving DecidableEq

/-- The nonnegative number `n * base ^ e` as a numerator and a denominator. -/
def scaled (n base : Nat) (e : Int) : Nat × Nat := (n * Nat.pow base e.toNat, Nat.pow base (-e).toNat)

/-- The quotient `n / d` to the nearest whole number, a tie to the even one. -/
def divEven (n d : Nat) : Nat :=
  let q := n / d
  let r := n % d
  if 2 * r < d then q
  else if d < 2 * r then q + 1
  else q + q % 2

/-- The exponent of the greatest power of two that is not above `n / d`. -/
def log2Ratio (n d : Nat) : Int :=
  let g : Int := (n.log2 : Int) - d.log2
  if d * twoPow g.toNat ≤ n * twoPow (-g).toNat then g else g - 1

namespace Format

/-- Numbers of two bytes. -/
def half : Format := ⟨5, 10⟩

/-- Numbers of four bytes. -/
def single : Format := ⟨8, 23⟩

/-- The exponent of the last place of the least normal numbers, and of all numbers below. -/
def minExponent (f : Format) : Int := 2 - twoPow (f.exponentBits - 1) - f.fractionBits

/-- The number of patterns with one exponent. -/
def fractionCount (f : Format) : Nat := twoPow f.fractionBits

/-- The exponent field of infinities and of patterns that are no number. -/
def topExponent (f : Format) : Nat := twoPow f.exponentBits - 1

/-- The pattern of positive infinity. -/
def infinityPattern (f : Format) : Nat := f.topExponent * f.fractionCount

/-- The sign bit alone. -/
def signPattern (f : Format) (negative : Bool) : Nat :=
  if negative then twoPow (f.exponentBits + f.fractionBits) else 0

/-- The datum of a pattern. -/
def datum (f : Format) (pattern : Nat) : Datum :=
  let negative := pattern.testBit (f.exponentBits + f.fractionBits)
  let exponent := pattern / f.fractionCount % twoPow f.exponentBits
  let fraction := pattern % f.fractionCount
  if exponent = f.topExponent then
    if fraction = 0 then .infinity negative else .nan negative
  else if exponent = 0 then .finite negative fraction f.minExponent
  else .finite negative (f.fractionCount + fraction) (f.minExponent + (exponent - 1 : Nat))

/-- The pattern nearest to the ratio `n / d`, a tie to the even one. Beyond the greatest number
lies infinity. -/
def roundRatio (f : Format) (n d : Nat) : Nat :=
  if n = 0 then 0
  else
    let e := max f.minExponent (log2Ratio n d - f.fractionBits)
    let q := divEven (n * twoPow (-e).toNat) (d * twoPow e.toNat)
    min f.infinityPattern ((e - f.minExponent).toNat * f.fractionCount + q)

/-- The pattern nearest to a datum. Of the patterns that are no number it is the quiet one
without further information. -/
def pattern (f : Format) : Datum → Nat
  | .nan negative => f.signPattern negative + f.infinityPattern + f.fractionCount / 2
  | .infinity negative => f.signPattern negative + f.infinityPattern
  | .finite negative m e =>
    let (n, d) := scaled m 2 e
    f.signPattern negative + f.roundRatio n d

end Format

end TileCore.FloatingPoint

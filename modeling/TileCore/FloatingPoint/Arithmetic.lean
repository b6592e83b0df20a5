import TileCore.FloatingPoint.Format

/-!
# Floating-point arithmetic

Sums and products are formed exactly on data and then rounded once to the format. Single precision
is what the tile unit computes in, and half precision is what it stores.

## Main definitions

* `Datum.add`, `Datum.mul`: the exact operations.
* `Single.add`, `Single.mul`: the rounded operations on patterns of single precision.
* `Half.toSingle`, `Single.toHalf`: the conversions.
* `Half.sameNumber`: equality of the numbers that two patterns stand for.
-/

namespace TileCore.FloatingPoint

namespace Datum

/-- Whether the datum is no number. -/
def isNan : Datum → Bool
  | nan _ => true
  | _ => false

/-- The significand with its sign. -/
def signed (negative : Bool) (m : Nat) : Int := if negative then -(m : Int) else m

/-- The exact sum of two numbers, brought to the smaller exponent. A sum of zero is negative only
if both numbers are negative zeros. -/
def addFinite (s₁ : Bool) (m₁ : Nat) (e₁ : Int) (s₂ : Bool) (m₂ : Nat) (e₂ : Int) : Datum :=
  let e := min e₁ e₂
  let sum := signed s₁ (m₁ * twoPow (e₁ - e).toNat) + signed s₂ (m₂ * twoPow (e₂ - e).toNat)
  if sum = 0 then .finite (s₁ && s₂) 0 e else .finite (sum < 0) sum.natAbs e

/-- The exact sum; opposite infinities have none. -/
def add : Datum → Datum → Datum
  | nan s, _ => nan s
  | _, nan s => nan s
  | infinity s₁, infinity s₂ => if s₁ = s₂ then infinity s₁ else nan false
  | infinity s, _ => infinity s
  | _, infinity s => infinity s
  | finite s₁ m₁ e₁, finite s₂ m₂ e₂ => addFinite s₁ m₁ e₁ s₂ m₂ e₂

/-- The exact product; infinity and zero have none. -/
def mul : Datum → Datum → Datum
  | nan s, _ => nan s
  | _, nan s => nan s
  | infinity s₁, infinity s₂ => infinity (s₁ ^^ s₂)
  | infinity s₁, finite s₂ m _ => if m = 0 then nan false else infinity (s₁ ^^ s₂)
  | finite s₁ m _, infinity s₂ => if m = 0 then nan false else infinity (s₁ ^^ s₂)
  | finite s₁ m₁ e₁, finite s₂ m₂ e₂ => finite (s₁ ^^ s₂) (m₁ * m₂) (e₁ + e₂)

/-- Whether two data are equal numbers. Zeros are equal whatever their signs, and what is no
number equals nothing. -/
def same : Datum → Datum → Bool
  | infinity s₁, infinity s₂ => s₁ == s₂
  | finite s₁ m₁ e₁, finite s₂ m₂ e₂ =>
    let e := min e₁ e₂
    signed s₁ (m₁ * twoPow (e₁ - e).toNat) == signed s₂ (m₂ * twoPow (e₂ - e).toNat)
  | _, _ => false

end Datum

end TileCore.FloatingPoint

namespace TileCore

/-- A pattern of half precision. -/
abbrev Half := BitVec 16

/-- A pattern of single precision. -/
abbrev Single := BitVec 32

open FloatingPoint

namespace Single

/-- What the pattern stands for. -/
def datum (x : Single) : Datum := Format.single.datum x.toNat

/-- The pattern nearest to a datum. -/
def ofDatum (d : Datum) : Single := BitVec.ofNat 32 (Format.single.pattern d)

/-- The sum, rounded once. -/
def add (x y : Single) : Single := ofDatum ((datum x).add (datum y))

/-- The product, rounded once. -/
def mul (x y : Single) : Single := ofDatum ((datum x).mul (datum y))

/-- The zero with a minus sign, to which every number can be added without changing it. -/
def negativeZero : Single := 0x80000000

/-- The nearest pattern of half precision. -/
def toHalf (x : Single) : Half := BitVec.ofNat 16 (Format.half.pattern (datum x))

end Single

namespace Half

/-- What the pattern stands for. -/
def datum (x : Half) : Datum := Format.half.datum x.toNat

/-- The same number in single precision. -/
def toSingle (x : Half) : Single := Single.ofDatum (datum x)

/-- The number one. -/
def one : Half := 0x3C00

/-- Whether the pattern is no number. -/
def isNan (x : Half) : Bool := (datum x).isNan

/-- Whether two patterns stand for equal numbers. -/
def sameNumber (x y : Half) : Bool := (datum x).same (datum y)

end Half

end TileCore

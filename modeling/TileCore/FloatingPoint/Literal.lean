import TileCore.FloatingPoint.Arithmetic
import TileCore.Text.Numeral

/-!
# Decimal numbers in text

A decimal literal is a row of digits with at most one point and at least one digit, with an
optional sign in front and an optional power of ten behind. The words for infinity and for what is
no number are accepted in either letter case. A literal is read exactly and rounded once.

## Main definitions

* `Literal`: a literal as it was read.
* `Literal.ofText?`: reading.
* `Single.ofLiteral`: the nearest pattern of single precision.
-/

namespace TileCore.FloatingPoint

/-- A decimal literal. -/
inductive Literal
  /-- A word for no number. -/
  | nan (negative : Bool)
  /-- A word for infinity. -/
  | infinity (negative : Bool)
  /-- The number `digits * 10 ^ exponent` with a sign. -/
  | decimal (negative : Bool) (digits : Nat) (exponent : Int)
  deriving DecidableEq

namespace Literal

/-- The number that a row of decimal digits spells. -/
def digitsValue (s : Text) : Nat := s.foldl (fun n c => 10 * n + (c.toNat - '0'.toNat)) 0

/-- A nonempty row of decimal digits. -/
def readDigits? (s : Text) : Option Nat :=
  if s ≠ [] && s.all Char.isDigit then some (digitsValue s) else none

/-- What follows the digits: nothing, or a power of ten behind the letter `e`. -/
def readExponent? : Text → Option Int
  | [] => some 0
  | c :: s =>
    if c = 'e' || c = 'E' then
      match s with
      | '-' :: s => (readDigits? s).map fun n => -(n : Int)
      | '+' :: s => (readDigits? s).map Int.ofNat
      | s => (readDigits? s).map Int.ofNat
    else none

/-- A decimal number without its sign. -/
def readDecimal? (negative : Bool) (s : Text) : Option Literal :=
  let whole := s.takeWhile Char.isDigit
  let rest := s.dropWhile Char.isDigit
  let (fraction, rest) :=
    match rest with
    | '.' :: rest => (rest.takeWhile Char.isDigit, rest.dropWhile Char.isDigit)
    | rest => ([], rest)
  if whole ++ fraction = [] then none
  else
    (readExponent? rest).map fun e =>
      .decimal negative (digitsValue (whole ++ fraction)) (e - fraction.length)

/-- A literal without its sign. -/
def readUnsigned? (negative : Bool) (s : Text) : Option Literal :=
  let word := s.map Char.toLower
  if word = "nan".toList then some (.nan negative)
  else if word = "inf".toList || word = "infinity".toList then some (.infinity negative)
  else readDecimal? negative s

/-- The literal that a text spells. -/
def ofText? : Text → Option Literal
  | '-' :: s => readUnsigned? true s
  | '+' :: s => readUnsigned? false s
  | s => readUnsigned? false s

end Literal

/-- The pattern nearest to a literal. A number whose leading digit stands beyond the places that
the format can tell from infinity or from zero is settled by that place alone. -/
def Format.ofLiteral (f : Format) : Literal → Nat
  | .nan negative => f.pattern (.nan negative)
  | .infinity negative => f.pattern (.infinity negative)
  | .decimal negative digits e =>
    let places : Int := (Nat.toDigits 10 digits).length + e
    let reach : Int := twoPow f.exponentBits
    if digits = 0 || places < -reach then f.signPattern negative
    else if places > reach then f.pattern (.infinity negative)
    else
      let (n, d) := scaled digits 10 e
      f.signPattern negative + f.roundRatio n d

end TileCore.FloatingPoint

namespace TileCore

/-- The pattern of single precision nearest to a literal. -/
def Single.ofLiteral (l : FloatingPoint.Literal) : Single :=
  BitVec.ofNat 32 (FloatingPoint.Format.single.ofLiteral l)

end TileCore

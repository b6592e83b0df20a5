import TileCore.FloatingPoint.Arithmetic

/-!
# Decimal numbers with the fewest digits

A number is written with the fewest digits that read back as the same pattern. The multiples of a
power of ten form a grid, and a coarser grid means fewer digits; so the grids are searched from the
coarse to the fine for the first one on which a neighbour of the number reads back, and of two
such neighbours the nearer one is taken, of two equally near ones the greater.

## Main definitions

* `Format.shortest`: the digits and the power of ten of a positive number.
* `DecimalStyle`: when a power of ten is written, with `DecimalStyle.text`, a pattern as text.
-/

namespace TileCore.FloatingPoint

namespace Format

/-- Whether `digits * 10 ^ k` reads back as the pattern. -/
def readsBack (f : Format) (pattern digits : Nat) (k : Int) : Bool :=
  let (n, d) := scaled digits 10 k
  f.roundRatio n d == pattern

/-- The multiple of `10 ^ k` nearest to `n / d` among its two neighbours that read back as the
pattern, if one does. -/
def onGrid? (f : Format) (pattern n d : Nat) (k : Int) : Option Nat :=
  let n := n * Nat.pow 10 (-k).toNat
  let d := d * Nat.pow 10 k.toNat
  let below := n / d
  match f.readsBack pattern below k, f.readsBack pattern (below + 1) k with
  | true, true => some (if 2 * (n % d) < d then below else below + 1)
  | true, false => some below
  | false, true => some (below + 1)
  | false, false => none

/-- Searches the grids from `10 ^ k` down to `10 ^ (k - steps)`. -/
def searchGrids (f : Format) (pattern n d : Nat) : (steps : Nat) → (k : Int) → Nat × Int
  | 0, k => ((f.onGrid? pattern n d k).getD 0, k)
  | steps + 1, k =>
    match f.onGrid? pattern n d k with
    | some digits => (digits, k)
    | none => f.searchGrids pattern n d steps (k - 1)

/-- The fewest digits and their power of ten for the positive number of a pattern without sign.
The search starts above the number and ends at the last place that a number of the format can
have, where the number itself lies on the grid. -/
def shortest (f : Format) (pattern : Nat) : Nat × Int :=
  match f.datum pattern with
  | .finite _ m e =>
    let (n, d) := scaled m 2 e
    let top := (Nat.toDigits 10 (n / d)).length
    f.searchGrids pattern n d (top + (-f.minExponent).toNat) top
  | _ => (0, 0)

end Format

/-- How decimal numbers are written. -/
structure DecimalStyle where
  /-- The exponent of ten below which a power of ten is written. -/
  least : Int
  /-- The exponent of ten from which on a power of ten is written. -/
  greatest : Int
  /-- The text of what is no number. -/
  nan : String
  /-- The text of positive infinity. -/
  infinity : String

namespace DecimalStyle

/-- Digits with a point somewhere in or around them and at least one digit on either side of it.
The number is `0.digits * 10 ^ point`. -/
def positional (digits : List Char) (point : Int) : List Char :=
  if point ≤ 0 then "0.".toList ++ List.replicate (-point).toNat '0' ++ digits
  else
    let whole := digits.take point.toNat
    let fraction := digits.drop point.toNat
    whole ++ List.replicate (point.toNat - whole.length) '0' ++ '.' ::
      (if fraction = [] then ['0'] else fraction)

/-- Digits with a point behind the first one, if others follow, and a power of ten. -/
def scientific (digits : List Char) (exponent : Int) : List Char :=
  digits.take 1 ++ (if digits.length ≤ 1 then [] else '.' :: digits.drop 1) ++
    'e' :: (toString exponent).toList

/-- The text of the positive number of a pattern without sign. -/
def magnitude (style : DecimalStyle) (f : Format) (pattern : Nat) : List Char :=
  let (n, k) := f.shortest pattern
  let digits := Nat.toDigits 10 n
  let exponent := digits.length + k - 1
  if style.least ≤ exponent && exponent < style.greatest then positional digits (exponent + 1)
  else scientific digits exponent

/-- The text of a pattern. -/
def text (style : DecimalStyle) (f : Format) (pattern : Nat) : List Char :=
  let sign (negative : Bool) : List Char := if negative then ['-'] else []
  match f.datum pattern with
  | .nan _ => style.nan.toList
  | .infinity negative => sign negative ++ style.infinity.toList
  | .finite negative 0 _ => sign negative ++ "0.0".toList
  | .finite negative _ _ =>
    sign negative ++ style.magnitude f (pattern - f.signPattern negative)

end DecimalStyle

end TileCore.FloatingPoint

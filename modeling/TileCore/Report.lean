import TileCore.FloatingPoint.Shortest
import TileCore.Machine.Core

/-!
# The report of a run

After a run the outcome, the program counter and all registers that are not zero are listed, one on
a line. Scalar registers appear as a signed number and in hexadecimal, tiles row by row.

## Main definitions

* `tileStyle`: how the numbers of a tile are written.
* `Core.report`: the lines of a report.
-/

namespace TileCore

open FloatingPoint

/-- The numbers of a tile are written out between a ten-thousandth and ten to the sixteenth, and
with a power of ten beyond. -/
def tileStyle : DecimalStyle where
  least := -4
  greatest := 16
  nan := "NaN"
  infinity := "inf"

/-- The text of a number of half precision, with the digits that single precision needs. -/
def numberText (x : Half) : String :=
  String.ofList (tileStyle.text Format.single x.toSingle.toNat)

/-- Texts between brackets, separated by commas. -/
def bracketed (texts : List String) : String := "[" ++ ", ".intercalate texts ++ "]"

/-- The text of a tile. -/
def tileText (t : Tile) : String :=
  bracketed ((List.finRange 4).map fun i =>
    bracketed ((List.finRange 4).map fun j => numberText (t.entry i j)))

/-- The name of a register, filled up with a blank to three characters. -/
def registerLabel (letter : String) (i : Nat) : String :=
  letter ++ toString i ++ (if i < 10 then " " else "")

/-- The line of a scalar register, unless it is zero. -/
def scalarLine? (i : Nat) (v : Word) : Option String :=
  if v = 0 then none
  else some (registerLabel "x" i ++ s!" = {v.toInt} ({Text.hexWord v})")

/-- The line of a tile register, unless all its numbers are zero. -/
def tileLine? (i : Nat) (t : Tile) : Option String :=
  if t.sameNumbers Tile.zero then none else some (registerLabel "m" i ++ s!" = {tileText t}")

/-- The line that says how a run has ended. -/
def outcomeLine (cycles : Nat) : RunOutcome → String
  | .halted => s!"halted after {cycles} cycles"
  | .limitReached => s!"iteration limit reached after {cycles} cycles"

/-- The lines of a report. -/
def Core.report (c : Core) (outcome : RunOutcome) : List String :=
  let r := c.machine.registers
  [outcomeLine c.cycles outcome, s!"pc = {Text.hexWord r.pc}"] ++
    (r.scalars.toList.zipIdx.filterMap fun (v, i) => scalarLine? i v) ++
    (r.tiles.toList.zipIdx.filterMap fun (t, i) => tileLine? i t)

end TileCore

import TileCore.Machine.Memory
import TileCore.Tile

/-!
# Tiles in memory

A tile stands in memory row by row. The pitch is the distance of two rows in bytes; a pitch of zero
means that the rows are packed. Rows may overlap, and addresses wrap around.

## Main definitions

* `rowAddress`, `tileAddresses`: where the rows and the eight words of a tile stand.
* `loadTile`: the tile that stands in memory.
* `tileWrites`, `storeTile`: the stores that put a tile into memory, low word of every row first.
-/

namespace TileCore

/-- The number of bytes of a packed row. -/
def packedRow : Word := 8

/-- The address of a row of the tile at `base`. -/
def rowAddress (base pitch : Word) (row : Nat) : Word :=
  base + (if pitch = 0 then packedRow else pitch) * BitVec.ofNat 32 row

/-- The addresses of the eight words of the tile at `base`, row by row. -/
def tileAddresses (base pitch : Word) : List Word :=
  (List.range 4).flatMap fun row => [rowAddress base pitch row, rowAddress base pitch row + 4]

/-- The tile at `base`. -/
def loadTile (m : Memory) (base pitch : Word) : Except Fault Tile :=
  (m.loadWords (tileAddresses base pitch)).map Tile.ofWords

/-- The words of a tile with the addresses at which they are stored. -/
def tileWrites (base pitch : Word) (t : Tile) : List (Word × Word) :=
  (tileAddresses base pitch).zip t.words

/-- Stores a tile at `base`; words before a failing one stay written. -/
def storeTile (m : Memory) (base pitch : Word) (t : Tile) : Memory × Except Fault Unit :=
  m.storeWords (tileWrites base pitch t)

end TileCore

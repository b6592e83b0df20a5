import TileCore.Isa.Convention
import TileCore.Machine.Fault
import TileCore.Tile

/-!
# Registers

The program counter, the scalar registers and the tile registers. Scalar register zero reads as
zero whatever it holds, and a program cannot change what it holds.

## Main definitions

* `Registers`, with `Registers.cleared`.
* `Registers.read`, `Registers.write`, `Registers.tile`, `Registers.setTile`: the checked accesses.
-/

namespace TileCore

/-- The program counter and the two register files. -/
structure Registers where
  /-- The address of the next instruction. -/
  pc : Word
  /-- The content of the scalar registers. -/
  scalars : Vector Word scalarCount
  /-- The content of the tile registers. -/
  tiles : Vector Tile tileCount
  deriving DecidableEq

namespace Registers

/-- All registers zero. -/
def cleared : Registers := ⟨0, Vector.replicate scalarCount 0, Vector.replicate tileCount Tile.zero⟩

/-- The value of a scalar register. -/
def read (r : Registers) (i : Nat) : Except Fault Word :=
  if i = 0 then .ok 0
  else if h : i < scalarCount then .ok r.scalars[i]
  else .error (.registerIndex .scalar i)

/-- Replaces the content of a scalar register, register zero included. -/
def poke (r : Registers) (i : Nat) (v : Word) : Registers :=
  { r with scalars := r.scalars.setIfInBounds i v }

/-- Gives a scalar register a value; register zero takes none. -/
def write (r : Registers) (i : Nat) (v : Word) : Except Fault Registers :=
  if i < scalarCount then .ok (if i = 0 then r else r.poke i v)
  else .error (.registerIndex .scalar i)

/-- The content of a tile register. -/
def tile (r : Registers) (i : Nat) : Except Fault Tile :=
  if h : i < tileCount then .ok r.tiles[i] else .error (.registerIndex .tile i)

/-- Replaces the content of a tile register. -/
def setTile (r : Registers) (i : Nat) (t : Tile) : Except Fault Registers :=
  if h : i < tileCount then .ok { r with tiles := r.tiles.set i t }
  else .error (.registerIndex .tile i)

/-- Moves on to another address. -/
def goto (r : Registers) (addr : Word) : Registers := { r with pc := addr }

/-- The address behind the current instruction. -/
def nextAddress (r : Registers) : Word := r.pc + 4

/-- Moves on to the next instruction. -/
def next (r : Registers) : Registers := r.goto r.nextAddress

end Registers

end TileCore

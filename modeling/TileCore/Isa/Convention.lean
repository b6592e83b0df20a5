import TileCore.Word

/-!
# Conventions of the instruction set

The sizes of the two register files, the registers with a fixed role, the word that ends a
program, and where code and data go.
-/

namespace TileCore

/-- The number of scalar registers. -/
abbrev scalarCount : Nat := 32

/-- The number of tile registers. -/
abbrev tileCount : Nat := 16

/-- The register that holds the return address. -/
def returnRegister : Nat := 1

/-- The register that holds the stack pointer. -/
def stackRegister : Nat := 2

/-- The word that ends a program. -/
def haltWord : Word := 0xFFFFFFFF

/-- The `funct3` field of word loads and stores, the only width there is. -/
def wordFunct : Nat := 2

/-- The `funct7` field that turns a logical right shift into an arithmetic one. -/
def arithmeticFunct : Nat := 0x20

/-- The address at which data starts; code starts at address zero. -/
def dataStart : Nat := 0x200

/-- The size in bytes of the memory of a core, unless another one is asked for. -/
def defaultMemorySize : Nat := 64 * 1024

/-- The number of cycles after which a run is cut, unless another one is asked for. -/
def defaultCycleLimit : Nat := 10000

/-- Where a core starts and where its stack begins. -/
structure Control where
  /-- The address of the first instruction. -/
  start : Word
  /-- The first value of the stack pointer. -/
  stack : Word
  deriving DecidableEq

/-- A core starts at address zero with its stack at the end of a memory of the default size. -/
def Control.default : Control := ⟨0, BitVec.ofNat 32 defaultMemorySize⟩

end TileCore

import TileCore.Isa.Decoding

/-!
# Faults

A fault ends the execution of an instruction. Its wording names the address or the register that
the instruction asked for.
-/

namespace TileCore

/-- One of the two register files. -/
inductive RegisterFile
  | scalar | tile
  deriving DecidableEq

/-- The name of a register file in messages. -/
def RegisterFile.name : RegisterFile → String
  | scalar => "Scalar"
  | tile => "Matrix"

/-- Why an access or an instruction fails. -/
inductive Fault
  /-- The word at `pc` is no instruction. -/
  | decode (pc : Word) (reason : DecodeError)
  /-- The address of a word is not a multiple of four. -/
  | misaligned (addr : Word)
  /-- The `len` bytes from `addr` on do not all lie in memory. -/
  | outOfBounds (addr : Word) (len : Nat)
  /-- There is no register with this number. -/
  | registerIndex (file : RegisterFile) (index : Nat)
  deriving DecidableEq

/-- The wording of a fault. -/
def Fault.message : Fault → String
  | decode pc reason => s!"decode error at pc {Text.hexWord pc}: {reason.message}"
  | misaligned addr => s!"misaligned access at {Text.hexWord addr}"
  | outOfBounds addr len => s!"access of {len} bytes at {Text.hexWord addr} is outside memory"
  | registerIndex file index => s!"{file.name} register index {index} out of range"

end TileCore

import TileCore.Isa.Operation

/-!
# Instructions

An instruction with its operands. Register operands are plain numbers and immediates plain
integers: which of them fit into a word is for the encoder to say. Offsets of branches and jumps
count bytes from the instruction's own address.
-/

namespace TileCore

/-- An instruction. The register `rd` receives the result; `rs1` is also the base of an
address. -/
inductive Instruction
  /-- `rd := rs1 op rs2`. -/
  | alu (op : AluOp) (rd rs1 rs2 : Nat)
  /-- `rd := rs1 op imm`; the immediate of a shift is the number of places. -/
  | aluImm (op : AluOp) (rd rs1 : Nat) (imm : Int)
  /-- `rd := memory[rs1 + imm]`. -/
  | load (rd rs1 : Nat) (imm : Int)
  /-- `memory[rs1 + imm] := rs2`. -/
  | store (rs1 rs2 : Nat) (imm : Int)
  /-- Jumps by `imm` if the condition holds of `rs1 - rs2`. -/
  | branch (cond : Condition) (rs1 rs2 : Nat) (imm : Int)
  /-- `rd := imm * 2 ^ 12`, where `imm` has twenty bits. -/
  | lui (rd : Nat) (imm : Nat)
  /-- Jumps by `imm` and leaves the address of the next instruction in `rd`. -/
  | jal (rd : Nat) (imm : Int)
  /-- Jumps to `rs1 + imm` and leaves the address of the next instruction in `rd`. -/
  | jalr (rd rs1 : Nat) (imm : Int)
  /-- `rd := ra * rb + rc` on tiles. -/
  | gemm (rd ra rb rc : Nat)
  /-- Loads the tile `rd` from `rs1 + imm`, with the distance of its rows in `stride`. -/
  | tileLoad (rd rs1 stride : Nat) (imm : Int)
  /-- Stores the tile `rd` at `rs1 + imm`, with the distance of its rows in `stride`. -/
  | tileStore (rd rs1 stride : Nat) (imm : Int)
  /-- Ends the program. -/
  | halt
  deriving DecidableEq

end TileCore

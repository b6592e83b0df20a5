import TileCore.Isa.Decoding
import TileCore.Machine.Alu
import TileCore.Machine.Registers
import TileCore.Machine.TileTransfer

/-!
# One instruction

A machine is the registers and the memory. A step fetches the word at the program counter, decodes
it and does what it says. An instruction either gives new registers or stores words and moves on,
never both; only a store of several words that fails in the middle leaves a trace.

## Main definitions

* `Machine`: registers and memory.
* `Effect`, `Instruction.effect`: what an instruction asks for.
* `Machine.step`: one step.
-/

namespace TileCore

/-- The registers and the memory. -/
structure Machine where
  /-- The registers. -/
  registers : Registers
  /-- The memory. -/
  memory : Memory
  deriving DecidableEq

/-- What a step comes to if it does not fail. -/
inductive StepOutcome
  | running | halted
  deriving DecidableEq

/-- What an instruction asks for. -/
inductive Effect
  /-- Nothing: the program ends. -/
  | halt
  /-- New registers, the program counter included. -/
  | update (registers : Registers)
  /-- Words to be stored at their addresses, after which the next instruction follows. -/
  | write (words : List (Word × Word))

namespace Instruction

/-- What the instruction asks for, given the registers and the memory. -/
def effect (r : Registers) (m : Memory) : Instruction → Except Fault Effect
  | alu op rd rs1 rs2 => do
    let a ← r.read rs1
    let b ← r.read rs2
    let r ← r.write rd (op.apply a b)
    return .update r.next
  | aluImm op rd rs1 imm => do
    let a ← r.read rs1
    let r ← r.write rd (op.apply a (BitVec.ofInt 32 imm))
    return .update r.next
  | lui rd imm => do
    let r ← r.write rd (BitVec.ofNat 32 imm <<< 12)
    return .update r.next
  | load rd rs1 imm => do
    let base ← r.read rs1
    let w ← m.loadWord (base + BitVec.ofInt 32 imm)
    let r ← r.write rd w
    return .update r.next
  | store rs1 rs2 imm => do
    let base ← r.read rs1
    let w ← r.read rs2
    return .write [(base + BitVec.ofInt 32 imm, w)]
  | branch cond rs1 rs2 imm => do
    let a ← r.read rs1
    let b ← r.read rs2
    if cond.holds (difference a b) then
      return .update (r.goto (r.pc + BitVec.ofInt 32 imm))
    else
      return .update r.next
  | jal rd imm => do
    let linked ← r.write rd r.nextAddress
    return .update (linked.goto (r.pc + BitVec.ofInt 32 imm))
  | jalr rd rs1 imm => do
    let base ← r.read rs1
    let linked ← r.write rd r.nextAddress
    return .update (linked.goto (base + BitVec.ofInt 32 imm))
  | gemm rd ra rb rc => do
    let a ← r.tile ra
    let b ← r.tile rb
    let c ← r.tile rc
    let r ← r.setTile rd (Tile.fma a b c)
    return .update r.next
  | tileLoad rd rs1 stride imm => do
    let base ← r.read rs1
    let pitch ← r.read stride
    let t ← loadTile m (base + BitVec.ofInt 32 imm) pitch
    let r ← r.setTile rd t
    return .update r.next
  | tileStore rd rs1 stride imm => do
    let base ← r.read rs1
    let pitch ← r.read stride
    let t ← r.tile rd
    return .write (tileWrites (base + BitVec.ofInt 32 imm) pitch t)
  | halt => return .halt

end Instruction

namespace Machine

/-- The instruction at the program counter. -/
def fetch (r : Registers) (m : Memory) : Except Fault Instruction := do
  let w ← m.loadWord r.pc
  (decode w).mapError (.decode r.pc)

/-- What the instruction at the program counter asks for. -/
def nextEffect (r : Registers) (m : Memory) : Except Fault Effect := do
  let i ← fetch r m
  i.effect r m

/-- Executes the instruction at the program counter. If it fails, the registers are as before. -/
def step : Machine → Machine × Except Fault StepOutcome
  | ⟨r, m⟩ =>
    match nextEffect r m with
    | .error fault => (⟨r, m⟩, .error fault)
    | .ok .halt => (⟨r, m⟩, .ok .halted)
    | .ok (.update r) => (⟨r, m⟩, .ok .running)
    | .ok (.write words) =>
      match m.storeWords words with
      | (m, .ok ()) => (⟨r.next, m⟩, .ok .running)
      | (m, .error fault) => (⟨r, m⟩, .error fault)

end Machine

end TileCore

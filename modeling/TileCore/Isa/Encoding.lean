import TileCore.Isa.Convention
import TileCore.Isa.Instruction

/-!
# Instruction words

An instruction becomes a word by writing its fields side by side, as the layouts below list them
from the most significant bit down. Operands that do not fit their field are refused; of several
the one that is named is the first in the order in which the layout checks them.

## Main definitions

* `EncodeError`: why an instruction has no word, with its `message`.
* `WordForm.r`, `WordForm.i`, `WordForm.s`, `WordForm.b`, `WordForm.u`, `WordForm.j`,
  `WordForm.gemm`, `WordForm.tile`: the eight layouts of a word.
* `Instruction.encode`: the word of an instruction.
-/

namespace TileCore

/-- Why an instruction has no word. -/
inductive EncodeError
  /-- The immediate does not fit a field of `bits` bits. -/
  | immediateOutOfRange (imm : Int) (bits : Nat)
  /-- The offset of a branch or jump is odd. -/
  | misalignedOffset (imm : Int)
  /-- The register number is not below `limit`. -/
  | registerOutOfRange (index limit : Nat)
  /-- The operation takes no immediate. -/
  | noImmediateForm (op : AluOp)
  deriving DecidableEq

/-- The wording of an encoding error. -/
def EncodeError.message : EncodeError → String
  | immediateOutOfRange imm bits => s!"immediate {imm} out of {bits}-bit range"
  | misalignedOffset imm => s!"offset {imm} must be even"
  | registerOutOfRange index limit => s!"register index {index} out of range (0..{limit})"
  | noImmediateForm op => s!"{op.name} has no immediate form"

/-! ### Layouts -/

namespace WordForm

/-- Register form: `funct7 rs2 rs1 funct3 rd opcode`. -/
def r (funct7 : BitVec 7) (rs2 rs1 : BitVec 5) (funct3 : BitVec 3) (rd : BitVec 5) (o : Opcode) :
    Word :=
  funct7 ++ rs2 ++ rs1 ++ funct3 ++ rd ++ o.code

/-- Immediate form: `imm[11:0] rs1 funct3 rd opcode`. -/
def i (imm : BitVec 12) (rs1 : BitVec 5) (funct3 : BitVec 3) (rd : BitVec 5) (o : Opcode) : Word :=
  imm ++ rs1 ++ funct3 ++ rd ++ o.code

/-- Store form: `imm[11:5] rs2 rs1 funct3 imm[4:0] opcode`. -/
def s (imm : BitVec 12) (rs2 rs1 : BitVec 5) (funct3 : BitVec 3) (o : Opcode) : Word :=
  imm.extractLsb' 5 7 ++ rs2 ++ rs1 ++ funct3 ++ imm.extractLsb' 0 5 ++ o.code

/-- Branch form: `imm[12] imm[10:5] rs2 rs1 funct3 imm[4:1] imm[11] opcode`. -/
def b (imm : BitVec 13) (rs2 rs1 : BitVec 5) (funct3 : BitVec 3) (o : Opcode) : Word :=
  imm.extractLsb' 12 1 ++ imm.extractLsb' 5 6 ++ rs2 ++ rs1 ++ funct3 ++ imm.extractLsb' 1 4 ++
    imm.extractLsb' 11 1 ++ o.code

/-- Upper-immediate form: `imm[19:0] rd opcode`. -/
def u (imm : BitVec 20) (rd : BitVec 5) (o : Opcode) : Word :=
  imm ++ rd ++ o.code

/-- Jump form: `imm[20] imm[10:1] imm[11] imm[19:12] rd opcode`. -/
def j (imm : BitVec 21) (rd : BitVec 5) (o : Opcode) : Word :=
  imm.extractLsb' 20 1 ++ imm.extractLsb' 1 10 ++ imm.extractLsb' 11 1 ++ imm.extractLsb' 12 8 ++
    rd ++ o.code

/-- Tile arithmetic: `rd ra rb rc 0 opcode`. -/
def gemm (rd ra rb rc : BitVec 4) (o : Opcode) : Word :=
  rd ++ ra ++ rb ++ rc ++ 0#9 ++ o.code

/-- Tile memory: `rd rs1 stride imm[10:0] opcode`. -/
def tile (rd : BitVec 4) (rs1 stride : BitVec 5) (imm : BitVec 11) (o : Opcode) : Word :=
  rd ++ rs1 ++ stride ++ imm ++ o.code

end WordForm

/-! ### Fields -/

/-- The field of a scalar register. -/
def scalarField (index : Nat) : Except EncodeError (BitVec 5) :=
  if index < scalarCount then .ok (BitVec.ofNat 5 index)
  else .error (.registerOutOfRange index scalarCount)

/-- The field of a tile register. -/
def tileField (index : Nat) : Except EncodeError (BitVec 4) :=
  if index < tileCount then .ok (BitVec.ofNat 4 index)
  else .error (.registerOutOfRange index tileCount)

/-- The field of a signed immediate. -/
def signedField (bits : Nat) (imm : Int) : Except EncodeError (BitVec bits) :=
  if FitsSigned bits imm then .ok (BitVec.ofInt bits imm)
  else .error (.immediateOutOfRange imm bits)

/-- The field of a byte offset, which is even. -/
def offsetField (bits : Nat) (imm : Int) : Except EncodeError (BitVec bits) :=
  if imm % 2 = 0 then signedField bits imm else .error (.misalignedOffset imm)

/-- The field of a shift amount. -/
def shiftField (imm : Int) : Except EncodeError (BitVec 5) :=
  if 0 ≤ imm ∧ imm < 32 then .ok (BitVec.ofInt 5 imm) else .error (.immediateOutOfRange imm 5)

/-- The field of an upper immediate. -/
def upperField (imm : Nat) : Except EncodeError (BitVec 20) :=
  if imm ≤ 0xFFFFF then .ok (BitVec.ofNat 20 imm) else .error (.immediateOutOfRange imm 20)

/-- The `funct3` field of an immediate form. -/
def immediateFunctField (op : AluOp) : Except EncodeError (BitVec 3) :=
  match op.immediateFunct? with
  | some f => .ok (BitVec.ofNat 3 f)
  | none => .error (.noImmediateForm op)

/-! ### Encoding -/

namespace Instruction

/-- The word of an instruction in immediate form. A shift keeps its amount in the place of `rs2`
and says in `funct7` whether it is arithmetic. -/
def encodeImmediate (op : AluOp) (rd rs1 : Nat) (imm : Int) : Except EncodeError Word := do
  let funct3 ← immediateFunctField op
  if op.isShift then
    let amount ← shiftField imm
    let rs1 ← scalarField rs1
    let rd ← scalarField rd
    let funct7 := if op = .sra then BitVec.ofNat 7 arithmeticFunct else 0
    return WordForm.r funct7 amount rs1 funct3 rd .immediate
  else
    let imm ← signedField 12 imm
    let rs1 ← scalarField rs1
    let rd ← scalarField rd
    return WordForm.i imm rs1 funct3 rd .immediate

/-- The word of a tile load or store. -/
def encodeTile (o : Opcode) (rd rs1 stride : Nat) (imm : Int) : Except EncodeError Word := do
  let rd ← tileField rd
  let rs1 ← scalarField rs1
  let stride ← scalarField stride
  let imm ← signedField 11 imm
  return WordForm.tile rd rs1 stride imm o

/-- The word of an instruction, or the first operand that does not fit. -/
def encode : Instruction → Except EncodeError Word
  | alu op rd rs1 rs2 => do
    let rs2 ← scalarField rs2
    let rs1 ← scalarField rs1
    let rd ← scalarField rd
    return WordForm.r (BitVec.ofNat 7 op.funct.1) rs2 rs1 (BitVec.ofNat 3 op.funct.2) rd .register
  | aluImm op rd rs1 imm => encodeImmediate op rd rs1 imm
  | load rd rs1 imm => do
    let imm ← signedField 12 imm
    let rs1 ← scalarField rs1
    let rd ← scalarField rd
    return WordForm.i imm rs1 (BitVec.ofNat 3 wordFunct) rd .load
  | store rs1 rs2 imm => do
    let imm ← signedField 12 imm
    let rs2 ← scalarField rs2
    let rs1 ← scalarField rs1
    return WordForm.s imm rs2 rs1 (BitVec.ofNat 3 wordFunct) .store
  | branch cond rs1 rs2 imm => do
    let imm ← offsetField 13 imm
    let rs2 ← scalarField rs2
    let rs1 ← scalarField rs1
    return WordForm.b imm rs2 rs1 (BitVec.ofNat 3 cond.funct) .branch
  | lui rd imm => do
    let imm ← upperField imm
    let rd ← scalarField rd
    return WordForm.u imm rd .lui
  | jal rd imm => do
    let imm ← offsetField 21 imm
    let rd ← scalarField rd
    return WordForm.j imm rd .jal
  | jalr rd rs1 imm => do
    let imm ← signedField 12 imm
    let rs1 ← scalarField rs1
    let rd ← scalarField rd
    return WordForm.i imm rs1 0 rd .jalr
  | gemm rd ra rb rc => do
    let rd ← tileField rd
    let ra ← tileField ra
    let rb ← tileField rb
    let rc ← tileField rc
    return WordForm.gemm rd ra rb rc .gemm
  | tileLoad rd rs1 stride imm => encodeTile .tileLoad rd rs1 stride imm
  | tileStore rd rs1 stride imm => encodeTile .tileStore rd rs1 stride imm
  | halt => return haltWord

end Instruction

end TileCore

import TileCore.Assembly.Operand
import TileCore.Assembly.Source

/-!
# Reading instructions

The statement of an instruction is read by its mnemonic. Operands are looked at one after the other,
and the first one that cannot be read or does not fit decides the error; an address is read before
the registers around it.

## Main definitions

* `Mnemonic`, `Mnemonic.ofText?`: what a mnemonic selects.
* `Mnemonic.read`: the instruction of a mnemonic with operands.
* `readInstruction`: the instruction of a statement at an address.
-/

namespace TileCore

/-- What a mnemonic selects. -/
inductive Mnemonic
  /-- The register form of an operation. -/
  | alu (op : AluOp)
  /-- The immediate form of an operation. -/
  | aluImm (op : AluOp)
  /-- A branch. -/
  | branch (cond : Condition)
  | load | store | lui | jal | jalr | gemm | tileLoad | tileStore | halt
  deriving DecidableEq

namespace Mnemonic

/-- The mnemonics that are not made from the name of an operation or condition. -/
def keywords : List (String × Mnemonic) :=
  [("lw", load), ("ld", load), ("sw", store), ("st", store), ("lui", lui), ("jal", jal),
    ("jalr", jalr), ("gemm", gemm), ("ld.m", tileLoad), ("st.m", tileStore), ("halt", halt)]

/-- The operation of an immediate form: its name with an `i` behind it, which the unsigned
comparison may also carry before its last letter. -/
def immediateOp? (s : Text) : Option AluOp :=
  if s = "sltiu".toList then some .sltu
  else ((Text.beforeEnd? ['i'] s).bind AluOp.ofName?).filter (·.immediateFunct?.isSome)

/-- What a mnemonic in lower case selects. -/
def ofText? (s : Text) : Option Mnemonic :=
  (AluOp.ofName? s).map alu <|> (immediateOp? s).map aluImm <|>
    (Condition.ofName? s).map branch <|>
    (keywords.find? fun entry => entry.1.toList == s).map (·.2)

/-- The immediate operand of an operation. -/
def immediateOperand (labels : Labels) (mnemonic : Text) (op : AluOp) (operand : Text) :
    Except AssemblyCause Int := do
  if op.isShift then shiftOperand operand
  else
    let imm ← resolveImmediate labels operand
    checkSigned mnemonic 12 imm

/-- The instruction that the mnemonic selects with the given operands, at address `pc`. The
mnemonic is also given as it was written, for messages. -/
def read (labels : Labels) (pc : Word) (mnemonic : Text) :
    Mnemonic → List Text → Except AssemblyCause Instruction
  | alu op, [rd, rs1, rs2] => do
    let rd ← scalarOperand rd
    let rs1 ← scalarOperand rs1
    let rs2 ← scalarOperand rs2
    return .alu op rd rs1 rs2
  | alu _, _ => .error (.usage "rd, rs1, rs2")
  | aluImm op, [rd, rs1, imm] => do
    let rd ← scalarOperand rd
    let rs1 ← scalarOperand rs1
    let imm ← immediateOperand labels mnemonic op imm
    return .aluImm op rd rs1 imm
  | aluImm _, _ => .error (.usage "rd, rs1, imm")
  | branch cond, [rs1, rs2, target] => do
    let rs1 ← scalarOperand rs1
    let rs2 ← scalarOperand rs2
    let imm ← resolveTarget labels pc mnemonic 13 target
    return .branch cond rs1 rs2 imm
  | branch _, _ => .error (.usage "rs1, rs2, label/imm")
  | load, [rd, addr] => do
    let (imm, rs1) ← resolveAddress labels addr
    let rd ← scalarOperand rd
    let imm ← checkSigned mnemonic 12 imm
    return .load rd rs1 imm
  | load, [rd, rs1, imm] => do
    let rd ← scalarOperand rd
    let rs1 ← scalarOperand rs1
    let imm ← resolveImmediate labels imm
    let imm ← checkSigned mnemonic 12 imm
    return .load rd rs1 imm
  | load, _ => .error (.usageOf mnemonic "rd, imm(rs1)")
  | store, [rs2, addr] => do
    let (imm, rs1) ← resolveAddress labels addr
    let rs2 ← scalarOperand rs2
    let imm ← checkSigned mnemonic 12 imm
    return .store rs1 rs2 imm
  | store, [rs1, rs2, imm] => do
    let rs1 ← scalarOperand rs1
    let rs2 ← scalarOperand rs2
    let imm ← resolveImmediate labels imm
    let imm ← checkSigned mnemonic 12 imm
    return .store rs1 rs2 imm
  | store, _ => .error (.usageOf mnemonic "rs2, imm(rs1)")
  | lui, [rd, imm] => do
    let rd ← scalarOperand rd
    let imm ← resolveImmediate labels imm
    let imm ← checkUpper mnemonic imm
    return .lui rd imm
  | lui, _ => .error (.usage "rd, imm")
  | jal, [target] => do
    let imm ← resolveTarget labels pc mnemonic 21 target
    return .jal returnRegister imm
  | jal, [rd, target] => do
    let rd ← scalarOperand rd
    let imm ← resolveTarget labels pc mnemonic 21 target
    return .jal rd imm
  | jal, _ => .error (.usageOf mnemonic "rd, label")
  | jalr, [rd, addr] => do
    let (imm, rs1) ← resolveAddress labels addr
    let rd ← scalarOperand rd
    let imm ← checkSigned mnemonic 12 imm
    return .jalr rd rs1 imm
  | jalr, [rd, rs1, imm] => do
    let rd ← scalarOperand rd
    let rs1 ← scalarOperand rs1
    let imm ← resolveImmediate labels imm
    let imm ← checkSigned mnemonic 12 imm
    return .jalr rd rs1 imm
  | jalr, _ => .error (.usageOf mnemonic "rd, rs1, imm")
  | gemm, [rd, ra, rb, rc] => do
    let rd ← tileOperand rd
    let ra ← tileOperand ra
    let rb ← tileOperand rb
    let rc ← tileOperand rc
    return .gemm rd ra rb rc
  | gemm, _ => .error (.usage "md, ma, mb, mc")
  | tileLoad, [rd, stride, addr] => do
    let (imm, rs1) ← resolveAddress labels addr
    let rd ← tileOperand rd
    let stride ← scalarOperand stride
    let imm ← checkSigned mnemonic 11 imm
    return .tileLoad rd rs1 stride imm
  | tileLoad, _ => .error (.usage "md, xstride, imm(xbase)")
  | tileStore, [rd, stride, addr] => do
    let (imm, rs1) ← resolveAddress labels addr
    let rd ← tileOperand rd
    let stride ← scalarOperand stride
    let imm ← checkSigned mnemonic 11 imm
    return .tileStore rd rs1 stride imm
  | tileStore, _ => .error (.usage "md, xstride, imm(xbase)")
  | halt, [] => return .halt
  | halt, _ => .error (.usage "halt")

end Mnemonic

/-- The instruction of a statement at address `pc`. -/
def readInstruction (labels : Labels) (pc : Word) (text : Text) :
    Except AssemblyCause Instruction :=
  let s := Statement.ofText text
  match Mnemonic.ofText? s.mnemonic with
  | some m => m.read labels pc s.mnemonic s.operands
  | none => .error (.unsupported s.mnemonic)

end TileCore

import TileCore.BitSeq
import TileCore.Isa.Convention
import TileCore.Isa.Instruction
import TileCore.Text.Digits

/-!
# Reading instruction words

A word is taken apart into its bits; the low seven select the opcode, and slices of the rest are
the operands. The bits of an immediate that a layout scatters are joined again, the lowest slice
first. A word is refused if its opcode is unknown or if one of its fields has no meaning.

## Main definitions

* `DecodeError`: why a word is no instruction, with its `message`.
* `decode`: the instruction of a word.
-/

namespace TileCore

/-- What is wrong with a word whose opcode is known. -/
inductive Malformation
  /-- No operation has these `funct7` and `funct3` fields. -/
  | registerFunct
  /-- No shift has this `funct7` field. -/
  | immediateFunct
  /-- A load of another width than a word. -/
  | loadWidth
  /-- A jump to a register with a `funct3` field other than zero. -/
  | jumpFunct
  /-- A store of another width than a word. -/
  | storeWidth
  /-- No condition has this `funct3` field. -/
  | condition
  /-- The reserved bits of a tile product are not all zero. -/
  | reservedBits
  /-- The opcode of the halt word in another word. -/
  | haltOpcode
  deriving DecidableEq

/-- The wording of a malformation. -/
def Malformation.message : Malformation → String
  | registerFunct => "invalid R-type funct"
  | immediateFunct => "invalid OP-IMM funct"
  | loadWidth => "only word loads exist"
  | jumpFunct => "JALR with funct3 != 0"
  | storeWidth => "only word stores exist"
  | condition => "invalid branch condition"
  | reservedBits => "GEMM reserved bits set"
  | haltOpcode => "halt opcode outside the all-ones sentinel"

/-- Why a word is no instruction. -/
inductive DecodeError
  /-- The low seven bits are no opcode. -/
  | unknownOpcode (word : Word) (opcode : Nat)
  /-- The opcode is known and another field has no meaning. -/
  | malformed (word : Word) (reason : Malformation)
  deriving DecidableEq

/-- The wording of a decoding error. -/
def DecodeError.message : DecodeError → String
  | unknownOpcode word opcode =>
    s!"unknown opcode {Text.binaryOpcode opcode} in word {Text.hexWord word}"
  | malformed word reason => s!"malformed instruction {Text.hexWord word}: {reason.message}"

/-! ### Fields of a word -/

namespace Field

/-- A field as a plain number. -/
def number (bits : BitSeq) (lo hi : Nat) : Nat := (bits.field lo hi).toNat

/-- The opcode field. -/
def opcode (bits : BitSeq) : Nat := number bits 0 6

/-- The destination register. -/
def rd (bits : BitSeq) : Nat := number bits 7 11

/-- The short function field. -/
def funct3 (bits : BitSeq) : Nat := number bits 12 14

/-- The first source register. -/
def rs1 (bits : BitSeq) : Nat := number bits 15 19

/-- The second source register. -/
def rs2 (bits : BitSeq) : Nat := number bits 20 24

/-- The long function field. -/
def funct7 (bits : BitSeq) : Nat := number bits 25 31

/-- The immediate of the immediate form. -/
def immI (bits : BitSeq) : Int := (bits.slice 20 31).signedValue

/-- The immediate of the store form: its low five bits stand where `rd` would. -/
def immS (bits : BitSeq) : Int := (bits.slice 7 11 ++ bits.slice 25 31).signedValue

/-- The immediate of the branch form; its lowest bit is not written and is zero. -/
def immB (bits : BitSeq) : Int :=
  BitSeq.signedValue
    (false :: bits.slice 8 11 ++ bits.slice 25 30 ++ bits.slice 7 7 ++ bits.slice 31 31)

/-- The immediate of the jump form; its lowest bit is not written and is zero. -/
def immJ (bits : BitSeq) : Int :=
  BitSeq.signedValue
    (false :: bits.slice 21 30 ++ bits.slice 20 20 ++ bits.slice 12 19 ++ bits.slice 31 31)

/-- The immediate of the upper-immediate form. -/
def immU (bits : BitSeq) : Nat := number bits 12 31

/-- The immediate of the tile memory form. -/
def immT (bits : BitSeq) : Int := (bits.slice 7 17).signedValue

end Field

/-! ### Decoding -/

/-- The operation of an immediate form. A shift is known by its whole `funct7` field, which makes
the right shift arithmetic or not. -/
def decodeImmediateOp? (bits : BitSeq) : Option AluOp :=
  match AluOp.ofImmediateFunct? (Field.funct3 bits) with
  | some .sll => if Field.funct7 bits = 0 then some .sll else none
  | some .srl =>
    if Field.funct7 bits = 0 then some .srl
    else if Field.funct7 bits = arithmeticFunct then some .sra
    else none
  | op => op

/-- The instruction that the bits spell, given the opcode. -/
def decodeAs (bits : BitSeq) : Opcode → Except Malformation Instruction
  | .register =>
    match AluOp.ofFunct? (Field.funct7 bits) (Field.funct3 bits) with
    | some op => .ok (.alu op (Field.rd bits) (Field.rs1 bits) (Field.rs2 bits))
    | none => .error .registerFunct
  | .immediate =>
    match decodeImmediateOp? bits with
    | some op =>
      let imm := if op.isShift then (Field.rs2 bits : Int) else Field.immI bits
      .ok (.aluImm op (Field.rd bits) (Field.rs1 bits) imm)
    | none => .error .immediateFunct
  | .load =>
    if Field.funct3 bits = wordFunct then
      .ok (.load (Field.rd bits) (Field.rs1 bits) (Field.immI bits))
    else .error .loadWidth
  | .store =>
    if Field.funct3 bits = wordFunct then
      .ok (.store (Field.rs1 bits) (Field.rs2 bits) (Field.immS bits))
    else .error .storeWidth
  | .branch =>
    match Condition.ofFunct? (Field.funct3 bits) with
    | some cond => .ok (.branch cond (Field.rs1 bits) (Field.rs2 bits) (Field.immB bits))
    | none => .error .condition
  | .lui => .ok (.lui (Field.rd bits) (Field.immU bits))
  | .jal => .ok (.jal (Field.rd bits) (Field.immJ bits))
  | .jalr =>
    if Field.funct3 bits = 0 then
      .ok (.jalr (Field.rd bits) (Field.rs1 bits) (Field.immI bits))
    else .error .jumpFunct
  | .gemm =>
    if (bits.slice 7 15).any id then .error .reservedBits
    else
      .ok (.gemm (Field.number bits 28 31) (Field.number bits 24 27) (Field.number bits 20 23)
        (Field.number bits 16 19))
  | .tileLoad =>
    .ok (.tileLoad (Field.number bits 28 31) (Field.number bits 23 27) (Field.number bits 18 22)
      (Field.immT bits))
  | .tileStore =>
    .ok (.tileStore (Field.number bits 28 31) (Field.number bits 23 27) (Field.number bits 18 22)
      (Field.immT bits))
  | .halt => .error .haltOpcode

/-- The instruction of a word. -/
def decode (word : Word) : Except DecodeError Instruction :=
  if word = haltWord then .ok .halt
  else
    let bits := BitSeq.ofWord word
    match Opcode.ofCode? (Field.opcode bits) with
    | none => .error (.unknownOpcode word (Field.opcode bits))
    | some o => (decodeAs bits o).mapError (.malformed word)

end TileCore

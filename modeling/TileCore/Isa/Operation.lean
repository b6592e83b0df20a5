import TileCore.Word

/-!
# Operations, conditions and opcodes

The arithmetic operations and branch conditions of the instruction set, their mnemonics, and the
numbers that stand for them in instruction words. An operation is selected by the pair of its
`funct7` and `funct3` fields in the register form and by `funct3` in the immediate form, where
the two right shifts share one number and are told apart by `funct7`.

## Main definitions

* `AluOp`, `Condition`, `Opcode`: the enumerations, each with the list `all` of its members.
* `AluOp.funct`, `AluOp.immediateFunct?`, `Condition.funct`, `Opcode.code`: their numbers.
* `AluOp.ofFunct?`, `AluOp.ofImmediateFunct?`, `Condition.ofFunct?`, `Opcode.ofCode?`: the
  members that numbers stand for.

## Main results

* `AluOp.ofFunct?_funct`, `Condition.ofFunct?_funct`, `Opcode.ofCode?_code`: no two members share
  a number.
-/

namespace TileCore

/-- An operation on two words. -/
inductive AluOp
  | add | sub | xor | or | and | sll | srl | sra | slt | sltu | mul
  deriving DecidableEq

/-- A condition on the difference of two registers. -/
inductive Condition
  | beq | bne | blt | bge
  deriving DecidableEq

/-- The instruction formats and single instructions that the low seven bits of a word select. -/
inductive Opcode
  | register | immediate | load | store | branch | lui | jal | jalr | tileLoad | tileStore | gemm
  | halt
  deriving DecidableEq

namespace AluOp

/-- All operations, in the order in which tables list them. -/
def all : List AluOp := [add, sub, xor, or, and, sll, srl, sra, slt, sltu, mul]

/-- The mnemonic of the register form. -/
def name : AluOp → String
  | add => "add"
  | sub => "sub"
  | xor => "xor"
  | or => "or"
  | and => "and"
  | sll => "sll"
  | srl => "srl"
  | sra => "sra"
  | slt => "slt"
  | sltu => "sltu"
  | mul => "mul"

/-- The operation with the given mnemonic. -/
def ofName? (s : List Char) : Option AluOp := all.find? fun op => op.name.toList == s

/-- The `funct7` and `funct3` fields of the register form. -/
def funct : AluOp → Nat × Nat
  | add => (0x00, 0)
  | sub => (0x20, 0)
  | xor => (0x00, 4)
  | or => (0x00, 6)
  | and => (0x00, 7)
  | sll => (0x00, 1)
  | srl => (0x00, 5)
  | sra => (0x20, 5)
  | slt => (0x00, 2)
  | sltu => (0x00, 3)
  | mul => (0x01, 0)

/-- The operation whose register form has the given fields. -/
def ofFunct? (funct7 funct3 : Nat) : Option AluOp :=
  all.find? fun op => op.funct == (funct7, funct3)

/-- The `funct3` field of the immediate form; subtraction and multiplication have none. -/
def immediateFunct? : AluOp → Option Nat
  | sub | mul => none
  | op => some op.funct.2

/-- The operation whose immediate form has the given `funct3`. The number of the two right shifts
is read as the logical one. -/
def ofImmediateFunct? (funct3 : Nat) : Option AluOp :=
  all.find? fun op => op != sra && op.immediateFunct? == some funct3

/-- Whether the second operand is a shift amount. -/
def isShift : AluOp → Bool
  | sll | srl | sra => true
  | _ => false

theorem mem_all (op : AluOp) : op ∈ all := by cases op <;> decide

@[simp] theorem ofFunct?_funct (op : AluOp) : ofFunct? op.funct.1 op.funct.2 = some op := by
  cases op <;> rfl

@[simp] theorem ofName?_name (op : AluOp) : ofName? op.name.toList = some op := by
  cases op <;> rfl

end AluOp

namespace Condition

/-- All conditions, in the order in which tables list them. -/
def all : List Condition := [beq, bne, blt, bge]

/-- The mnemonic of the branch. -/
def name : Condition → String
  | beq => "beq"
  | bne => "bne"
  | blt => "blt"
  | bge => "bge"

/-- The condition with the given mnemonic. -/
def ofName? (s : List Char) : Option Condition := all.find? fun c => c.name.toList == s

/-- The `funct3` field of the branch. -/
def funct : Condition → Nat
  | beq => 0
  | bne => 1
  | blt => 4
  | bge => 5

/-- The condition with the given `funct3`. -/
def ofFunct? (funct3 : Nat) : Option Condition := all.find? fun c => c.funct == funct3

/-- Whether a branch is taken when the first register exceeds the second by `difference`. -/
def holds (difference : Int) : Condition → Bool
  | beq => difference == 0
  | bne => difference != 0
  | blt => difference < 0
  | bge => difference ≥ 0

theorem mem_all (c : Condition) : c ∈ all := by cases c <;> decide

@[simp] theorem ofFunct?_funct (c : Condition) : ofFunct? c.funct = some c := by
  cases c <;> rfl

@[simp] theorem ofName?_name (c : Condition) : ofName? c.name.toList = some c := by
  cases c <;> rfl

end Condition

namespace Opcode

/-- All opcodes, in the order in which tables list them. -/
def all : List Opcode :=
  [register, immediate, load, store, branch, lui, jal, jalr, tileLoad, tileStore, gemm, halt]

/-- The low seven bits of a word with the opcode. -/
def code : Opcode → BitVec 7
  | register => 0b0110011
  | immediate => 0b0010011
  | load => 0b0000011
  | store => 0b0100011
  | branch => 0b1100011
  | lui => 0b0110111
  | jal => 0b1101111
  | jalr => 0b1100111
  | tileLoad => 0b1000111
  | tileStore => 0b1010111
  | gemm => 0b1110111
  | halt => 0b1111111

/-- The opcode with the given number. -/
def ofCode? (n : Nat) : Option Opcode := all.find? fun o => o.code.toNat == n

theorem mem_all (o : Opcode) : o ∈ all := by cases o <;> decide

@[simp] theorem ofCode?_code (o : Opcode) : ofCode? o.code.toNat = some o := by
  cases o <;> rfl

end Opcode

end TileCore

import TileCore.Assembly.Operand
import TileCore.Assembly.Source

/-!
# Shorthands

Some mnemonics stand for one or two instructions with other mnemonics. A shorthand is replaced by
their text before addresses are given out, so that every line that remains takes one word. The text
of the operands is carried over as it is, and its meaning is settled later.

## Main definitions

* `Shorthand`, `Shorthand.ofName?`: the shorthands.
* `expand`: a statement as the text of instructions.
-/

namespace TileCore

/-- The mnemonics that are no instructions. -/
inductive Shorthand
  | li | la | push | pop | nop | mov | mv | j | call | ret | jr | beqz | bnez | bgt | ble
  deriving DecidableEq

namespace Shorthand

/-- All shorthands. -/
def all : List Shorthand :=
  [li, la, push, pop, nop, mov, mv, j, call, ret, jr, beqz, bnez, bgt, ble]

/-- The mnemonic of a shorthand. -/
def name : Shorthand → String
  | li => "li"
  | la => "la"
  | push => "push"
  | pop => "pop"
  | nop => "nop"
  | mov => "mov"
  | mv => "mv"
  | j => "j"
  | call => "call"
  | ret => "ret"
  | jr => "jr"
  | beqz => "beqz"
  | bnez => "bnez"
  | bgt => "bgt"
  | ble => "ble"

/-- The shorthand with the given mnemonic. -/
def ofName? (s : Text) : Option Shorthand := all.find? fun p => p.name.toList == s

end Shorthand

/-- The text of an instruction. -/
def instructionText (mnemonic : String) (operands : List Text) : Text :=
  mnemonic.toList ++ ' ' :: List.intercalate ", ".toList operands

/-- A number as text. -/
def integerText (z : Int) : Text := (toString z).toList

/-- A number put into a register: by one addition to zero if it fits, and otherwise by its upper
part and the addition of its lower part. A number from the upper half of the unsigned range is the
same word as a negative one. -/
def expandLiteral (rd operand : Text) : Except AssemblyCause (List Text) :=
  match readImmediate? operand with
  | none => .error (.invalidImmediate operand)
  | some z =>
    if -0x80000000 ≤ z ∧ z < 0x100000000 then
      let z := z.bmod 0x100000000
      if FitsSigned 12 z then .ok [instructionText "addi" [rd, "x0".toList, integerText z]]
      else
        .ok [instructionText "lui" [rd, integerText (upperPart z)],
          instructionText "addi" [rd, rd, integerText (lowerPart z)]]
    else .error (.literalRange z)

/-- The instructions of a shorthand with its operands. -/
def Shorthand.expand : Shorthand → List Text → Except AssemblyCause (List Text)
  | li, [rd, imm] => expandLiteral rd imm
  | li, _ => .error (.usage "rd, imm")
  | la, [rd, label] =>
    .ok [instructionText "lui" [rd, "%hi(".toList ++ label ++ [')']],
      instructionText "addi" [rd, rd, "%lo(".toList ++ label ++ [')']]]
  | la, _ => .error (.usage "rd, label")
  | push, [rs] => .ok ["addi sp, sp, -4".toList, instructionText "sw" [rs, "0(sp)".toList]]
  | push, _ => .error (.usage "rs")
  | pop, [rd] => .ok [instructionText "lw" [rd, "0(sp)".toList], "addi sp, sp, 4".toList]
  | pop, _ => .error (.usage "rd")
  | nop, [] => .ok ["addi x0, x0, 0".toList]
  | nop, _ => .error (.usage "nop")
  | mov, [rd, rs] => .ok [instructionText "add" [rd, rs, "x0".toList]]
  | mov, [rd, rs1, rs2] => .ok [instructionText "add" [rd, rs1, rs2]]
  | mov, _ => .error (.usageOf "mov".toList "rd, rs")
  | mv, [rd, rs] => .ok [instructionText "add" [rd, rs, "x0".toList]]
  | mv, _ => .error (.usageOf "mv".toList "rd, rs")
  | j, [label] => .ok [instructionText "jal" ["x0".toList, label]]
  | j, _ => .error (.usage "label")
  | call, [label] => .ok [instructionText "jal" ["ra".toList, label]]
  | call, _ => .error (.usage "label")
  | ret, [] => .ok ["jalr x0, ra, 0".toList]
  | ret, _ => .error (.usage "ret")
  | jr, [rs] => .ok [instructionText "jalr" ["x0".toList, rs, "0".toList]]
  | jr, _ => .error (.usage "rs")
  | beqz, [rs, label] => .ok [instructionText "beq" [rs, "x0".toList, label]]
  | beqz, _ => .error (.usage "rs, label")
  | bnez, [rs, label] => .ok [instructionText "bne" [rs, "x0".toList, label]]
  | bnez, _ => .error (.usage "rs, label")
  | bgt, [rs, rt, label] => .ok [instructionText "blt" [rt, rs, label]]
  | bgt, _ => .error (.usage "rs, rt, label")
  | ble, [rs, rt, label] => .ok [instructionText "bge" [rt, rs, label]]
  | ble, _ => .error (.usage "rs, rt, label")

/-- A statement as the text of instructions. A statement that is no shorthand stays as it is. -/
def expand (text : Text) : Except AssemblyCause (List Text) :=
  let s := Statement.ofText text
  match Shorthand.ofName? s.mnemonic with
  | some p => p.expand s.operands
  | none => .ok [Text.trim text]

end TileCore

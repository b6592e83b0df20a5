import TileCore.Assembly.Shorthand

/-!
# Listings

The text of a given instruction, with registers by number and offsets in decimal. Assembling the
text gives the instruction back.

## Main definitions

* `Instruction.listing`: the text of an instruction.
* `listingOf`: the text of several instructions, one on a line.
-/

namespace TileCore

/-- A scalar register by its number. -/
def scalarText (i : Nat) : Text := 'x' :: (toString i).toList

/-- A tile register by its number. -/
def tileRegisterText (i : Nat) : Text := 'm' :: (toString i).toList

/-- An offset and the base register of an address. -/
def addressText (imm : Int) (base : Nat) : Text :=
  integerText imm ++ '(' :: scalarText base ++ [')']

/-- The mnemonic of an immediate form. -/
def AluOp.immediateName (op : AluOp) : String := if op = .sltu then "sltiu" else op.name ++ "i"

/-- The text of an instruction. -/
def Instruction.listing : Instruction → Text
  | alu op rd rs1 rs2 => instructionText op.name [scalarText rd, scalarText rs1, scalarText rs2]
  | aluImm op rd rs1 imm =>
    instructionText op.immediateName [scalarText rd, scalarText rs1, integerText imm]
  | load rd rs1 imm => instructionText "lw" [scalarText rd, addressText imm rs1]
  | store rs1 rs2 imm => instructionText "sw" [scalarText rs2, addressText imm rs1]
  | branch cond rs1 rs2 imm =>
    instructionText cond.name [scalarText rs1, scalarText rs2, integerText imm]
  | lui rd imm => instructionText "lui" [scalarText rd, (toString imm).toList]
  | jal rd imm => instructionText "jal" [scalarText rd, integerText imm]
  | jalr rd rs1 imm => instructionText "jalr" [scalarText rd, scalarText rs1, integerText imm]
  | gemm rd ra rb rc =>
    instructionText "gemm"
      [tileRegisterText rd, tileRegisterText ra, tileRegisterText rb, tileRegisterText rc]
  | tileLoad rd rs1 stride imm =>
    instructionText "ld.m" [tileRegisterText rd, scalarText stride, addressText imm rs1]
  | tileStore rd rs1 stride imm =>
    instructionText "st.m" [tileRegisterText rd, scalarText stride, addressText imm rs1]
  | halt => "halt".toList

/-- The text of several instructions, one on a line. -/
def listingOf (instructions : List Instruction) : Text :=
  List.intercalate ['\n'] (instructions.map Instruction.listing)

end TileCore

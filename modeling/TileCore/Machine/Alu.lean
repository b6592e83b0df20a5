import TileCore.BitSeq
import TileCore.Isa.Operation

/-!
# Arithmetic on words

The operations of the arithmetic unit. Sums, differences and products wrap; shifts use the low five
bits of their second operand. The left shift and the logical right shift work on the bits of the
word: zeros come in at one end, and as many bits are lost at the other.

## Main definitions

* `AluOp.apply`: the result of an operation.
* `difference`: how much one register exceeds another as a signed number, without wrapping.
-/

namespace TileCore

/-- The number of places that a shift moves. -/
def shiftAmount (b : Word) : Nat := b.toNat % 32

/-- The bits of `a`, moved up by `n` places. -/
def shiftLeft (a : Word) (n : Nat) : Word :=
  BitSeq.toWord (List.replicate n false ++ (BitSeq.ofWord a).take (32 - n))

/-- The bits of `a`, moved down by `n` places. -/
def shiftRight (a : Word) (n : Nat) : Word :=
  BitSeq.toWord ((BitSeq.ofWord a).drop n ++ List.replicate n false)

/-- The result of an operation on two words. -/
def AluOp.apply : AluOp → Word → Word → Word
  | add, a, b => a + b
  | sub, a, b => a - b
  | xor, a, b => a ^^^ b
  | or, a, b => a ||| b
  | and, a, b => a &&& b
  | sll, a, b => shiftLeft a (shiftAmount b)
  | srl, a, b => shiftRight a (shiftAmount b)
  | sra, a, b => a.sshiftRight (shiftAmount b)
  | slt, a, b => if a.slt b then 1 else 0
  | sltu, a, b => if a.ult b then 1 else 0
  | mul, a, b => a * b

/-- How much `a` exceeds `b`, both read as signed numbers; the sign is their true order. -/
def difference (a b : Word) : Int := a.toInt - b.toInt

end TileCore

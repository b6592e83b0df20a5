/-!
# Bytes and words

The machine moves bytes and 32-bit words. A word is stored with its least significant byte
first, and a field of a word that holds a signed number is read in two's complement at the width
of the field. This module fixes those two conventions, which the codec, the memory and the
assembler share.

## Main definitions

* `twoPow`: the number of values of so many bits.
* `Word.toBytes`, `Word.ofBytes`: the four bytes of a word, least significant first.
* `Word.lowHalf`, `Word.highHalf`, `Word.ofHalves`: the two halves of a word.
* `signExtend`: the low bits of a word as a two's-complement number.
* `FitsSigned`: the numbers that a signed field of a given width can hold.

## Main results

* `Word.ofBytes_toBytes`: reading back the bytes of a word gives the word.
-/

namespace TileCore

/-- One byte of memory or of an image. -/
abbrev Byte := BitVec 8

/-- A machine word: an instruction, an address or the content of a scalar register. -/
abbrev Word := BitVec 32

/-- The number of values that `n` bits can take. -/
def twoPow (n : Nat) : Nat := Nat.pow 2 n

@[simp] theorem twoPow_zero : twoPow 0 = 1 := rfl

theorem twoPow_succ (n : Nat) : twoPow (n + 1) = 2 * twoPow n := Nat.mul_comm _ _

theorem twoPow_pos (n : Nat) : 0 < twoPow n := by
  induction n with
  | zero => decide
  | succ n ih => rw [twoPow_succ]; omega

namespace Word

/-- The byte of `w` that starts at bit `8 * i`. -/
def byte (w : Word) (i : Nat) : Byte := w.extractLsb' (8 * i) 8

/-- The four bytes of a word, least significant first. -/
def toBytes (w : Word) : List Byte := [byte w 0, byte w 1, byte w 2, byte w 3]

/-- The word with the given bytes, least significant first. -/
def ofBytes (b₀ b₁ b₂ b₃ : Byte) : Word := b₃ ++ b₂ ++ b₁ ++ b₀

/-- The low 16 bits of a word. -/
def lowHalf (w : Word) : BitVec 16 := w.extractLsb' 0 16

/-- The high 16 bits of a word. -/
def highHalf (w : Word) : BitVec 16 := w.extractLsb' 16 16

/-- The word with the given halves. -/
def ofHalves (low high : BitVec 16) : Word := high ++ low

@[simp] theorem lowHalf_ofHalves (low high : BitVec 16) : lowHalf (ofHalves low high) = low := by
  refine BitVec.eq_of_getLsbD_eq fun i h => ?_
  simp only [lowHalf, ofHalves, BitVec.getLsbD_extractLsb', BitVec.getLsbD_append]
  simp [h]

@[simp] theorem highHalf_ofHalves (low high : BitVec 16) :
    highHalf (ofHalves low high) = high := by
  refine BitVec.eq_of_getLsbD_eq fun i h => ?_
  simp only [highHalf, ofHalves, BitVec.getLsbD_extractLsb', BitVec.getLsbD_append]
  simp [h]

@[simp] theorem length_toBytes (w : Word) : (toBytes w).length = 4 := rfl

theorem ofBytes_toBytes (w : Word) :
    ofBytes (byte w 0) (byte w 1) (byte w 2) (byte w 3) = w := by
  refine BitVec.eq_of_getLsbD_eq fun i h => ?_
  simp only [ofBytes, byte, BitVec.getLsbD_append, BitVec.getLsbD_extractLsb']
  split
  · simp [*]
  · split
    · rw [show 8 * 1 + (i - 8) = i by omega]; simp [*]
    · split
      · rw [show 8 * 2 + (i - 8 - 8) = i by omega]; simp [*]
      · rw [show 8 * 3 + (i - 8 - 8 - 8) = i by omega]
        have : i - 8 - 8 - 8 < 8 := by omega
        simp [*]

end Word

/-- The low `width` bits of `w` as a two's-complement number, spread over a whole word. -/
def signExtend (width : Nat) (w : Word) : Word :=
  (w <<< (32 - width)).sshiftRight (32 - width)

/-- The numbers that a signed field of `width` bits can hold. -/
def FitsSigned (width : Nat) (z : Int) : Prop :=
  -(twoPow (width - 1) : Int) ≤ z ∧ z ≤ (twoPow (width - 1) : Int) - 1

instance (width : Nat) (z : Int) : Decidable (FitsSigned width z) :=
  inferInstanceAs (Decidable (_ ∧ _))

end TileCore

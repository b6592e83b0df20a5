import TileCore.Machine.Alu
import TileCore.Proofs.Codec.Bits

/-!
# Arithmetic on words is arithmetic on integers

A word stands for a signed integer, and the results of the arithmetic unit are the integer results
brought back into the range of a word. This holds of the shifts too, which move the bits of the word
about: a left shift multiplies by a power of two, and the right shifts divide by one, the logical
shift after reading the word without a sign. The branch conditions look at the difference of two
registers without wrapping; they nevertheless agree with the comparison and the wrapping difference
of the arithmetic unit on every pair of words.

## Main results

* `toNat_shiftLeft`, `toNat_shiftRight`: the shifts of bits as operations on numbers.
* `AluOp.toInt_sll`, `AluOp.toInt_srl`, `AluOp.toInt_sra`: the shifts of the arithmetic unit.
* `Condition.holds_blt_iff`, `Condition.holds_beq_iff` and others: the conditions by the results of
  the arithmetic unit.
* `alu_agrees_with_arithmetic`: all of this together.
-/

namespace TileCore

theorem twoPow_add (m n : Nat) : twoPow (m + n) = twoPow m * twoPow n := Nat.pow_add 2 m n

/-! ### Signed and unsigned words -/

theorem toInt_emod_size (a : Word) : a.toInt % 0x100000000 = a.toNat := by
  have ha := a.isLt
  rw [BitVec.toInt_eq_toNat_cond]
  split <;> omega

/-- The places of a shift are the second operand by 32, also if that is negative. -/
theorem shiftAmount_eq (b : Word) : shiftAmount b = (b.toInt % 32).toNat := by
  have hb := toInt_emod_size b
  rw [shiftAmount]
  omega

theorem shiftAmount_lt (b : Word) : shiftAmount b < 32 := Nat.mod_lt _ (by decide)

/-! ### Shifts of bits -/

/-- Moving bits up multiplies, and what does not fit a word is lost. -/
theorem toNat_shiftLeft (a : Word) {n : Nat} (h : n ≤ 32) :
    (shiftLeft a n).toNat = a.toNat * twoPow n % 0x100000000 := by
  have hsize : 0x100000000 = twoPow n * twoPow (32 - n) := by
    rw [← twoPow_add, Nat.add_sub_cancel' h]
    rfl
  have hbits : BitSeq.value (List.replicate n false ++ (BitSeq.ofWord a).take (32 - n)) =
      twoPow n * (a.toNat % twoPow (32 - n)) := by
    have htake : 32 - n ≤ (BitSeq.ofWord a).length := by
      rw [BitSeq.length_ofWord]
      exact Nat.sub_le 32 n
    rw [BitSeq.value_append, BitSeq.value_replicate_false, List.length_replicate, Nat.zero_add,
      (BitSeq.value_take_and_drop htake).1, BitSeq.value_ofWord]
  rw [shiftLeft, BitSeq.toWord, hbits, BitVec.toNat_ofNat, ← Nat.mul_mod_mul_left, ← hsize,
    Nat.mul_comm, Nat.mod_mod]

/-- Moving bits down divides, and the remainder is lost. -/
theorem toNat_shiftRight (a : Word) {n : Nat} (h : n ≤ 32) :
    (shiftRight a n).toNat = a.toNat / twoPow n := by
  have hbits : BitSeq.value ((BitSeq.ofWord a).drop n ++ List.replicate n false) =
      a.toNat / twoPow n := by
    have hdrop : n ≤ (BitSeq.ofWord a).length := by rwa [BitSeq.length_ofWord]
    rw [BitSeq.value_append, BitSeq.value_replicate_false, Nat.mul_zero, Nat.add_zero,
      (BitSeq.value_take_and_drop hdrop).2, BitSeq.value_ofWord]
  have hfits : a.toNat / twoPow n < 2 ^ 32 := Nat.lt_of_le_of_lt (Nat.div_le_self _ _) a.isLt
  rw [shiftRight, BitSeq.toWord, hbits, BitVec.toNat_ofNat, Nat.mod_eq_of_lt hfits]

namespace AluOp

variable (a b : Word)

theorem toInt_sll :
    (sll.apply a b).toInt = (a.toInt * twoPow (shiftAmount b)).bmod 0x100000000 := by
  have hshift := toNat_shiftLeft a (Nat.le_of_lt (shiftAmount_lt b))
  calc (sll.apply a b).toInt
      = ((a.toNat * twoPow (shiftAmount b) % 0x100000000 : Nat) : Int).bmod 0x100000000 := by
        rw [apply, BitVec.toInt_eq_toNat_bmod, hshift]
    _ = ((a.toNat : Int) * twoPow (shiftAmount b)).bmod 0x100000000 := by
        rw [Int.natCast_emod, Int.natCast_mul, Int.emod_bmod]
    _ = ((a.toNat : Int).bmod 0x100000000 * twoPow (shiftAmount b)).bmod 0x100000000 :=
        Int.bmod_mul_bmod.symm
    _ = (a.toInt * twoPow (shiftAmount b)).bmod 0x100000000 := by
        rw [BitVec.toInt_eq_toNat_bmod a]

theorem toInt_srl :
    (srl.apply a b).toInt =
      (a.toInt % 0x100000000 / twoPow (shiftAmount b)).bmod 0x100000000 := by
  have hshift := toNat_shiftRight a (Nat.le_of_lt (shiftAmount_lt b))
  rw [apply, BitVec.toInt_eq_toNat_bmod, hshift, toInt_emod_size]
  rfl

theorem toInt_sra : (sra.apply a b).toInt = a.toInt / twoPow (shiftAmount b) := by
  rw [apply, BitVec.toInt_sshiftRight, Int.shiftRight_eq_div_pow]
  rfl

theorem slt_eq : slt.apply a b = if a.toInt < b.toInt then 1 else 0 := by
  rw [apply, BitVec.slt_eq_decide]
  simp only [decide_eq_true_eq]

theorem sltu_eq :
    sltu.apply a b = if a.toInt % 0x100000000 < b.toInt % 0x100000000 then 1 else 0 := by
  rw [apply, BitVec.ult_eq_decide, toInt_emod_size, toInt_emod_size]
  simp only [decide_eq_true_eq, Int.ofNat_lt]

theorem slt_eq_one_iff : slt.apply a b = 1 ↔ a.toInt < b.toInt := by
  rw [slt_eq]
  split_ifs with h <;> simp [h]

theorem slt_eq_zero_iff : slt.apply a b = 0 ↔ b.toInt ≤ a.toInt := by
  rw [slt_eq, ← Int.not_lt]
  split_ifs with h <;> simp [h]

theorem sub_eq_zero_iff : sub.apply a b = 0 ↔ a = b := by
  constructor
  · intro h
    have hsum : a - b + b = 0 + b := congrArg (· + b) h
    rw [BitVec.sub_add_cancel] at hsum
    exact hsum.trans (BitVec.zero_add b)
  · rintro rfl
    exact BitVec.sub_self a

end AluOp

/-! ### Conditions -/

namespace Condition

variable (a b : Word)

theorem holds_blt_iff : blt.holds (difference a b) = true ↔ AluOp.slt.apply a b = 1 := by
  rw [AluOp.slt_eq_one_iff, holds, decide_eq_true_eq, difference]
  omega

theorem holds_bge_iff : bge.holds (difference a b) = true ↔ AluOp.slt.apply a b = 0 := by
  rw [AluOp.slt_eq_zero_iff, holds, decide_eq_true_eq, difference]
  omega

theorem holds_beq_iff : beq.holds (difference a b) = true ↔ AluOp.sub.apply a b = 0 := by
  rw [AluOp.sub_eq_zero_iff, holds, beq_iff_eq, difference, ← BitVec.toInt_inj]
  omega

theorem holds_bne_iff : bne.holds (difference a b) = true ↔ AluOp.sub.apply a b ≠ 0 := by
  rw [Ne, ← holds_beq_iff, holds, holds, bne_iff_ne, beq_iff_eq]

end Condition

/-- The results of the arithmetic unit are the results on integers, brought back into the range of a
word: a left shift by the last five bits of the second operand is a product with a power of two, a
right shift is a quotient that is rounded down, of the unsigned or of the signed number, and the two
comparisons are the orders of the signed and of the unsigned numbers. A branch is taken exactly if
the arithmetic unit says so on the same two words. -/
theorem alu_agrees_with_arithmetic (a b : Word) :
    let n := (b.toInt % 32).toNat
    (AluOp.sll.apply a b).toInt = (a.toInt * twoPow n).bmod 0x100000000 ∧
      (AluOp.srl.apply a b).toInt = (a.toInt % 0x100000000 / twoPow n).bmod 0x100000000 ∧
      (AluOp.sra.apply a b).toInt = a.toInt / twoPow n ∧
      (AluOp.add.apply a b).toInt = (a.toInt + b.toInt).bmod 0x100000000 ∧
      (AluOp.sub.apply a b).toInt = (a.toInt - b.toInt).bmod 0x100000000 ∧
      (AluOp.mul.apply a b).toInt = (a.toInt * b.toInt).bmod 0x100000000 ∧
      AluOp.slt.apply a b = (if a.toInt < b.toInt then 1 else 0) ∧
      AluOp.sltu.apply a b =
        (if a.toInt % 0x100000000 < b.toInt % 0x100000000 then 1 else 0) ∧
      (Condition.blt.holds (difference a b) = true ↔ AluOp.slt.apply a b = 1) ∧
      (Condition.bge.holds (difference a b) = true ↔ AluOp.slt.apply a b = 0) ∧
      (Condition.beq.holds (difference a b) = true ↔ AluOp.sub.apply a b = 0) ∧
      (Condition.bne.holds (difference a b) = true ↔ AluOp.sub.apply a b ≠ 0) := by
  intro n
  have hn : shiftAmount b = n := shiftAmount_eq b
  rw [← hn]
  exact ⟨AluOp.toInt_sll a b, AluOp.toInt_srl a b, AluOp.toInt_sra a b, BitVec.toInt_add a b,
    BitVec.toInt_sub, BitVec.toInt_mul a b, AluOp.slt_eq a b, AluOp.sltu_eq a b,
    Condition.holds_blt_iff a b, Condition.holds_bge_iff a b, Condition.holds_beq_iff a b,
    Condition.holds_bne_iff a b⟩

end TileCore

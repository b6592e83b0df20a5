import Mathlib.Data.List.GetD
import Mathlib.Tactic.SplitIfs
import TileCore.BitSeq

/-!
# Bit sequences of bit vectors

The bits of a word, cut into slices and joined again, spell the bit vectors that the same cuts and
joins give. Reading a slice as a number is therefore reading a bit vector, unsigned or in two's
complement.

## Main definitions

* `BitSeq.ofBitVec`: a bit vector as its bits.

## Main results

* `BitSeq.ofWord_eq`: the bits of a word taken apart byte by byte are the bits of the word.
* `BitSeq.slice_ofBitVec`, `BitSeq.ofBitVec_append`: slices and joins of bits.
* `BitSeq.value_ofBitVec`, `BitSeq.signedValue_ofBitVec`: bits as numbers.
* `BitSeq.value_append`, `BitSeq.value_take_and_drop`, `BitSeq.signedValue_eq`: the same by
  arithmetic.
-/

namespace TileCore

namespace BitSeq

/-- The bits of a bit vector, the least significant first. -/
def ofBitVec {n : Nat} (v : BitVec n) : BitSeq := (List.range n).map v.getLsbD

@[simp] theorem length_ofBitVec {n : Nat} (v : BitVec n) : (ofBitVec v).length = n := by
  simp [ofBitVec]

theorem getElem_ofBitVec {n : Nat} (v : BitVec n) (i : Nat) (h : i < (ofBitVec v).length) :
    (ofBitVec v)[i] = v.getLsbD i := by
  simp [ofBitVec]

/-- Taking a word apart byte by byte, the last byte first, gives the bits of the word. -/
theorem ofWord_eq (w : Word) : ofWord w = ofBitVec w := by
  refine List.ext_getElem (by simp) fun i h _ => ?_
  have hi : i < 32 := by simpa using h
  have hbits : ofWord w = (List.range 8).map (Word.byte w 0).getLsbD ++
      (List.range 8).map (Word.byte w 1).getLsbD ++ (List.range 8).map (Word.byte w 2).getLsbD ++
      (List.range 8).map (Word.byte w 3).getLsbD := by
    simp [ofWord, ofBytes, ofBytesWidth, Word.toBytes]
  simp only [hbits, getElem_ofBitVec, List.getElem_append, List.getElem_map, List.getElem_range,
    List.length_append, List.length_map, List.length_range, Word.byte, BitVec.getLsbD_extractLsb']
  split_ifs with h₁ h₂ h₃
  · simp [h₃]
  · have : i - 8 < 8 := by omega
    simp [this, show 8 + (i - 8) = i by omega]
  · have : i - (8 + 8) < 8 := by omega
    simp [this, show 16 + (i - 16) = i by omega]
  · have : i - (8 + 8 + 8) < 8 := by omega
    simp [this, show 24 + (i - 24) = i by omega]

/-- The bits between two positions are the bits of the vector that is cut out there. -/
theorem slice_ofBitVec {n lo hi : Nat} (v : BitVec n) (h : hi < n) :
    (ofBitVec v).slice lo hi = ofBitVec (v.extractLsb' lo (hi + 1 - lo)) := by
  refine List.ext_getElem ?_ fun i hi₁ hi₂ => ?_
  · simp only [slice, List.length_take, List.length_drop, length_ofBitVec]
    omega
  · have hi : i < hi + 1 - lo := by simpa using hi₂
    simp [slice, getElem_ofBitVec, hi]

/-- Joining bits, the lower ones first, joins the vectors, the higher one first. -/
theorem ofBitVec_append {m n : Nat} (x : BitVec m) (y : BitVec n) :
    ofBitVec y ++ ofBitVec x = ofBitVec (x ++ y) := by
  refine List.ext_getElem (by simp [Nat.add_comm]) fun i hi₁ hi₂ => ?_
  simp only [List.getElem_append, getElem_ofBitVec, length_ofBitVec, BitVec.getLsbD_append]
  split_ifs <;> rfl

/-- A zero in front of the bits doubles the vector. -/
theorem false_cons_ofBitVec {n : Nat} (v : BitVec n) :
    false :: ofBitVec v = ofBitVec (v ++ 0#1) := by
  rw [← ofBitVec_append]
  rfl

theorem testBit_value (bits : BitSeq) (i : Nat) :
    (value bits).testBit i = bits.getD i false := by
  induction bits generalizing i with
  | nil => simp [value]
  | cons b bits ih =>
    cases i with
    | zero => cases b <;> simp [value, Nat.testBit_zero, Nat.add_mod]
    | succ i =>
      have hhalf : (b.toNat + 2 * value bits) / 2 = value bits := by
        have hb := Bool.toNat_le b
        omega
      rw [value, Nat.testBit_succ, hhalf, ih i, List.getD_cons_succ]

@[simp] theorem value_ofBitVec {n : Nat} (v : BitVec n) : value (ofBitVec v) = v.toNat := by
  refine Nat.eq_of_testBit_eq fun i => ?_
  rw [testBit_value, BitVec.testBit_toNat]
  by_cases h : i < n
  · rw [List.getD_eq_getElem _ _ (by simpa using h), getElem_ofBitVec]
  · rw [List.getD_eq_default _ _ (by simpa using h), BitVec.getLsbD_of_ge v i (by omega)]

/-- No bit is set exactly if the vector is zero. -/
theorem any_ofBitVec {n : Nat} (v : BitVec n) : (ofBitVec v).any id = false ↔ v = 0#n := by
  simp only [ofBitVec, List.any_map, List.any_eq_false, List.mem_range, Function.comp_apply, id_eq,
    Bool.not_eq_true]
  constructor
  · intro h
    exact BitVec.eq_of_getLsbD_eq fun i hi => by rw [h i hi, BitVec.getLsbD_zero]
  · rintro rfl i -
    exact BitVec.getLsbD_zero

theorem getLast?_ofBitVec {n : Nat} (v : BitVec n) :
    (ofBitVec v).getLast? = some true ↔ v.msb = true := by
  cases n with
  | zero => simp [ofBitVec, BitVec.eq_nil v]
  | succ n => simp [ofBitVec, List.range_succ, BitVec.msb_eq_getLsbD_last]

@[simp] theorem signedValue_ofBitVec {n : Nat} (v : BitVec n) :
    signedValue (ofBitVec v) = v.toInt := by
  simp only [signedValue, getLast?_ofBitVec, value_ofBitVec, length_ofBitVec,
    BitVec.toInt_eq_msb_cond]
  rfl

/-! ### Bits as numbers -/

/-- Bits behind others count from the place where they stand. -/
theorem value_append (low high : BitSeq) :
    value (low ++ high) = value low + twoPow low.length * value high := by
  induction low with
  | nil => simp [value]
  | cons b low ih =>
    rw [List.cons_append, value, value, ih, List.length_cons, twoPow_succ, Nat.mul_add,
      Nat.mul_assoc, Nat.add_assoc]

/-- The first bits are the remainder by a power of two, and the others are the quotient. -/
theorem value_take_and_drop {bits : BitSeq} {k : Nat} (h : k ≤ bits.length) :
    value (bits.take k) = value bits % twoPow k ∧ value (bits.drop k) = value bits / twoPow k := by
  have hlength : (bits.take k).length = k := by rw [List.length_take, Nat.min_eq_left h]
  have hlow := value_lt (bits.take k)
  have hsum := value_append (bits.take k) (bits.drop k)
  rw [List.take_append_drop] at hsum
  rw [hlength] at hlow hsum
  constructor
  · rw [hsum, Nat.add_mul_mod_self_left, Nat.mod_eq_of_lt hlow]
  · rw [hsum, Nat.add_mul_div_left _ _ (twoPow_pos k), Nat.div_eq_of_lt hlow, Nat.zero_add]

theorem value_replicate_false (n : Nat) : value (List.replicate n false) = 0 := by
  induction n with
  | zero => rfl
  | succ n ih => rw [List.replicate_succ, value, ih]; rfl

theorem value_ofWord (w : Word) : value (ofWord w) = w.toNat := by
  rw [ofWord_eq, value_ofBitVec]

theorem value_false_cons (bits : BitSeq) : value (false :: bits) = 2 * value bits :=
  Nat.zero_add _

/-- The number in two's complement is negative exactly if the unsigned one is in the upper half. -/
theorem signedValue_eq {bits : BitSeq} (h : bits ≠ []) :
    signedValue bits =
      if value bits < twoPow (bits.length - 1) then (value bits : Int)
      else (value bits : Int) - twoPow bits.length := by
  obtain ⟨low, top, rfl⟩ : ∃ low top, bits = low ++ [top] :=
    ⟨bits.dropLast, bits.getLast h, (List.dropLast_concat_getLast h).symm⟩
  have hlow := value_lt low
  have hvalue : value (low ++ [top]) = value low + twoPow low.length * top.toNat := by
    rw [value_append, value, value, Nat.mul_zero, Nat.add_zero]
  have hhalf : (low ++ [top]).length - 1 = low.length := by simp
  rw [signedValue, List.getLast?_append, List.getLast?_singleton, Option.some_or, hhalf, hvalue]
  cases top with
  | false =>
    rw [if_neg (by simp), if_pos (by simpa using hlow)]
  | true =>
    rw [if_pos rfl, if_neg (by simp)]

end BitSeq

end TileCore

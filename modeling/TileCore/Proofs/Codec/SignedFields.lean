import TileCore.Assembly.Operand
import TileCore.Proofs.Codec.Inverse

/-!
# Signed numbers in fields

Three definitions speak of signed numbers in the low bits of a word. The low bits of a word are
extended by shifting them up and back down, which is how the lower part of an address comes about,
the decoder reads the bits of the word in two's complement, and the encoder compares a number with
the two bounds of its field. All three are the same reading of the vector that is cut out of the
word: a number passes the check exactly if cutting it off at the width of its field and extending it
again gives it back, at every width up to that of a word.

## Main results

* `signExtend_eq`: shifting up and back down extends the vector that is cut out.
* `lowerPart_eq_toInt_signExtend`: the lower part of an address in these words.
* `BitSeq.take_ofWord`: the low bits of a word are the bits of this vector.
* `toInt_ofInt_eq_iff`: the numbers that fit are those that survive the cut.
* `BitSeq.toNat_field_ofWord`: an unsigned field by a shift and a remainder.
* `signed_fields_agree`: all of this together.
-/

namespace TileCore

/-- Moving the low bits of a word to its top and back down spreads their sign over the word. -/
theorem signExtend_eq {n : Nat} (hpos : 0 < n) (hn : n ≤ 32) (w : Word) :
    signExtend n w = (w.extractLsb' 0 n).signExtend 32 := by
  refine BitVec.eq_of_getLsbD_eq fun i hi => ?_
  rw [signExtend, BitVec.getLsbD_sshiftRight, BitVec.getLsbD_signExtend, BitVec.msb_shiftLeft,
    BitVec.msb_extractLsb']
  -- The bits below the width come back to their places; the others are copies of the top one.
  by_cases h : i < n
  · have hin : 32 - n + i < 32 := by omega
    simp [hi, h, hin, Nat.not_le.mpr hi]
  · have hout : ¬32 - n + i < 32 := by omega
    simp [hi, h, hout, Nat.not_le.mpr hi, hpos, hn]

theorem toInt_signExtend {n : Nat} (hpos : 0 < n) (hn : n ≤ 32) (w : Word) :
    (signExtend n w).toInt = (w.extractLsb' 0 n).toInt := by
  rw [signExtend_eq hpos hn, BitVec.toInt_signExtend_of_le hn]

/-- A number that has been cut off at the width of a word is cut off further. -/
theorem extractLsb'_ofInt {n : Nat} (hn : n ≤ 32) (z : Int) :
    (BitVec.ofInt 32 z).extractLsb' 0 n = BitVec.ofInt n z := by
  have hdvd : 2 ^ n ∣ 2 ^ 32 := Nat.pow_dvd_pow 2 hn
  refine BitVec.eq_of_toInt_eq ?_
  rw [← BitVec.setWidth_eq_extractLsb' hn, ← BitVec.signExtend_eq_setWidth_of_le _ hn,
    BitVec.toInt_signExtend, Nat.min_eq_left hn, BitVec.toInt_ofInt, BitVec.toInt_ofInt,
    Int.bmod_bmod_of_dvd hdvd]

/-- The lower part of an address extends its low twelve bits. -/
theorem lowerPart_eq_toInt_signExtend (z : Int) :
    lowerPart z = (signExtend 12 (BitVec.ofInt 32 z)).toInt := by
  rw [toInt_signExtend (by decide) (by decide), extractLsb'_ofInt (by decide), BitVec.toInt_ofInt]
  rfl

/-- The numbers that a field can hold are those that it gives back. -/
theorem toInt_ofInt_eq_iff {n : Nat} (hpos : 0 < n) (z : Int) :
    (BitVec.ofInt n z).toInt = z ↔ FitsSigned n z :=
  ⟨fun h => h ▸ fitsSigned_toInt _, toInt_ofInt_of_fitsSigned hpos⟩

namespace BitSeq

theorem take_ofWord {n : Nat} (hpos : 0 < n) (hn : n ≤ 32) (w : Word) :
    (ofWord w).take n = ofBitVec (w.extractLsb' 0 n) := by
  have hslice : (ofWord w).slice 0 (n - 1) = _ := Field.slice_ofWord w (by omega)
  rwa [slice, List.drop_zero, Nat.sub_zero, Nat.sub_add_cancel hpos] at hslice

theorem toNat_field_ofWord (w : Word) {lo hi : Nat} (hlo : lo ≤ hi) (hhi : hi < 32) :
    (field (ofWord w) lo hi).toNat = (w >>> lo).toNat % twoPow (hi - lo + 1) := by
  have hnumber := Field.number_ofWord w hlo hhi
  rw [Field.number, BitVec.extractLsb'_toNat, Nat.sub_add_comm hlo] at hnumber
  rw [hnumber, BitVec.toNat_ushiftRight]
  rfl

end BitSeq

/-- At every width up to that of a word, extending the low bits of a word by its shifts and reading
them in two's complement is the same, and a number passes the range check of the encoder exactly if
cutting it off and extending it gives it back. An unsigned field of a word is what is left of the
word by a shift and a remainder. -/
theorem signed_fields_agree :
    (∀ n, 0 < n → n ≤ 32 →
      (∀ v : Word, (signExtend n v).toInt = BitSeq.read true ((BitSeq.ofWord v).take n)) ∧
      ∀ z : Int, FitsSigned n z ↔ (signExtend n (BitVec.ofInt 32 z)).toInt = z) ∧
    ∀ (v : Word) (lo hi : Nat), lo ≤ hi → hi < 32 →
      ((BitSeq.ofWord v).field lo hi).toNat = (v >>> lo).toNat % twoPow (hi - lo + 1) := by
  refine ⟨fun n hpos hn => ⟨fun v => ?_, fun z => ?_⟩, fun v lo hi hlo hhi => ?_⟩
  · rw [toInt_signExtend hpos hn, BitSeq.take_ofWord hpos hn, BitSeq.read, if_pos rfl,
      BitSeq.signedValue_ofBitVec]
  · rw [toInt_signExtend hpos hn, extractLsb'_ofInt hn, toInt_ofInt_eq_iff hpos]
  · exact BitSeq.toNat_field_ofWord v hlo hhi

/-- The least number of twelve bits and the one below it, the least number of a whole word, and the
top field of a word. -/
theorem signed_fields_agree_at_bounds :
    (signExtend 12 0x800).toInt = BitSeq.read true ((BitSeq.ofWord 0x800).take 12) ∧
      (signExtend 12 (BitVec.ofInt 32 (-0x800))).toInt = -0x800 ∧
      (signExtend 12 (BitVec.ofInt 32 (-0x801))).toInt ≠ -0x801 ∧
      (signExtend 32 (BitVec.ofInt 32 (-0x80000000))).toInt = -0x80000000 ∧
      ((BitSeq.ofWord 0x20000093).field 20 31).toNat = 512 := by
  obtain ⟨hsigned, hfield⟩ := signed_fields_agree
  obtain ⟨hread, hfits⟩ := hsigned 12 (by decide) (by decide)
  refine ⟨hread 0x800, (hfits _).mp (by decide), mt (hfits _).mpr (by decide), ?_, ?_⟩
  · exact ((hsigned 32 (by decide) (by decide)).2 _).mp (by decide)
  · exact (hfield _ 20 31 (by decide) (by decide)).trans (by decide)

end TileCore

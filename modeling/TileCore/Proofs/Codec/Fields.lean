import Mathlib.Tactic.Tauto
import TileCore.Isa.Decoding
import TileCore.Isa.Encoding
import TileCore.Proofs.Codec.Bits

/-!
# The fields of an instruction word

A field is a stretch of the word, or several stretches joined. The decoder reads the fields off the
bits of the word, and the encoder writes words with given fields: a layout gives a word exactly if
its arguments are the fields of that word. Both sides thus speak of the same bit vectors.

## Main definitions

* `Word.opcode`, `Word.rd`, `Word.immB` and others: the fields as bit vectors.

## Main results

* `Field.rd_ofWord`, `Field.immB_ofWord` and others: what the decoder reads.
* `WordForm.r_eq_iff`, `WordForm.b_eq_iff` and others: which words a layout gives.
-/

namespace TileCore

namespace Word

/-- The low seven bits. -/
def opcode (w : Word) : BitVec 7 := w.extractLsb' 0 7

/-- The destination register. -/
def rd (w : Word) : BitVec 5 := w.extractLsb' 7 5

/-- The short function field. -/
def funct3 (w : Word) : BitVec 3 := w.extractLsb' 12 3

/-- The first source register. -/
def rs1 (w : Word) : BitVec 5 := w.extractLsb' 15 5

/-- The second source register. -/
def rs2 (w : Word) : BitVec 5 := w.extractLsb' 20 5

/-- The long function field. -/
def funct7 (w : Word) : BitVec 7 := w.extractLsb' 25 7

/-- The immediate of the immediate form. -/
def immI (w : Word) : BitVec 12 := w.extractLsb' 20 12

/-- The immediate of the store form. -/
def immS (w : Word) : BitVec 12 := w.extractLsb' 25 7 ++ w.extractLsb' 7 5

/-- The immediate of the branch form without its lowest bit. -/
def immB (w : Word) : BitVec 12 :=
  w.extractLsb' 31 1 ++ (w.extractLsb' 7 1 ++ (w.extractLsb' 25 6 ++ w.extractLsb' 8 4))

/-- The immediate of the upper-immediate form. -/
def immU (w : Word) : BitVec 20 := w.extractLsb' 12 20

/-- The immediate of the jump form without its lowest bit. -/
def immJ (w : Word) : BitVec 20 :=
  w.extractLsb' 31 1 ++ (w.extractLsb' 12 8 ++ (w.extractLsb' 20 1 ++ w.extractLsb' 21 10))

/-- The immediate of the tile memory form. -/
def immT (w : Word) : BitVec 11 := w.extractLsb' 7 11

/-- The tile register in the top four bits. -/
def tileRd (w : Word) : BitVec 4 := w.extractLsb' 28 4

/-- The first factor of a tile product. -/
def tileRa (w : Word) : BitVec 4 := w.extractLsb' 24 4

/-- The second factor of a tile product. -/
def tileRb (w : Word) : BitVec 4 := w.extractLsb' 20 4

/-- The summand of a tile product. -/
def tileRc (w : Word) : BitVec 4 := w.extractLsb' 16 4

/-- The reserved bits of a tile product. -/
def reserved (w : Word) : BitVec 9 := w.extractLsb' 7 9

/-- The base register of the tile memory form. -/
def tileBase (w : Word) : BitVec 5 := w.extractLsb' 23 5

/-- The pitch register of the tile memory form. -/
def tileStride (w : Word) : BitVec 5 := w.extractLsb' 18 5

end Word

/-! ### Reading fields -/

namespace Field

theorem number_ofWord (w : Word) {lo hi : Nat} (hlo : lo ≤ hi) (hhi : hi < 32) :
    number (BitSeq.ofWord w) lo hi = (w.extractLsb' lo (hi + 1 - lo)).toNat := by
  have hfits : (w.extractLsb' lo (hi + 1 - lo)).toNat < 2 ^ 32 :=
    Nat.lt_of_lt_of_le (BitVec.isLt _) (Nat.pow_le_pow_right (by decide) (by omega))
  rw [number, BitSeq.field, BitSeq.ofWord_eq, BitSeq.slice_ofBitVec w hhi, BitSeq.value_ofBitVec,
    BitVec.toNat_ofNat, Nat.mod_eq_of_lt hfits]

theorem slice_ofWord (w : Word) {lo hi : Nat} (hhi : hi < 32) :
    (BitSeq.ofWord w).slice lo hi = BitSeq.ofBitVec (w.extractLsb' lo (hi + 1 - lo)) := by
  rw [BitSeq.ofWord_eq, BitSeq.slice_ofBitVec w hhi]

@[simp] theorem opcode_ofWord (w : Word) : opcode (BitSeq.ofWord w) = w.opcode.toNat :=
  number_ofWord w (by decide) (by decide)

@[simp] theorem rd_ofWord (w : Word) : rd (BitSeq.ofWord w) = w.rd.toNat :=
  number_ofWord w (by decide) (by decide)

@[simp] theorem funct3_ofWord (w : Word) : funct3 (BitSeq.ofWord w) = w.funct3.toNat :=
  number_ofWord w (by decide) (by decide)

@[simp] theorem rs1_ofWord (w : Word) : rs1 (BitSeq.ofWord w) = w.rs1.toNat :=
  number_ofWord w (by decide) (by decide)

@[simp] theorem rs2_ofWord (w : Word) : rs2 (BitSeq.ofWord w) = w.rs2.toNat :=
  number_ofWord w (by decide) (by decide)

@[simp] theorem funct7_ofWord (w : Word) : funct7 (BitSeq.ofWord w) = w.funct7.toNat :=
  number_ofWord w (by decide) (by decide)

@[simp] theorem immU_ofWord (w : Word) : immU (BitSeq.ofWord w) = w.immU.toNat :=
  number_ofWord w (by decide) (by decide)

@[simp] theorem tileRd_ofWord (w : Word) :
    number (BitSeq.ofWord w) 28 31 = w.tileRd.toNat :=
  number_ofWord w (by decide) (by decide)

@[simp] theorem tileRa_ofWord (w : Word) :
    number (BitSeq.ofWord w) 24 27 = w.tileRa.toNat :=
  number_ofWord w (by decide) (by decide)

@[simp] theorem tileRb_ofWord (w : Word) :
    number (BitSeq.ofWord w) 20 23 = w.tileRb.toNat :=
  number_ofWord w (by decide) (by decide)

@[simp] theorem tileRc_ofWord (w : Word) :
    number (BitSeq.ofWord w) 16 19 = w.tileRc.toNat :=
  number_ofWord w (by decide) (by decide)

@[simp] theorem tileBase_ofWord (w : Word) :
    number (BitSeq.ofWord w) 23 27 = w.tileBase.toNat :=
  number_ofWord w (by decide) (by decide)

@[simp] theorem tileStride_ofWord (w : Word) :
    number (BitSeq.ofWord w) 18 22 = w.tileStride.toNat :=
  number_ofWord w (by decide) (by decide)

@[simp] theorem immI_ofWord (w : Word) : immI (BitSeq.ofWord w) = w.immI.toInt := by
  rw [immI, slice_ofWord w (by decide), BitSeq.signedValue_ofBitVec]
  rfl

@[simp] theorem immS_ofWord (w : Word) : immS (BitSeq.ofWord w) = w.immS.toInt := by
  rw [immS, slice_ofWord w (by decide), slice_ofWord w (by decide), BitSeq.ofBitVec_append,
    BitSeq.signedValue_ofBitVec]
  rfl

@[simp] theorem immB_ofWord (w : Word) : immB (BitSeq.ofWord w) = (w.immB ++ 0#1).toInt := by
  have hbits : (BitSeq.ofWord w).slice 8 11 ++ (BitSeq.ofWord w).slice 25 30 ++
      (BitSeq.ofWord w).slice 7 7 ++ (BitSeq.ofWord w).slice 31 31 = BitSeq.ofBitVec w.immB := by
    simp only [slice_ofWord, Nat.reduceLT, BitSeq.ofBitVec_append]
    rfl
  rw [immB, List.cons_append, List.cons_append, List.cons_append, hbits,
    BitSeq.false_cons_ofBitVec, BitSeq.signedValue_ofBitVec]

@[simp] theorem immJ_ofWord (w : Word) : immJ (BitSeq.ofWord w) = (w.immJ ++ 0#1).toInt := by
  have hbits : (BitSeq.ofWord w).slice 21 30 ++ (BitSeq.ofWord w).slice 20 20 ++
      (BitSeq.ofWord w).slice 12 19 ++ (BitSeq.ofWord w).slice 31 31 = BitSeq.ofBitVec w.immJ := by
    simp only [slice_ofWord, Nat.reduceLT, BitSeq.ofBitVec_append]
    rfl
  rw [immJ, List.cons_append, List.cons_append, List.cons_append, hbits,
    BitSeq.false_cons_ofBitVec, BitSeq.signedValue_ofBitVec]

@[simp] theorem immT_ofWord (w : Word) : immT (BitSeq.ofWord w) = w.immT.toInt := by
  rw [immT, slice_ofWord w (by decide), BitSeq.signedValue_ofBitVec]
  rfl

end Field

/-! ### Writing fields -/

/-- A joined vector is a given one if its parts are the parts of the given one. -/
theorem append_eq_iff {m n : Nat} (x : BitVec m) (y : BitVec n) (w : BitVec (m + n)) :
    @Eq (no_index (BitVec (m + n))) (x ++ y) w ↔
      x = w.extractLsb' n m ∧ y = w.extractLsb' 0 n := by
  constructor
  · rintro rfl
    exact ⟨BitVec.extractLsb'_append_eq_left.symm, BitVec.extractLsb'_append_eq_right.symm⟩
  · rintro ⟨rfl, rfl⟩
    exact BitVec.extractLsb'_append_extractLsb'

theorem extractLsb'_extractLsb' {n : Nat} (v : BitVec n) {a b c d : Nat} (h : c + d ≤ b) :
    (v.extractLsb' a b).extractLsb' c d = v.extractLsb' (a + c) d := by
  refine BitVec.eq_of_getLsbD_eq fun i hi => ?_
  have hb : c + i < b := by omega
  simp [hi, hb, Nat.add_assoc]

namespace WordForm

variable (rd rs1 rs2 : BitVec 5) (funct3 : BitVec 3) (o : Opcode) (w : Word)

theorem r_eq_iff (funct7 : BitVec 7) :
    r funct7 rs2 rs1 funct3 rd o = w ↔
      funct7 = w.funct7 ∧ rs2 = w.rs2 ∧ rs1 = w.rs1 ∧ funct3 = w.funct3 ∧ rd = w.rd ∧
        o.code = w.opcode := by
  simp (disch := decide) only [r, append_eq_iff, extractLsb'_extractLsb', and_assoc]
  rfl

theorem i_eq_iff (imm : BitVec 12) :
    i imm rs1 funct3 rd o = w ↔
      imm = w.immI ∧ rs1 = w.rs1 ∧ funct3 = w.funct3 ∧ rd = w.rd ∧ o.code = w.opcode := by
  simp (disch := decide) only [i, append_eq_iff, extractLsb'_extractLsb', and_assoc]
  rfl

theorem s_eq_iff (imm : BitVec 12) :
    s imm rs2 rs1 funct3 o = w ↔
      imm = w.immS ∧ rs2 = w.rs2 ∧ rs1 = w.rs1 ∧ funct3 = w.funct3 ∧ o.code = w.opcode := by
  have himm : imm = w.immS ↔
      imm.extractLsb' 5 7 = w.extractLsb' 25 7 ∧ imm.extractLsb' 0 5 = w.extractLsb' 7 5 := by
    rw [eq_comm, Word.immS, append_eq_iff]
    exact and_congr eq_comm eq_comm
  rw [himm]
  simp (disch := decide) only [s, append_eq_iff, extractLsb'_extractLsb']
  simp only [Nat.reduceAdd, Word.rs2, Word.rs1, Word.funct3, Word.opcode]
  tauto

theorem b_eq_iff (imm : BitVec 13) :
    b imm rs2 rs1 funct3 o = w ↔
      imm.extractLsb' 1 12 = w.immB ∧ rs2 = w.rs2 ∧ rs1 = w.rs1 ∧ funct3 = w.funct3 ∧
        o.code = w.opcode := by
  have himm : imm.extractLsb' 1 12 = w.immB ↔
      imm.extractLsb' 12 1 = w.extractLsb' 31 1 ∧ imm.extractLsb' 11 1 = w.extractLsb' 7 1 ∧
        imm.extractLsb' 5 6 = w.extractLsb' 25 6 ∧ imm.extractLsb' 1 4 = w.extractLsb' 8 4 := by
    rw [eq_comm, Word.immB]
    simp (disch := decide) only [append_eq_iff, extractLsb'_extractLsb']
    simp only [Nat.reduceAdd, eq_comm]
  rw [himm]
  simp (disch := decide) only [b, append_eq_iff, extractLsb'_extractLsb']
  simp only [Nat.reduceAdd, Word.rs2, Word.rs1, Word.funct3, Word.opcode]
  tauto

theorem u_eq_iff (imm : BitVec 20) :
    u imm rd o = w ↔ imm = w.immU ∧ rd = w.rd ∧ o.code = w.opcode := by
  simp (disch := decide) only [u, append_eq_iff, extractLsb'_extractLsb', and_assoc]
  rfl

theorem j_eq_iff (imm : BitVec 21) :
    j imm rd o = w ↔ imm.extractLsb' 1 20 = w.immJ ∧ rd = w.rd ∧ o.code = w.opcode := by
  have himm : imm.extractLsb' 1 20 = w.immJ ↔
      imm.extractLsb' 20 1 = w.extractLsb' 31 1 ∧ imm.extractLsb' 12 8 = w.extractLsb' 12 8 ∧
        imm.extractLsb' 11 1 = w.extractLsb' 20 1 ∧
        imm.extractLsb' 1 10 = w.extractLsb' 21 10 := by
    rw [eq_comm, Word.immJ]
    simp (disch := decide) only [append_eq_iff, extractLsb'_extractLsb']
    simp only [Nat.reduceAdd, eq_comm]
  rw [himm]
  simp (disch := decide) only [j, append_eq_iff, extractLsb'_extractLsb']
  simp only [Nat.reduceAdd, Word.rd, Word.opcode]
  tauto

theorem gemm_eq_iff (td ta tb tc : BitVec 4) :
    gemm td ta tb tc o = w ↔
      td = w.tileRd ∧ ta = w.tileRa ∧ tb = w.tileRb ∧ tc = w.tileRc ∧ 0#9 = w.reserved ∧
        o.code = w.opcode := by
  simp (disch := decide) only [gemm, append_eq_iff, extractLsb'_extractLsb', and_assoc]
  rfl

theorem tile_eq_iff (td : BitVec 4) (base stride : BitVec 5) (imm : BitVec 11) :
    tile td base stride imm o = w ↔
      td = w.tileRd ∧ base = w.tileBase ∧ stride = w.tileStride ∧ imm = w.immT ∧
        o.code = w.opcode := by
  simp (disch := decide) only [tile, append_eq_iff, extractLsb'_extractLsb', and_assoc]
  rfl

end WordForm

end TileCore

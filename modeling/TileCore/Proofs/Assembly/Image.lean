import TileCore.Machine.Core
import TileCore.Proofs.Assembly.Placement
import TileCore.Proofs.Machine.ByteLayout

/-!
# Programs in memory

The image of a program starts with its code. If there are data, the code is brought to the length at
which they start, and a longer code would lose its end. The first pass prevents this: it refuses an
instruction in the place of the data, and since instructions stand one behind the other from address
zero on, no instruction in that place means that all of the code is in front of it. So a memory that
is made from the image holds every word of the code, every byte of the data, and zeros elsewhere.

## Main results

* `Program.getD_image`: the byte of an image at an address, if its code is in front of its data.
* `Program.word_of_code`, `Program.byte_of_data`, `Program.byte_eq_zero`: what stands in a memory
  that is made from such an image.
* `Assembled.code_le_dataStart`: the code of an assembled program is in front of its data.
* `image_in_memory`: what stands in the memory of a core that is made from an assembled program.
-/

namespace TileCore

/-! ### The bytes of words -/

theorem length_wordsToBytes (words : List Word) :
    (wordsToBytes words).length = 4 * words.length := by
  induction words with
  | nil => rfl
  | cons w words ih =>
    rw [wordsToBytes, List.flatMap_cons, List.length_append, Word.length_toBytes, List.length_cons]
    rw [wordsToBytes] at ih
    omega

theorem getD_wordsToBytes {words : List Word} {k i : Nat} (hk : k < words.length) (hi : i < 4) :
    (wordsToBytes words).getD (4 * k + i) 0 = Word.byte words[k] i := by
  rw [wordsToBytes, List.getD_eq_getElem?_getD,
    getElem?_flatMap_of_length Word.length_toBytes words k hi, List.getElem?_eq_getElem hk,
    Option.bind_some, Word.getElem?_toBytes _ hi, Option.getD_some]

/-! ### The bytes of an image -/

theorem Program.length_image {p : Program} (h : p.data ≠ [] → 4 * p.code.length ≤ p.dataBase) :
    p.image.length =
      if p.data = [] then 4 * p.code.length else p.dataBase + p.data.length := by
  have hlength := length_wordsToBytes p.code
  rw [image]
  split_ifs with hdata
  · exact hlength
  · have hfit := h hdata
    rw [List.length_append, List.length_append, List.length_take, List.length_replicate]
    omega

/-- The byte of an image at an address, if its code is in front of its data. -/
theorem Program.getD_image {p : Program} (h : p.data ≠ [] → 4 * p.code.length ≤ p.dataBase)
    (a : Nat) :
    p.image.getD a 0 =
      if a < 4 * p.code.length then (wordsToBytes p.code).getD a 0
      else if p.dataBase ≤ a then p.data.getD (a - p.dataBase) 0 else 0 := by
  have hlength := length_wordsToBytes p.code
  rw [image]
  by_cases hdata : p.data = []
  · rw [if_pos hdata]
    split_ifs with hcode
    · rfl
    · rw [List.getD_eq_default _ _ (by omega), hdata]
      rfl
    · exact List.getD_eq_default _ _ (by omega)
  · have hfit := h hdata
    rw [if_neg hdata, List.take_of_length_le (by omega), List.append_assoc]
    split_ifs with hcode hbase
    · exact List.getD_append _ _ _ _ (by omega)
    · rw [List.getD_append_right _ _ _ _ (by omega),
        List.getD_append_right _ _ _ _ (by simp; omega), List.length_replicate, hlength]
      congr 1
      omega
    · rw [List.getD_append_right _ _ _ _ (by omega), List.getD_append _ _ _ _ (by simp; omega),
        List.getD_replicate _ (by omega)]

/-! ### A memory with an image -/

section Memory

variable {p : Program} (h : p.data ≠ [] → 4 * p.code.length ≤ p.dataBase) (n : Nat)

include h

/-- Every word of the code is in memory, one behind the other from address zero on. -/
theorem Program.word_of_code {k : Nat} (hk : k < p.code.length) :
    4 * k + 4 ≤ (Memory.ofImage p.image n).size ∧
      (Memory.ofImage p.image n).word (4 * k) = p.code[k] := by
  have hbyte : ∀ i, i < 4 →
      (Memory.ofImage p.image n).byte (4 * k + i) = Word.byte p.code[k] i := fun i hi => by
    rw [Memory.byte_ofImage, getD_image h, if_pos (by omega), getD_wordsToBytes hk hi]
  constructor
  · rw [Memory.size_ofImage, length_image h]
    split_ifs with hdata
    · omega
    · have hfit := h hdata
      omega
  · have hlow := hbyte 0 (by decide)
    rw [Nat.add_zero] at hlow
    rw [Memory.word, hlow, hbyte 1 (by decide), hbyte 2 (by decide), hbyte 3 (by decide),
      Word.ofBytes_toBytes]

/-- Every byte of the data is in memory, one behind the other from the place of the data on. -/
theorem Program.byte_of_data {j : Nat} (hj : j < p.data.length) :
    p.dataBase + j < (Memory.ofImage p.image n).size ∧
      (Memory.ofImage p.image n).byte (p.dataBase + j) = p.data[j] := by
  have hdata : p.data ≠ [] := List.ne_nil_of_length_pos (Nat.zero_lt_of_lt hj)
  have hfit := h hdata
  constructor
  · rw [Memory.size_ofImage, length_image h, if_neg hdata]
    omega
  · rw [Memory.byte_ofImage, getD_image h, if_neg (by omega), if_pos (Nat.le_add_right _ _),
      Nat.add_sub_cancel_left, List.getD_eq_getElem _ _ hj]

/-- Four bytes of the data that are those of a word are this word in memory. -/
theorem Program.word_of_data {j : Nat} {w : Word}
    (hw : ∀ i < 4, p.data[j + i]? = some (Word.byte w i)) :
    p.dataBase + j + 4 ≤ (Memory.ofImage p.image n).size ∧
      (Memory.ofImage p.image n).word (p.dataBase + j) = w := by
  have hbyte : ∀ i < 4, p.dataBase + j + i < (Memory.ofImage p.image n).size ∧
      (Memory.ofImage p.image n).byte (p.dataBase + j + i) = Word.byte w i := fun i hi => by
    obtain ⟨hlt, heq⟩ := List.getElem?_eq_some_iff.mp (hw i hi)
    rw [Nat.add_assoc, ← heq]
    exact byte_of_data h n hlt
  refine ⟨(hbyte 3 (by decide)).1, ?_⟩
  have hlow := (hbyte 0 (by decide)).2
  rw [Nat.add_zero] at hlow
  rw [Memory.word, hlow, (hbyte 1 (by decide)).2, (hbyte 2 (by decide)).2,
    (hbyte 3 (by decide)).2, Word.ofBytes_toBytes]

/-- Memory is zero behind the code, in front of the data and behind them. -/
theorem Program.byte_eq_zero {a : Nat} (hcode : 4 * p.code.length ≤ a)
    (hdata : a < p.dataBase ∨ p.dataBase + p.data.length ≤ a) :
    (Memory.ofImage p.image n).byte a = 0 := by
  rw [Memory.byte_ofImage, getD_image h, if_neg (Nat.not_lt.mpr hcode)]
  split_ifs with hbase
  · exact List.getD_eq_default _ _ (by omega)
  · rfl

end Memory

/-! ### Assembled programs -/

/-- The code of an assembled program is in front of its data. -/
theorem Assembled.code_le_dataStart {source : Text} {l : Layout} {p : Program}
    (h : Assembled source l p) (hdata : p.data ≠ []) : 4 * p.code.length ≤ dataStart := by
  have hover := (Layout.ofLines_eq_ok_iff.mp h.layout).2
  have hsize : l.data.size ≠ 0 := by
    rw [h.size_data]
    exact fun hzero => hdata (List.length_eq_zero_iff.mp hzero)
  rw [Layout.overflow?, if_neg hsize, Array.find?_eq_none] at hover
  -- Longer code has an instruction in the place of the data, which the first pass has refused.
  by_contra hlong
  have hplace : dataStart / 4 < l.items.size := by
    rw [h.size_items]
    rw [dataStart] at hlong ⊢
    omega
  have haddress := Layout.Consecutive.of_placeAll Layout.consecutive_empty h.placeAll
    (dataStart / 4) l.items[dataStart / 4] (by simp [hplace])
  refine hover _ (Array.getElem_mem hplace) ?_
  rw [haddress]
  rfl

/-- A core that is made from the image of an assembled program has a memory with the words of the
code one behind the other from address zero on, the bytes of the data one behind the other from the
start of the data on, and zeros elsewhere; and if there are data, the code ends in front of them. -/
theorem image_in_memory {source : Text} {p : Program} (h : assemble source = .ok p)
    (control : Control) (size : Nat) :
    let m := (Core.ofImage p.image control size).machine.memory
    (∀ k (hk : k < p.code.length), 4 * k + 4 ≤ m.size ∧ m.word (4 * k) = p.code[k]) ∧
      (∀ j (hj : j < p.data.length),
        dataStart + j < m.size ∧ m.byte (dataStart + j) = p.data[j]) ∧
      (∀ a, 4 * p.code.length ≤ a → (a < dataStart ∨ dataStart + p.data.length ≤ a) →
        m.byte a = 0) ∧
      (p.data ≠ [] → 4 * p.code.length ≤ dataStart) := by
  obtain ⟨l, hl⟩ := assemble_eq_ok_iff.mp h
  have hfront := hl.code_le_dataStart
  rw [← hl.dataBase] at hfront ⊢
  exact ⟨fun k hk => Program.word_of_code hfront size hk,
    fun j hj => Program.byte_of_data hfront size hj,
    fun a hcode hdata => Program.byte_eq_zero hfront size hcode hdata, hfront⟩

/-- Code on both sides of data. -/
def splitSource : Text :=
  "addi x1, x0, 7\n.data\nvalue: .half 7, -2\n.text\nhalt".toList

/-- The program with this code and these data. -/
def splitProgram : Program where
  code := [0x00700093, 0xFFFFFFFF]
  data := [0x07, 0x00, 0xFE, 0xFF]
  dataBase := 0x200

theorem image_in_memory_of_split_code :
    assemble splitSource = .ok splitProgram ∧
      let m := (Core.ofImage splitProgram.image Control.default 0x208).machine.memory
      (4 * 1 + 4 ≤ m.size ∧ m.word (4 * 1) = haltWord) ∧
        (0x200 + 2 < m.size ∧ m.byte (0x200 + 2) = 0xFE) ∧ m.byte 0x1FF = 0 ∧ m.byte 0x204 = 0 := by
  have hp : assemble splitSource = .ok splitProgram := by decide +kernel
  obtain ⟨hcode, hdata, hzero, -⟩ := image_in_memory hp Control.default 0x208
  exact ⟨hp, hcode 1 (by decide), hdata 2 (by decide), hzero 0x1FF (by decide) (by decide),
    hzero 0x204 (by decide) (by decide)⟩

end TileCore

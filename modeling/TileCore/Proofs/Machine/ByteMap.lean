import Mathlib.Data.List.Induction
import TileCore.Proofs.Machine.Accesses

/-!
# Memory as a map of bytes

Whatever has been stored before, words and single bytes one over the other, a memory is known by two
things: its number of bytes, which decides all that fails, and what each byte was last given. A
store that fails gives nothing to any byte. One store changes the bytes that it reaches, and the map
behind a row of stores follows by taking the stores one at a time, the last one first.

## Main definitions

* `Memory.Store`: a store of a word or of a byte, with `Memory.perform` and `Memory.storeAll`.
* `Memory.Store.Reaches`, `Memory.Store.byteAt?`: which stores succeed, and what they give to a
  byte.
* `Memory.lastByte?`: what a row of stores has last given to a byte.
* `Memory.BehavesAs`: accesses go by a number of bytes and by a map of them.

## Main results

* `Memory.byte_perform`: the bytes behind one store.
* `Memory.byte_storeAll`: the bytes behind a row of stores.
* `memory_is_byte_map`: a memory that was zero behaves as the map of the bytes given to it.
-/

namespace TileCore

namespace Word

theorem toNat_append_byte {k : Nat} (x : BitVec k) (b : Byte) :
    (x ++ b).toNat = b.toNat + 0x100 * x.toNat := by
  rw [BitVec.toNat_append, ← Nat.shiftLeft_add_eq_or_of_lt b.isLt, Nat.shiftLeft_eq]
  omega

/-- A word as a number has its bytes for digits, the first one last. -/
theorem toNat_ofBytes (b₀ b₁ b₂ b₃ : Byte) :
    (ofBytes b₀ b₁ b₂ b₃).toNat =
      b₀.toNat + 0x100 * b₁.toNat + 0x10000 * b₂.toNat + 0x1000000 * b₃.toNat := by
  rw [ofBytes, toNat_append_byte, toNat_append_byte, toNat_append_byte]
  omega

end Word

namespace Memory

/-! ### Stores -/

/-- A store of a word or of a single byte. -/
inductive Store
  /-- The word `w` at the address `addr`. -/
  | word (addr w : Word)
  /-- The byte `b` at the address `addr`. -/
  | byte (addr : Word) (b : Byte)
  deriving DecidableEq

namespace Store

/-- The store succeeds in a memory of `n` bytes: it stays in front of the end, and the address of a
word is a multiple of four. -/
def Reaches (n : Nat) : Store → Prop
  | word addr _ => addr.toNat % 4 = 0 ∧ addr.toNat + 4 ≤ n
  | byte addr _ => addr.toNat < n

instance (n : Nat) : DecidablePred (Reaches n)
  | word _ _ => inferInstanceAs (Decidable (_ ∧ _))
  | byte _ _ => inferInstanceAs (Decidable (_ < _))

/-- What the store gives to the byte at an address, if it is one of its bytes. The first byte of a
word is the least significant one. -/
def byteAt? (a : Nat) : Store → Option Byte
  | word addr w =>
    if addr.toNat ≤ a ∧ a < addr.toNat + 4 then some (Word.byte w (a - addr.toNat)) else none
  | byte addr b => if a = addr.toNat then some b else none

end Store

/-- The memory behind a store, and whether the store has failed. -/
def perform (m : Memory) : Store → Memory × Except Fault Unit
  | .word addr w => m.storeWord addr w
  | .byte addr b => m.storeByte addr b

/-- The memory behind a row of stores, of which some may have failed. -/
def storeAll (m : Memory) (stores : List Store) : Memory :=
  stores.foldl (fun m s => (m.perform s).1) m

/-- What a row of stores to a memory of `n` bytes has last given to the byte at an address. -/
def lastByte? (n : Nat) (stores : List Store) (a : Nat) : Option Byte :=
  (stores.filter (Store.Reaches n ·)).reverse.findSome? (Store.byteAt? a)

variable {m : Memory} {s : Store} {stores : List Store} {a n : Nat} {fault : Fault}

/-! ### One store -/

theorem size_perform (m : Memory) (s : Store) : (m.perform s).1.size = m.size := by
  cases s with
  | word addr w => exact size_storeWord m addr w
  | byte addr b => exact size_storeByte m addr b

/-- A store that fails changes nothing. -/
theorem perform_eq_error {m' : Memory} (h : m.perform s = (m', .error fault)) :
    m' = m ∧ ¬s.Reaches m.size := by
  cases s with
  | word addr w =>
    obtain ⟨hcheck, rfl⟩ := storeWord_eq_error_iff.mp h
    refine ⟨rfl, fun hreach => ?_⟩
    cases hcheck.symm.trans (checkWord_eq_ok_iff.mpr hreach)
  | byte addr b =>
    obtain ⟨hend, -, rfl⟩ := storeByte_eq_error_iff.mp h
    exact ⟨rfl, Nat.not_lt.mpr hend⟩

/-- A store that succeeds gives its bytes to the memory and leaves the others. -/
theorem perform_eq_ok {m' : Memory} (h : m.perform s = (m', .ok ())) :
    s.Reaches m.size ∧ ∀ a, m'.byte a = (s.byteAt? a).getD (m.byte a) := by
  cases s with
  | word addr w =>
    obtain ⟨hcheck, rfl⟩ := storeWord_eq_ok_iff.mp h
    have hreach := checkWord_eq_ok_iff.mp hcheck
    refine ⟨hreach, fun a => ?_⟩
    rw [Store.byteAt?]
    split_ifs with hin
    · obtain ⟨k, rfl⟩ := Nat.exists_eq_add_of_le hin.1
      rw [byte_setWord_add w hreach.2 (by omega), Nat.add_sub_cancel_left, Option.getD_some]
    · exact byte_setWord_of_outside m w (by omega)
  | byte addr b =>
    obtain ⟨hend, rfl⟩ := storeByte_eq_ok_iff.mp h
    refine ⟨hend, fun a => ?_⟩
    rw [Store.byteAt?, byte_setByte]
    split_ifs <;> first | rfl | omega

/-- What a store leaves at an address: the byte that it gives to it, or else what stood there. -/
theorem byte_perform (m : Memory) (s : Store) (a : Nat) :
    (m.perform s).1.byte a = (lastByte? m.size [s] a).getD (m.byte a) := by
  rw [lastByte?]
  rcases hperform : m.perform s with ⟨m', fault | _⟩
  · obtain ⟨rfl, hreach⟩ := perform_eq_error hperform
    rw [List.filter_cons_of_neg (by simpa using hreach)]
    rfl
  · obtain ⟨hreach, hbyte⟩ := perform_eq_ok hperform
    rw [List.filter_cons_of_pos (by simpa using hreach), hbyte]
    simp

/-! ### Rows of stores -/

theorem storeAll_append_singleton (m : Memory) (stores : List Store) (s : Store) :
    m.storeAll (stores ++ [s]) = ((m.storeAll stores).perform s).1 := by
  rw [storeAll, List.foldl_append]
  rfl

theorem size_storeAll (m : Memory) (stores : List Store) :
    (m.storeAll stores).size = m.size := by
  induction stores using List.reverseRecOn with
  | nil => rfl
  | append_singleton stores s ih => rw [storeAll_append_singleton, size_perform, ih]

/-- The last of two rows that gives something to a byte is the one that counts. -/
theorem lastByte?_append (n : Nat) (stores more : List Store) (a : Nat) :
    lastByte? n (stores ++ more) a = (lastByte? n more a).or (lastByte? n stores a) := by
  rw [lastByte?, List.filter_append, List.reverse_append, List.findSome?_append]
  rfl

/-- A row of stores leaves at an address what the row has last given to it, or else what stood
there. -/
theorem byte_storeAll (m : Memory) (stores : List Store) (a : Nat) :
    (m.storeAll stores).byte a = (lastByte? m.size stores a).getD (m.byte a) := by
  induction stores using List.reverseRecOn with
  | nil => rfl
  | append_singleton stores s ih =>
    rw [storeAll_append_singleton, byte_perform, size_storeAll, ih, lastByte?_append]
    cases lastByte? m.size [s] a <;> rfl

/-! ### Accesses by the map -/

/-- All accesses go by the number of bytes and by a map of the bytes. -/
structure BehavesAs (m : Memory) (n : Nat) (content : Nat → Byte) : Prop where
  /-- The address of a word is looked at first: if it is no multiple of four, it does not count that
  the word may also go beyond the end. -/
  storeWord_error : ∀ addr w fault, (m.storeWord addr w).2 = .error fault ↔
    addr.toNat % 4 ≠ 0 ∧ fault = .misaligned addr ∨
      addr.toNat % 4 = 0 ∧ n < addr.toNat + 4 ∧ fault = .outOfBounds addr 4
  /-- A byte can be stored anywhere in front of the end. -/
  storeByte_error : ∀ addr b fault, (m.storeByte addr b).2 = .error fault ↔
    n ≤ addr.toNat ∧ fault = .outOfBounds addr 1
  /-- A store that fails changes nothing. -/
  unchanged : ∀ s fault, (m.perform s).2 = .error fault → (m.perform s).1 = m
  /-- A word can be loaded from where a word can be stored. -/
  loadWord_error : ∀ addr w fault,
    m.loadWord addr = .error fault ↔ (m.storeWord addr w).2 = .error fault
  /-- Any other load gives the bytes of the map, the first one as the least significant. -/
  loadWord_ok : ∀ addr, addr.toNat % 4 = 0 → addr.toNat + 4 ≤ n →
    ∃ w, m.loadWord addr = .ok w ∧
      w.toNat = (content addr.toNat).toNat + 0x100 * (content (addr.toNat + 1)).toNat +
        0x10000 * (content (addr.toNat + 2)).toNat + 0x1000000 * (content (addr.toNat + 3)).toNat

/-- Every memory behaves as the map of its bytes. -/
theorem behavesAs_byte (m : Memory) : m.BehavesAs m.size m.byte where
  storeWord_error addr w fault := by rw [storeWord_snd, checkWord_eq_error_iff]
  storeByte_error addr b fault := by
    rcases hstore : m.storeByte addr b with ⟨m', fault' | _⟩
    · obtain ⟨hend, rfl, rfl⟩ := storeByte_eq_error_iff.mp hstore
      simp [hend, eq_comm]
    · obtain ⟨hin, -⟩ := storeByte_eq_ok_iff.mp hstore
      simp [Nat.not_le.mpr hin]
  unchanged s fault h := (perform_eq_error (Prod.ext rfl h)).1
  loadWord_error addr w fault := by rw [loadWord_eq_error_iff, storeWord_snd]
  loadWord_ok addr haligned hend :=
    ⟨m.word addr.toNat, loadWord_eq_ok_iff.mpr ⟨checkWord_eq_ok_iff.mpr ⟨haligned, hend⟩, rfl⟩,
      Word.toNat_ofBytes _ _ _ _⟩

end Memory

/-- Behind any row of stores, of words and of bytes, at any addresses, a memory that was zero
behaves as the map of what the stores that succeeded have last given to each byte. -/
theorem memory_is_byte_map (n : Nat) (stores : List Memory.Store) :
    ((Memory.zeros n).storeAll stores).BehavesAs n fun a =>
      (Memory.lastByte? n stores a).getD 0 := by
  have hsize : ((Memory.zeros n).storeAll stores).size = n := by
    rw [Memory.size_storeAll, Memory.size_zeros]
  have hbyte : ((Memory.zeros n).storeAll stores).byte = fun a =>
      (Memory.lastByte? n stores a).getD 0 := by
    funext a
    rw [Memory.byte_storeAll, Memory.size_zeros, Memory.byte_zeros]
  have hbehaves := ((Memory.zeros n).storeAll stores).behavesAs_byte
  rwa [hsize, hbyte] at hbehaves

/-- A word, a byte in the middle of it, and three stores that fail, one of them for its address
although the word also goes beyond the end. -/
theorem memory_is_byte_map_of_overlaps :
    ((Memory.zeros 8).storeAll [.word 0 0x01020304, .byte 2 0xFF, .word 1 0, .byte 8 1,
        .word 0xFFFFFFFC 2]).loadWord 0 = .ok 0x01FF0304 ∧
      (((Memory.zeros 8).storeAll [.byte 3 7]).storeWord 0xFFFFFFFE 5).2 =
        .error (.misaligned 0xFFFFFFFE) := by
  obtain ⟨w, hload, hw⟩ := (memory_is_byte_map 8 [.word 0 0x01020304, .byte 2 0xFF, .word 1 0,
    .byte 8 1, .word 0xFFFFFFFC 2]).loadWord_ok 0 (by decide) (by decide)
  have hvalue : w = 0x01FF0304 := BitVec.eq_of_toNat_eq (hw.trans (by decide))
  refine ⟨hvalue ▸ hload, ?_⟩
  exact ((memory_is_byte_map 8 [.byte 3 7]).storeWord_error _ _ _).mpr (.inl ⟨by decide, rfl⟩)

end TileCore

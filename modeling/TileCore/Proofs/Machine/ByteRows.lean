import TileCore.Proofs.Machine.Accesses

/-!
# Rows of bytes

Bytes are stored one after the other until one has no place. As long as the end of the memory is
itself an address that a word can name, the address that counts up comes to it before it could start
over at zero: a row of bytes fails at the end, or where it starts if that lies further on, and what
has been stored by then is the part of the row in front of the end.

## Main results

* `Memory.storeBytes_cons`: the first byte of a row.
* `Memory.storeBytes_snd`: which rows have a place, and where the others fail.
* `Memory.byte_storeBytes`: the bytes behind a row, also behind one that has failed.
* `stored_rows_of_bytes`: both together.
-/

namespace TileCore

namespace Memory

variable {m : Memory} {addr : Word}

/-- In front of the end, the next address is the next number. -/
theorem toNat_add_one (hsize : m.size < 0x100000000) (h : addr.toNat < m.size) :
    (addr + 1).toNat = addr.toNat + 1 := by
  rw [BitVec.toNat_add]
  exact Nat.mod_eq_of_lt (Nat.lt_of_le_of_lt (Nat.succ_le_of_lt h) hsize)

/-- A row goes on behind its first byte if this one has a place, and else it ends there. -/
theorem storeBytes_cons (m : Memory) (addr : Word) (b : Byte) (bytes : List Byte) :
    m.storeBytes addr (b :: bytes) =
      if addr.toNat < m.size then (m.setByte addr.toNat b).storeBytes (addr + 1) bytes
      else (m, .error (.outOfBounds addr 1)) := by
  rw [storeBytes]
  split_ifs with h
  · rw [storeByte_eq_ok_iff.mpr ⟨h, rfl⟩]
  · rw [storeByte_eq_error_iff.mpr ⟨Nat.le_of_not_lt h, rfl, rfl⟩]

/-- Only the place of a row decides whether it fails, and the address of the failure is the first
one of the row behind the memory. -/
theorem storeBytes_snd (hsize : m.size < 0x100000000) (addr : Word) (bytes : List Byte) :
    (m.storeBytes addr bytes).2 =
      if bytes = [] ∨ addr.toNat + bytes.length ≤ m.size then .ok ()
      else .error (.outOfBounds (BitVec.ofNat 32 (max addr.toNat m.size)) 1) := by
  induction bytes generalizing m addr with
  | nil => rw [if_pos (.inl rfl), storeBytes]
  | cons b bytes ih =>
    rw [storeBytes_cons, List.length_cons]
    by_cases hplace : addr.toNat < m.size
    · have hmax : max (addr.toNat + 1) m.size = max addr.toNat m.size := by omega
      have hfits : bytes = [] ∨ addr.toNat + 1 + bytes.length ≤ m.size ↔
          b :: bytes = [] ∨ addr.toNat + (bytes.length + 1) ≤ m.size := by
        rw [← List.length_eq_zero_iff]
        simp only [reduceCtorEq, false_or]
        omega
      rw [if_pos hplace, ih (by rwa [size_setByte]), size_setByte, toNat_add_one hsize hplace, hmax]
      simp only [hfits]
    · have hend : m.size ≤ addr.toNat := Nat.le_of_not_lt hplace
      rw [if_neg hplace, if_neg (by simp; omega), Nat.max_eq_left hend, BitVec.ofNat_toNat,
        BitVec.setWidth_eq]

/-- Each byte of the row stands at its place if that is in front of the end, and every other byte is
as before. -/
theorem byte_storeBytes (hsize : m.size < 0x100000000) (addr : Word) (bytes : List Byte) (a : Nat) :
    (m.storeBytes addr bytes).1.byte a =
      if addr.toNat ≤ a ∧ a < m.size then bytes[a - addr.toNat]?.getD (m.byte a)
      else m.byte a := by
  induction bytes generalizing m addr with
  | nil => simp [storeBytes]
  | cons b bytes ih =>
    rw [storeBytes_cons]
    by_cases hplace : addr.toNat < m.size
    · rw [if_pos hplace, ih (by rwa [size_setByte]), size_setByte, toNat_add_one hsize hplace,
        byte_setByte]
      rcases Nat.lt_trichotomy a addr.toNat with h | rfl | h
      · rw [if_neg (by omega), if_neg (by omega), if_neg (by omega)]
      · rw [if_neg (by omega), if_pos ⟨rfl, hplace⟩, if_pos ⟨Nat.le_refl _, hplace⟩, Nat.sub_self,
          List.getElem?_cons_zero, Option.getD_some]
      · have hrest : a - addr.toNat = a - (addr.toNat + 1) + 1 := by omega
        rw [if_neg (show ¬(a = addr.toNat ∧ addr.toNat < m.size) by omega), hrest,
          List.getElem?_cons_succ]
        simp only [Nat.succ_le_of_lt h, Nat.le_of_lt h]
    · rw [if_neg hplace, if_neg (by omega)]

theorem byte_storeBytes_add (hsize : m.size < 0x100000000) {bytes : List Byte} {i : Nat}
    (h : i < bytes.length) (hend : addr.toNat + i < m.size) :
    (m.storeBytes addr bytes).1.byte (addr.toNat + i) = bytes[i] := by
  rw [byte_storeBytes hsize, if_pos ⟨Nat.le_add_right _ _, hend⟩, Nat.add_sub_cancel_left,
    List.getElem?_eq_getElem h, Option.getD_some]

theorem byte_storeBytes_of_outside (hsize : m.size < 0x100000000) {bytes : List Byte} {a : Nat}
    (h : a < addr.toNat ∨ addr.toNat + bytes.length ≤ a ∨ m.size ≤ a) :
    (m.storeBytes addr bytes).1.byte a = m.byte a := by
  rw [byte_storeBytes hsize]
  split_ifs with hin
  · rw [List.getElem?_eq_none (by omega), Option.getD_none]
  · rfl

end Memory

/-- Bytes that are stored one after the other from an address on all have a place if there are none
or if the last one is in front of the end; then they stand there, and no other byte has changed.
Otherwise the failure names the end of the memory, or the address itself if that lies behind the
end, and exactly the bytes that have a place in front of the end stand at theirs. -/
theorem stored_rows_of_bytes {m : Memory} (hsize : m.size < 0x100000000) (base : Word)
    (bytes : List Byte) :
    let behind := (m.storeBytes base bytes).1
    let result := (m.storeBytes base bytes).2
    (result = .ok () ↔ bytes = [] ∨ base.toNat + bytes.length ≤ m.size) ∧
      (result = .ok () →
        ∀ i (h : i < bytes.length), behind.byte (base.toNat + i) = bytes[i]) ∧
      (result ≠ .ok () →
        result = .error (.outOfBounds (BitVec.ofNat 32 (max base.toNat m.size)) 1) ∧
          ∀ i (h : i < bytes.length), base.toNat + i < m.size →
            behind.byte (base.toNat + i) = bytes[i]) ∧
      behind.size = m.size ∧
      ∀ a, a < base.toNat ∨ base.toNat + bytes.length ≤ a ∨ m.size ≤ a →
        behind.byte a = m.byte a := by
  intro behind result
  have hresult : result = _ := Memory.storeBytes_snd hsize base bytes
  have hok : result = .ok () ↔ bytes = [] ∨ base.toNat + bytes.length ≤ m.size := by
    rw [hresult]
    split_ifs with hfits <;> simp [hfits]
  refine ⟨hok, fun h i hi => ?_, fun h => ⟨?_, fun i hi hend => ?_⟩, ?_, fun a ha => ?_⟩
  · have hend : base.toNat + bytes.length ≤ m.size := by
      obtain rfl | hend := hok.mp h
      · cases hi
      · exact hend
    exact Memory.byte_storeBytes_add hsize hi (by omega)
  · rw [hresult, if_neg (mt hok.mpr h)]
  · exact Memory.byte_storeBytes_add hsize hi hend
  · exact Memory.size_storeBytes m base bytes
  · exact Memory.byte_storeBytes_of_outside hsize ha

/-- A row that fits, a row that goes beyond the end by one byte, and a row behind the end whose
addresses would start over at zero. -/
theorem stored_rows_of_bytes_of_three :
    ((Memory.zeros 8).storeBytes 5 [1, 2, 3]).2 = .ok () ∧
      ((Memory.zeros 8).storeBytes 6 [1, 2, 3]).2 = .error (.outOfBounds 8 1) ∧
      ((Memory.zeros 8).storeBytes 6 [1, 2, 3]).1.byte 7 = 2 ∧
      ((Memory.zeros 8).storeBytes 0xFFFFFFFF [1, 2, 3]).2 =
        .error (.outOfBounds 0xFFFFFFFF 1) ∧
      ((Memory.zeros 8).storeBytes 0xFFFFFFFF [1, 2, 3]).1.byte 0 = 0 := by
  have hsize : (Memory.zeros 8).size < 0x100000000 := by decide
  obtain ⟨hfits, -⟩ := stored_rows_of_bytes hsize 5 [1, 2, 3]
  obtain ⟨hcut, -, hpart, -⟩ := stored_rows_of_bytes hsize 6 [1, 2, 3]
  obtain ⟨hout, -, hnone, -, hsame⟩ := stored_rows_of_bytes hsize 0xFFFFFFFF [1, 2, 3]
  have hcut := hpart (mt hcut.mp (by decide))
  refine ⟨hfits.mpr (by decide), hcut.1, hcut.2 1 (by decide) (by decide), ?_, ?_⟩
  · exact (hnone (mt hout.mp (by decide))).1
  · exact hsame 0 (by decide)

end TileCore

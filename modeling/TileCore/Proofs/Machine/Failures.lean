import TileCore.Proofs.Machine.Accesses
import TileCore.Proofs.Machine.InOrder

/-!
# Steps that fail

A step that fails leaves the registers as they are, and the memory as well, with one exception: of a
tile that does not fit into memory, the words in front of the first one that cannot be stored have
been stored. Which words these are is said by the row and the half of the word that failed.

## Main definitions

* `partIndex`, `partAddress`: the place of one half of a row among the words of a tile, and its
  address.

## Main results

* `tileWrites_partIndex`: the stores of a tile, by row and half.
* `failed_step`: what a step that fails leaves behind.
-/

namespace TileCore

/-! ### The words of a tile -/

/-- The place of one half of a row among the words of a tile: row by row, low half first. -/
def partIndex (row : Fin 4) (part : Fin 2) : Nat := 2 * row.val + part.val

/-- The address of one half of a row of the tile at `base`. -/
def partAddress (base pitch : Word) (row : Fin 4) (part : Fin 2) : Word :=
  rowAddress base pitch row.val + 4 * BitVec.ofNat 32 part.val

theorem partAddress_zero (base pitch : Word) (row : Fin 4) :
    partAddress base pitch row 0 = rowAddress base pitch row.val := by
  simp [partAddress]

/-- The stores of a tile, one after the other. -/
theorem tileWrites_eq (base pitch : Word) (t : Tile) :
    tileWrites base pitch t =
      [(rowAddress base pitch 0, t.rowWord 0 0), (rowAddress base pitch 0 + 4, t.rowWord 0 1),
        (rowAddress base pitch 1, t.rowWord 1 0), (rowAddress base pitch 1 + 4, t.rowWord 1 1),
        (rowAddress base pitch 2, t.rowWord 2 0), (rowAddress base pitch 2 + 4, t.rowWord 2 1),
        (rowAddress base pitch 3, t.rowWord 3 0), (rowAddress base pitch 3 + 4, t.rowWord 3 1)] :=
  rfl

theorem map_fst_tileWrites (base pitch : Word) (t : Tile) :
    (tileWrites base pitch t).map Prod.fst = tileAddresses base pitch :=
  rfl

/-- The stores of a tile, by row and half. -/
theorem tileWrites_partIndex (base pitch : Word) (t : Tile) (row : Fin 4) (part : Fin 2) :
    (tileWrites base pitch t)[partIndex row part]? =
      some (partAddress base pitch row part, t.rowWord row part) := by
  rw [tileWrites_eq]
  match row, part with
  | 0, 0 | 1, 0 | 2, 0 | 3, 0 =>
    rw [partAddress_zero]
    rfl
  | 0, 1 | 1, 1 | 2, 1 | 3, 1 => rfl

/-- Every store of a tile is that of one half of a row. -/
theorem exists_partIndex_of_tileWrites {base pitch : Word} {t : Tile} {j : Nat}
    {write : Word × Word} (h : (tileWrites base pitch t)[j]? = some write) :
    ∃ row part, j = partIndex row part ∧
      write = (partAddress base pitch row part, t.rowWord row part) := by
  have hj : j < 8 := by
    rw [tileWrites_eq] at h
    exact (List.getElem?_eq_some_iff.mp h).1
  have hindex : j = partIndex ⟨j / 2, by omega⟩ ⟨j % 2, by omega⟩ := (Nat.div_add_mod j 2).symm
  rw [hindex, tileWrites_partIndex] at h
  exact ⟨_, _, hindex, (Option.some.inj h).symm⟩

/-! ### Failures -/

theorem Registers.exists_read_of_lt {i : Nat} (h : i < scalarCount) (r : Registers) :
    ∃ v, r.read i = .ok v := by
  rw [read]
  split_ifs
  · exact ⟨_, rfl⟩
  · exact ⟨_, rfl⟩

theorem Registers.exists_tile_of_lt {i : Nat} (h : i < tileCount) (r : Registers) :
    ∃ t, r.tile i = .ok t :=
  ⟨r.tiles[i], dif_pos h⟩

/-- A tile store that has been decoded always comes to its stores. -/
theorem Machine.nextEffect_of_tileStore {r : Registers} {m : Memory} {rd rs1 stride : Nat}
    {imm : Int} (h : fetch r m = .ok (.tileStore rd rs1 stride imm)) :
    ∃ base pitch t, r.read rs1 = .ok base ∧ r.read stride = .ok pitch ∧ r.tile rd = .ok t ∧
      nextEffect r m = .ok (.write (tileWrites (base + BitVec.ofInt 32 imm) pitch t)) := by
  obtain ⟨w, -, hdecode⟩ := fetch_eq_ok_iff.mp h
  obtain ⟨hrd, hrs1, hstride, -⟩ := fits_of_encode (Instruction.encode_eq_ok_iff.mpr hdecode)
  obtain ⟨base, hbase⟩ := r.exists_read_of_lt hrs1
  obtain ⟨pitch, hpitch⟩ := r.exists_read_of_lt hstride
  obtain ⟨t, ht⟩ := r.exists_tile_of_lt hrd
  refine ⟨base, pitch, t, hbase, hpitch, ht, nextEffect_eq_ok_iff.mpr ⟨_, h, ?_⟩⟩
  rw [Instruction.effect, hbase, Except.ok_bind, hpitch, Except.ok_bind, ht]
  rfl

theorem Machine.size_memory_of_failed_step {s s' : Machine} {fault : Fault}
    (h : s.step = (s', .error fault)) : s'.memory.size = s.memory.size := by
  obtain ⟨-, rfl⟩ | ⟨words, m, -, hstore, rfl⟩ := step_eq_error h
  · rfl
  · exact Memory.size_of_storeWords hstore

/-- A step that fails asks for nothing or for a single word, unless it stores a tile; and then the
memory is as before. -/
theorem Machine.memory_of_failed_step {s s' : Machine} {fault : Fault}
    (h : s.step = (s', .error fault))
    (hfetch : ∀ rd rs1 stride imm,
      fetch s.registers s.memory ≠ .ok (.tileStore rd rs1 stride imm)) :
    s'.memory = s.memory := by
  obtain ⟨-, rfl⟩ | ⟨words, m, heffect, hstore, rfl⟩ := step_eq_error h
  · rfl
  · obtain ⟨i, hi, heffect⟩ := nextEffect_eq_ok_iff.mp heffect
    cases Instruction.mayAsk_of_effect heffect with
    | store hbase hw =>
      obtain ⟨j, write, hj, hdone, -⟩ := Memory.storeWords_eq_error hstore
      obtain rfl : j = 0 := Nat.lt_one_iff.mp (List.getElem?_eq_some_iff.mp hj).1
      cases hdone
      rfl
    | tileStore hbase hpitch ht => exact absurd hi (hfetch _ _ _ _)

/-- A step that fails has touched no register and has not changed the size of the memory, also if
its accesses take effect one by one. It has not changed the memory either, unless the instruction is
a tile store. Of that all registers can be read, and the words in front of some row and half have
been stored, while the word of this half cannot be. -/
theorem failed_step {s s' : Machine} {fault : Fault} (h : s.step = (s', .error fault)) :
    Machine.stepInOrder.perform s = (s', .error fault) ∧ s'.registers = s.registers ∧
      s'.memory.size = s.memory.size ∧
      ((∀ rd rs1 stride imm,
        Machine.fetch s.registers s.memory ≠ .ok (.tileStore rd rs1 stride imm)) →
          s'.memory = s.memory) ∧
      ∀ rd rs1 stride imm,
        Machine.fetch s.registers s.memory = .ok (.tileStore rd rs1 stride imm) →
        ∃ base pitch t, s.registers.read rs1 = .ok base ∧ s.registers.read stride = .ok pitch ∧
          s.registers.tile rd = .ok t ∧ ∃ row part,
            s.memory.storeWords ((tileWrites (base + BitVec.ofInt 32 imm) pitch t).take
              (partIndex row part)) = (s'.memory, .ok ()) ∧
            s'.memory.storeWord (partAddress (base + BitVec.ofInt 32 imm) pitch row part)
              (t.rowWord row part) = (s'.memory, .error fault) := by
  refine ⟨(Machine.perform_stepInOrder s).trans h, Machine.registers_of_failed_step h,
    Machine.size_memory_of_failed_step h, Machine.memory_of_failed_step h,
    fun rd rs1 stride imm hfetch => ?_⟩
  obtain ⟨base, pitch, t, hbase, hpitch, ht, heffect⟩ := Machine.nextEffect_of_tileStore hfetch
  refine ⟨base, pitch, t, hbase, hpitch, ht, ?_⟩
  obtain ⟨hnone, -⟩ | ⟨words, m, hwords, hstore, rfl⟩ := Machine.step_eq_error h
  · rw [heffect] at hnone
    cases hnone
  · rw [heffect] at hwords
    cases hwords
    obtain ⟨j, write, hj, hdone, hfail⟩ := Memory.storeWords_eq_error hstore
    obtain ⟨row, part, rfl, rfl⟩ := exists_partIndex_of_tileWrites hj
    exact ⟨row, part, hdone, hfail⟩

/-- A tile store of whose words only the first three fit into memory. -/
def cutTileStore : Machine where
  registers := { Registers.cleared with tiles := Registers.cleared.tiles.set 1 Tile.identity }
  memory := Memory.ofImage (Word.toBytes 0x10000857) 28

/-- The memory with these three words. -/
def cutTileMemory : Memory :=
  ⟨#[0x57, 0x08, 0x00, 0x10] ++ Array.replicate 12 0 ++
    #[0x00, 0x3C, 0x00, 0x00, 0x00, 0x00, 0x00, 0x00, 0x00, 0x00, 0x00, 0x3C]⟩

theorem failed_step_of_cut_tile_store :
    cutTileStore.step =
        (⟨cutTileStore.registers, cutTileMemory⟩, .error (.outOfBounds 28 4)) ∧
      Machine.fetch cutTileStore.registers cutTileStore.memory = .ok (.tileStore 1 0 0 16) ∧
      ∃ row part,
        cutTileStore.memory.storeWords ((tileWrites 16 0 Tile.identity).take
          (partIndex row part)) = (cutTileMemory, .ok ()) ∧
        cutTileMemory.storeWord (partAddress 16 0 row part) (Tile.identity.rowWord row part) =
          (cutTileMemory, .error (.outOfBounds 28 4)) := by
  have hstep : cutTileStore.step =
      (⟨cutTileStore.registers, cutTileMemory⟩, .error (.outOfBounds 28 4)) := by rfl
  have hfetch : Machine.fetch cutTileStore.registers cutTileStore.memory =
      .ok (.tileStore 1 0 0 16) := by rfl
  obtain ⟨-, -, -, -, htile⟩ := failed_step hstep
  obtain ⟨base, pitch, t, hbase, hpitch, ht, hparts⟩ := htile 1 0 0 16 hfetch
  cases hbase
  cases hpitch
  cases ht
  exact ⟨hstep, hfetch, hparts⟩

end TileCore

import TileCore.Proofs.Machine.Failures

/-!
# Tiles between registers and memory

A tile is loaded and stored half row by half row, at eight addresses that may be anywhere and may
coincide. Both transfers check the addresses in the same order, so they fail alike; and a tile that
has been loaded can be stored where it came from without a change, since a word that is loaded twice
is the same word. The other way round, a tile that has been stored is loaded again if no two of the
eight addresses coincide. A packed tile fills 32 bytes in a row and is read from them byte by byte.

## Main definitions

* `tileParts`: the halves of the rows of a tile, in the order of their transfer.
* `loadTileByParts`: a tile that is loaded half row by half row.
* `Memory.bytesFrom`: the bytes at some addresses in a row.

## Main results

* `loadTile_eq_loadTileByParts`: loading eight words at once or half row by half row.
* `loadTile_eq_ok_iff`: what a tile that is loaded holds.
* `tile_transfers_agree`: loading and storing at the same place.
* `loadTile_packed`: a packed tile is read from 32 bytes in a row.
* `stored_tile_layout`: what stands in memory behind the store of a tile.
-/

namespace TileCore

/-! ### Half rows -/

/-- The halves of the rows of a tile, row by row, low half first. -/
def tileParts : List (Fin 4 × Fin 2) :=
  (List.finRange 4).flatMap fun row => (List.finRange 2).map fun part => (row, part)

theorem mem_tileParts (row : Fin 4) (part : Fin 2) : (row, part) ∈ tileParts := by
  revert row part
  decide

theorem tileAddresses_eq_map (base pitch : Word) :
    tileAddresses base pitch = tileParts.map fun p => partAddress base pitch p.1 p.2 := by
  have hrow : ∀ row : Fin 4, (List.finRange 2).map (fun part => partAddress base pitch row part) =
      [rowAddress base pitch row.val, rowAddress base pitch row.val + 4] :=
    fun row => congrArg (· :: [_]) (partAddress_zero base pitch row)
  simp only [tileParts, List.map_flatMap, List.map_map, Function.comp_def, hrow]
  rfl

theorem length_tileAddresses (base pitch : Word) : (tileAddresses base pitch).length = 8 :=
  rfl

theorem Tile.words_eq_map (t : Tile) : t.words = tileParts.map fun p => t.rowWord p.1 p.2 :=
  rfl

theorem Tile.ofWords_eq_foldl {ws : List Word} (h : ws.length = 8) :
    Tile.ofWords ws =
      (tileParts.zip ws).foldl (fun t p => t.setRowWord p.1.1 p.1.2 p.2) Tile.zero := by
  match ws, h with
  | [w₀, w₁, w₂, w₃, w₄, w₅, w₆, w₇], _ =>
    refine ext_rowWord fun row part => ?_
    have hzip : tileParts.zip [w₀, w₁, w₂, w₃, w₄, w₅, w₆, w₇] =
        [((0, 0), w₀), ((0, 1), w₁), ((1, 0), w₂), ((1, 1), w₃), ((2, 0), w₄), ((2, 1), w₅),
          ((3, 0), w₆), ((3, 1), w₇)] := rfl
    simp only [hzip, List.foldl_cons, List.foldl_nil, rowWord_setRowWord, rowWord_ofWords]
    match row, part with
    | 0, 0 | 1, 0 | 2, 0 | 3, 0 | 0, 1 | 1, 1 | 2, 1 | 3, 1 => rfl

/-- The tile at `base`, loaded half row by half row into the tile of zeros. -/
def loadTileByParts (m : Memory) (base pitch : Word) : Except Fault Tile :=
  tileParts.foldlM (fun t p => do
    let w ← m.loadWord (partAddress base pitch p.1 p.2)
    return t.setRowWord p.1 p.2 w) Tile.zero

/-- Setting half rows while they are loaded comes to the same as loading them first. -/
theorem foldlM_loadWord (m : Memory) (addr : Fin 4 × Fin 2 → Word) (parts : List (Fin 4 × Fin 2))
    (t : Tile) :
    parts.foldlM (fun t p => do
      let w ← m.loadWord (addr p)
      return t.setRowWord p.1 p.2 w) t =
      (m.loadWords (parts.map addr)).map fun ws =>
        (parts.zip ws).foldl (fun t p => t.setRowWord p.1.1 p.1.2 p.2) t := by
  -- The tile built so far changes from half row to half row.
  induction parts generalizing t with
  | nil => rfl
  | cons p parts ih =>
    rw [List.foldlM_cons, List.map_cons, Memory.loadWords]
    cases m.loadWord (addr p) with
    | error fault => simp only [bind, Except.bind, Except.map]
    | ok w =>
      rw [Except.ok_bind, Except.ok_bind]
      refine (ih _).trans ?_
      cases m.loadWords (parts.map addr) <;>
        simp only [bind, Except.bind, pure, Except.pure, Except.map, List.zip_cons_cons,
          List.foldl_cons]

theorem loadTile_eq_loadTileByParts (m : Memory) (base pitch : Word) :
    loadTile m base pitch = loadTileByParts m base pitch := by
  rw [loadTileByParts, foldlM_loadWord, ← tileAddresses_eq_map, loadTile]
  cases hload : m.loadWords (tileAddresses base pitch) with
  | error fault => simp only [Except.map]
  | ok ws =>
    have hlength := (Memory.length_of_loadWords hload).trans (length_tileAddresses base pitch)
    exact congrArg Except.ok (Tile.ofWords_eq_foldl hlength)

/-! ### What is loaded and stored -/

section Transfers

variable {m m' : Memory} {base pitch : Word} {t : Tile} {fault : Fault}

theorem Memory.loadWords_map_eq_ok_iff {α : Type} {addr word : α → Word} {xs : List α} :
    m.loadWords (xs.map addr) = .ok (xs.map word) ↔
      ∀ x ∈ xs, m.loadWord (addr x) = .ok (word x) := by
  induction xs with
  | nil => simp [loadWords]
  | cons x xs ih =>
    rw [List.forall_mem_cons, ← ih, List.map_cons, List.map_cons, loadWords]
    simp only [Except.bind_eq_ok_iff]
    constructor
    · rintro ⟨w, hw, ws, hws, h⟩
      cases h
      exact ⟨hw, hws⟩
    · rintro ⟨hw, hws⟩
      exact ⟨_, hw, _, hws, rfl⟩

theorem loadTile_eq_ok_iff_loadWords :
    loadTile m base pitch = .ok t ↔ m.loadWords (tileAddresses base pitch) = .ok t.words := by
  rw [loadTile]
  cases hload : m.loadWords (tileAddresses base pitch) with
  | error fault => simp [Except.map]
  | ok ws =>
    have hlength := (Memory.length_of_loadWords hload).trans (length_tileAddresses base pitch)
    rw [Except.map, Except.ok.injEq, Except.ok.injEq]
    constructor
    · rintro rfl
      exact (Tile.words_ofWords hlength).symm
    · rintro rfl
      exact t.ofWords_words

/-- A tile that is loaded holds the words that are loaded half row by half row. -/
theorem loadTile_eq_ok_iff :
    loadTile m base pitch = .ok t ↔
      ∀ row part, m.loadWord (partAddress base pitch row part) = .ok (t.rowWord row part) := by
  rw [loadTile_eq_ok_iff_loadWords, tileAddresses_eq_map, Tile.words_eq_map,
    Memory.loadWords_map_eq_ok_iff]
  exact ⟨fun h row part => h (row, part) (mem_tileParts row part), fun h p _ => h p.1 p.2⟩

theorem loadTile_eq_error_iff :
    loadTile m base pitch = .error fault ↔
      m.checkWords (tileAddresses base pitch) = .error fault := by
  rw [← Memory.map_loadWords, loadTile]
  cases m.loadWords (tileAddresses base pitch) <;> simp [Except.map]

theorem storeTile_snd (m : Memory) (base pitch : Word) (t : Tile) :
    (storeTile m base pitch t).2 = m.checkWords (tileAddresses base pitch) :=
  m.storeWords_snd _

theorem storeTile_of_loadTile (h : loadTile m base pitch = .ok t) :
    storeTile m base pitch t = (m, .ok ()) :=
  Memory.storeWords_zip_of_loadWords (loadTile_eq_ok_iff_loadWords.mp h)

theorem loadTile_of_storeTile (hdistinct : (tileAddresses base pitch).Nodup)
    (h : storeTile m base pitch t = (m', .ok ())) : loadTile m' base pitch = .ok t := by
  rw [← map_fst_tileWrites base pitch t] at hdistinct
  exact loadTile_eq_ok_iff_loadWords.mpr (Memory.loadWords_of_storeWords hdistinct h)

/-- The bytes of a tile that is loaded, half row by half row. -/
theorem getElem?_toBytes_of_loadTile (h : loadTile m base pitch = .ok t) (row : Fin 4)
    (part : Fin 2) {k : Nat} (hk : k < 4) :
    t.toBytes[8 * row.val + 4 * part.val + k]? =
      some (m.byte ((partAddress base pitch row part).toNat + k)) := by
  rw [t.getElem?_toBytes row part hk, Memory.byte_of_loadWord (loadTile_eq_ok_iff.mp h row part) hk]

/-- The store of a tile changes the bytes of its half rows only. -/
theorem byte_of_storeTile (h : storeTile m base pitch t = (m', .ok ())) {a : Nat}
    (hout : ∀ row part, a < (partAddress base pitch row part).toNat ∨
      (partAddress base pitch row part).toNat + 4 ≤ a) : m'.byte a = m.byte a := by
  refine Decidable.byContradiction fun hne => ?_
  obtain ⟨addr, hmem, hlow, hhigh⟩ := Memory.exists_address_of_byte_ne h hne
  rw [map_fst_tileWrites, tileAddresses_eq_map] at hmem
  obtain ⟨p, -, rfl⟩ := List.mem_map.mp hmem
  have hp := hout p.1 p.2
  omega

end Transfers

/-- Loading and storing a tile at the same place. They fail alike, with the same fault, whatever
tile is stored. A tile that has been loaded can be stored again and changes nothing, wherever its
half rows lie and whatever they hold. -/
theorem tile_transfers_agree (m : Memory) (base pitch : Word) :
    (∀ t fault, loadTile m base pitch = .error fault ↔
      (storeTile m base pitch t).2 = .error fault) ∧
      ∀ u, loadTile m base pitch = .ok u → storeTile m base pitch u = (m, .ok ()) := by
  refine ⟨fun t fault => ?_, fun u => storeTile_of_loadTile⟩
  rw [loadTile_eq_error_iff, storeTile_snd]

/-- A memory of numbers all of whose bits are set; none of them is equal to itself. -/
def setBits : Memory := ⟨Array.replicate 20 0xFF⟩

/-- Rows that overlap are stored again, and a base between two words is refused twice. -/
theorem tile_transfers_agree_of_overlapping_rows :
    storeTile setBits 0 4 ⟨Vector.replicate 16 0xFFFF⟩ = (setBits, .ok ()) ∧
      (storeTile setBits 2 4 Tile.zero).2 = .error (.misaligned 2) := by
  obtain ⟨-, hload⟩ := tile_transfers_agree setBits 0 4
  obtain ⟨hfail, -⟩ := tile_transfers_agree setBits 2 4
  exact ⟨hload _ (by rfl), (hfail Tile.zero _).mp (by rfl)⟩

/-! ### Packed tiles -/

theorem toNat_add_ofNat {addr : Word} {k : Nat} (h : addr.toNat + k < 0x100000000) :
    (addr + BitVec.ofNat 32 k).toNat = addr.toNat + k := by
  have hk : k % 0x100000000 = k := Nat.mod_eq_of_lt (by omega)
  simp only [BitVec.toNat_add, BitVec.toNat_ofNat, hk]
  exact Nat.mod_eq_of_lt h

namespace Memory

/-- The bytes at `n` addresses from `addr` on; addresses wrap around. -/
def bytesFrom (m : Memory) (addr : Word) (n : Nat) : List Byte :=
  (List.range n).map fun k => m.byte (addr + BitVec.ofNat 32 k).toNat

variable {m : Memory} {addr : Word} {n k : Nat}

theorem getD_bytesFrom (m : Memory) (addr : Word) (h : k < n) :
    (m.bytesFrom addr n).getD k 0 = m.byte (addr + BitVec.ofNat 32 k).toNat := by
  rw [bytesFrom, List.getD_eq_getElem?_getD, List.getElem?_map, List.getElem?_range h]
  rfl

theorem length_bytesFrom (m : Memory) (addr : Word) (n : Nat) :
    (m.bytesFrom addr n).length = n := by
  rw [bytesFrom, List.length_map, List.length_range]

theorem extract_eq_map {a : Nat} (h : a + n ≤ m.size) :
    m.extract a n = (List.range n).map fun k => m.byte (a + k) := by
  have hsize : a + n ≤ m.bytes.size := h
  refine List.ext_getElem ?_ fun k hk hk' => ?_
  · rw [extract, Array.length_toList, Array.size_extract, List.length_map, List.length_range]
    omega
  · rw [List.length_map, List.length_range] at hk'
    simp only [extract, List.getElem_map, List.getElem_range, Array.getElem_toList,
      Array.getElem_extract, byte]
    rw [Array.getD_eq_getD_getElem?, Array.getElem?_eq_getElem (by omega), Option.getD_some]

/-- If no address wraps around, these are bytes that stand side by side. -/
theorem bytesFrom_eq_extract (hend : addr.toNat + n ≤ m.size)
    (hlast : addr.toNat + n ≤ 0x100000000) : m.bytesFrom addr n = m.extract addr.toNat n := by
  rw [extract_eq_map hend, bytesFrom]
  refine List.map_congr_left fun k hk => ?_
  have hlt := List.mem_range.mp hk
  rw [toNat_add_ofNat (by omega)]

end Memory

theorem partAddress_packed (base : Word) (row : Fin 4) (part : Fin 2) :
    partAddress base 0 row part = base + BitVec.ofNat 32 (8 * row.val + 4 * part.val) := by
  rw [partAddress, rowAddress, if_pos rfl, BitVec.add_assoc]
  refine congrArg (base + ·) ?_
  revert row part
  decide

theorem toNat_partAddress_packed (base : Word) (row : Fin 4) (part : Fin 2) :
    (partAddress base 0 row part).toNat =
      (base.toNat + (8 * row.val + 4 * part.val)) % 0x100000000 := by
  simp only [partAddress_packed, BitVec.toNat_add, BitVec.toNat_ofNat, Nat.add_mod_mod]

/-- A packed tile is read from 32 bytes in a row. -/
theorem loadTile_packed {m : Memory} {base : Word} (haligned : base.toNat % 4 = 0)
    (hend : base.toNat + 32 ≤ m.size) :
    loadTile m base 0 = .ok (Tile.ofBytes (m.bytesFrom base 32)) := by
  refine loadTile_eq_ok_iff.mpr fun row part => Memory.loadWord_eq_ok_iff.mpr ?_
  have haddr := toNat_partAddress_packed base row part
  have halignedPart : (partAddress base 0 row part).toNat % 4 = 0 := by omega
  have hbyte : ∀ k < 4, (m.bytesFrom base 32).getD (8 * row.val + 4 * part.val + k) 0 =
      m.byte ((partAddress base 0 row part).toNat + k) := by
    intro k hk
    have hlast : (partAddress base 0 row part).toNat + k < 0x100000000 := by omega
    rw [m.getD_bytesFrom base (by omega), ← toNat_add_ofNat hlast, partAddress_packed,
      BitVec.add_assoc, BitVec.ofNat_add]
  have hfirst := hbyte 0 (by decide)
  rw [Nat.add_zero, Nat.add_zero] at hfirst
  refine ⟨Memory.checkWord_eq_ok_iff.mpr ⟨halignedPart, by omega⟩, ?_⟩
  rw [Tile.rowWord_ofBytes, hfirst, hbyte 1 (by decide), hbyte 2 (by decide), hbyte 3 (by decide),
    Memory.word]

/-- No two half rows of a packed tile coincide. -/
theorem nodup_tileAddresses_packed (base : Word) : (tileAddresses base 0).Nodup := by
  have hoffsets : tileParts.Pairwise fun p q =>
      BitVec.ofNat 32 (8 * p.1.val + 4 * p.2.val) ≠
        BitVec.ofNat 32 (8 * q.1.val + 4 * q.2.val) := by
    decide
  rw [tileAddresses_eq_map]
  refine List.pairwise_map.mpr (hoffsets.imp fun {p q} hne heq => hne ?_)
  rw [partAddress_packed, partAddress_packed] at heq
  exact (BitVec.add_right_inj base).mp heq

/-- What stands in memory behind the store of a tile. No byte outside its half rows has changed. If
no two half rows coincide, the tile is loaded again, and every half row holds its four bytes of the
tile in their order. If the rows are packed, the 32 bytes from the base on, whose addresses may wrap
around, are those of the tile; and whatever these bytes are, they are the tile that is loaded. If no
address wraps around, they stand side by side. -/
theorem stored_tile_layout {m m' : Memory} {base pitch : Word} {t : Tile}
    (h : storeTile m base pitch t = (m', .ok ())) :
    m'.size = m.size ∧
      (∀ a, (∀ row part, a < (partAddress base pitch row part).toNat ∨
        (partAddress base pitch row part).toNat + 4 ≤ a) → m'.byte a = m.byte a) ∧
      ((tileAddresses base pitch).Nodup →
        loadTile m' base pitch = .ok t ∧
          ∀ (row : Fin 4) (part : Fin 2), ∀ k < 4,
            t.toBytes[8 * row.val + 4 * part.val + k]? =
              some (m'.byte ((partAddress base pitch row part).toNat + k))) ∧
      (pitch = 0 → base.toNat + 32 ≤ m.size →
        m'.bytesFrom base 32 = t.toBytes ∧
          (∀ n : Memory, base.toNat + 32 ≤ n.size →
            loadTile n base 0 = .ok (Tile.ofBytes (n.bytesFrom base 32))) ∧
          (base.toNat + 32 ≤ 0x100000000 →
            m'.extract base.toNat 32 = t.toBytes ∧
              ∀ n : Memory, base.toNat + 32 ≤ n.size →
                loadTile n base 0 = .ok (Tile.ofBytes (n.extract base.toNat 32)))) := by
  have hsize := Memory.size_of_storeWords h
  refine ⟨hsize, fun a hout => byte_of_storeTile h hout, fun hdistinct => ?_, ?_⟩
  · have hload := loadTile_of_storeTile hdistinct h
    exact ⟨hload, fun row part k hk => getElem?_toBytes_of_loadTile hload row part hk⟩
  · rintro rfl hend
    have hload := loadTile_of_storeTile (nodup_tileAddresses_packed base) h
    have hfirst := (Memory.loadWord_eq_ok_iff.mp (loadTile_eq_ok_iff.mp hload 0 0)).1
    have haligned : base.toNat % 4 = 0 := by
      have haddr := toNat_partAddress_packed base 0 0
      have halignedPart := (Memory.checkWord_eq_ok_iff.mp hfirst).1
      omega
    have hend' : base.toNat + 32 ≤ m'.size := hsize ▸ hend
    have hread : Tile.ofBytes (m'.bytesFrom base 32) = t :=
      Except.ok.inj ((loadTile_packed haligned hend').symm.trans hload)
    have hbytes : m'.bytesFrom base 32 = t.toBytes := by
      rw [← hread, Tile.toBytes_ofBytes (m'.length_bytesFrom base 32)]
    refine ⟨hbytes, fun n hn => loadTile_packed haligned hn, fun hlast => ⟨?_, fun n hn => ?_⟩⟩
    · rw [← Memory.bytesFrom_eq_extract hend' hlast, hbytes]
    · rw [← Memory.bytesFrom_eq_extract hn hlast, loadTile_packed haligned hn]

/-- Of rows that overlap the later ones remain. -/
example : (loadTile (storeTile (Memory.zeros 20) 0 4 Tile.identity).1 0 4).toOption ≠
    some Tile.identity := by
  decide

/-- Rows that stand in memory from the last one to the first one, with gaps, and packed rows. -/
theorem stored_tile_layout_of_two_tiles :
    loadTile (storeTile (Memory.zeros 60) 48 (-16) Tile.identity).1 48 (-16) = .ok Tile.identity ∧
      Tile.identity.toBytes[21]? =
        some ((storeTile (Memory.zeros 60) 48 (-16) Tile.identity).1.byte 21) ∧
      (storeTile (Memory.zeros 60) 48 (-16) Tile.identity).1.byte 8 = 0 ∧
      (storeTile (Memory.zeros 40) 8 0 Tile.identity).1.extract 8 32 = Tile.identity.toBytes := by
  have hstore : storeTile (Memory.zeros 60) 48 (-16) Tile.identity =
      ((storeTile (Memory.zeros 60) 48 (-16) Tile.identity).1, .ok ()) :=
    Prod.ext rfl ((storeTile_snd _ _ _ _).trans (by rfl))
  have hpacked : storeTile (Memory.zeros 40) 8 0 Tile.identity =
      ((storeTile (Memory.zeros 40) 8 0 Tile.identity).1, .ok ()) :=
    Prod.ext rfl ((storeTile_snd _ _ _ _).trans (by rfl))
  obtain ⟨-, hframe, hrows, -⟩ := stored_tile_layout hstore
  obtain ⟨hload, hbytes⟩ := hrows (by decide)
  obtain ⟨-, -, -, hrow⟩ := stored_tile_layout hpacked
  obtain ⟨-, -, hside⟩ := hrow rfl (by decide)
  exact ⟨hload, hbytes 2 1 1 (by decide), hframe 8 (by decide), (hside (by decide)).1⟩

/-- In a memory of zeros that is larger than all addresses, the last rows of a packed tile may be
stored at its beginning. -/
theorem exists_storeTile_at_last_addresses {m : Memory} (hsize : m.size = 0x100000010)
    (hzero : ∀ a, m.byte a = 0) :
    ∃ m', storeTile m 0xFFFFFFF0 0 Tile.identity = (m', .ok ()) ∧
      m'.extract 0xFFFFFFF0 32 ≠ Tile.identity.toBytes ∧
      loadTile m' 0xFFFFFFF0 0 ≠ .ok (Tile.ofBytes (m'.extract 0xFFFFFFF0 32)) := by
  have hfit : (0xFFFFFFF0 : Word).toNat + 32 = m.size := hsize.symm
  obtain ⟨m', hstore⟩ : ∃ m', storeTile m 0xFFFFFFF0 0 Tile.identity = (m', .ok ()) := by
    have haligned : (0xFFFFFFF0 : Word).toNat % 4 = 0 := by decide
    have hload := loadTile_eq_ok_iff_loadWords.mp (loadTile_packed haligned (Nat.le_of_eq hfit))
    refine ⟨_, Prod.ext rfl ?_⟩
    rw [storeTile_snd, ← Memory.map_loadWords, hload]
    rfl
  have hend : 0xFFFFFFF0 + 32 ≤ m'.size := by
    rw [Memory.size_of_storeWords hstore]
    exact Nat.le_of_eq hfit
  have hdiffers : m'.extract 0xFFFFFFF0 32 ≠ Tile.identity.toBytes := by
    intro hsame
    have hbyte : m'.byte (0xFFFFFFF0 + 21) = 0 := by
      rw [byte_of_storeTile hstore fun row part => .inr ?_, hzero]
      have := (partAddress 0xFFFFFFF0 0 row part).isLt
      omega
    have hentry : Tile.identity.toBytes[21]? = some 0x3C := by decide
    rw [← hsame, Memory.extract_eq_map hend, List.getElem?_map, List.getElem?_range (by decide),
      Option.map_some, hbyte] at hentry
    exact absurd hentry (by decide)
  refine ⟨m', hstore, hdiffers, fun hload => hdiffers ?_⟩
  have hlength : (m'.extract 0xFFFFFFF0 32).length = 32 := by
    rw [Memory.extract_eq_map hend, List.length_map, List.length_range]
  have hsame := Except.ok.inj
    ((loadTile_of_storeTile (nodup_tileAddresses_packed _) hstore).symm.trans hload)
  rw [hsame, Tile.toBytes_ofBytes hlength]

/-- The rows of a packed tile may wrap around, in a memory larger than all addresses, and then its
bytes do not stand side by side from its base on. At a base between two words no tile is loaded,
however much memory there is behind it. -/
theorem packed_rows_wrap_around :
    (∃ m', storeTile (Memory.zeros 0x100000010) 0xFFFFFFF0 0 Tile.identity = (m', .ok ()) ∧
      (tileAddresses 0xFFFFFFF0 0).Nodup ∧ 0xFFFFFFF0 + 32 ≤ (Memory.zeros 0x100000010).size ∧
      m'.extract 0xFFFFFFF0 32 ≠ Tile.identity.toBytes ∧
      loadTile m' 0xFFFFFFF0 0 ≠ .ok (Tile.ofBytes (m'.extract 0xFFFFFFF0 32))) ∧
    2 + 32 ≤ (Memory.zeros 64).size ∧ loadTile (Memory.zeros 64) 2 0 = .error (.misaligned 2) := by
  obtain ⟨m', hstore, hbytes, hload⟩ := exists_storeTile_at_last_addresses
    (Memory.size_zeros 0x100000010) (Memory.byte_zeros 0x100000010)
  have hfit : 0xFFFFFFF0 + 32 = (Memory.zeros 0x100000010).size :=
    (Memory.size_zeros 0x100000010).symm
  exact ⟨⟨m', hstore, nodup_tileAddresses_packed _, Nat.le_of_eq hfit, hbytes, hload⟩,
    by decide, rfl⟩

end TileCore

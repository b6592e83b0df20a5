import TileCore.Machine.Memory
import TileCore.Proofs.Codec.Inverse
import TileCore.Proofs.Machine.ByteLayout

/-!
# Accesses to memory

Whether a word can be loaded or stored is decided by its address and by the size of the memory
alone: one check of the alignment, then one of the end. Since a store does not change the size, a
row of loads and a row of stores at the same addresses come to the same, whatever is stored. A store
changes the four bytes of its word and no others; so a word that lies elsewhere is loaded as before,
and storing a word where it has been loaded from changes nothing at all.

## Main definitions

* `Memory.checkWords`: the check of several addresses, one after the other.

## Main results

* `Memory.checkWord_eq_error_iff`: what a check that fails says.
* `Memory.map_loadWords`, `Memory.storeWords_snd`: rows of accesses are decided by the check.
* `Memory.storeWords_eq_error`: a row of stores is done up to the one that fails.
* `Memory.byte_setWord_of_outside`, `Memory.word_setWord`, `Memory.setWord_word`: what a store does
  to the bytes.
* `Memory.exists_address_of_byte_ne`: a row of stores changes the bytes of its words only.
* `Memory.loadWords_of_storeWords`: a row of stores at different addresses is loaded again.
* `Memory.storeWords_zip_of_loadWords`: words that are stored where they have been loaded from.
-/

namespace TileCore

namespace Memory

variable {m m' : Memory} {addr w : Word} {a i : Nat} {fault : Fault}

/-! ### Bytes -/

/-- Memories of the same size with the same bytes are the same. -/
theorem ext_byte (hsize : m.size = m'.size) (h : ∀ i, m.byte i = m'.byte i) : m = m' := by
  obtain ⟨bytes⟩ := m
  obtain ⟨bytes'⟩ := m'
  congr 1
  refine Array.ext hsize fun i hi hi' => ?_
  simpa [byte, hi, hi'] using h i

theorem setByte_byte (m : Memory) (a : Nat) : m.setByte a (m.byte a) = m := by
  refine ext_byte (size_setByte m a _) fun i => ?_
  rw [byte_setByte]
  split_ifs with h
  · rw [h.1]
  · rfl

theorem byte_setWord_of_outside (m : Memory) (w : Word) (h : i < a ∨ a + 4 ≤ i) :
    (m.setWord a w).byte i = m.byte i := by
  simp only [setWord, byte_setByte]
  split_ifs <;> first | omega | rfl

/-- A word that is stored stands there byte by byte. -/
theorem byte_setWord_add (w : Word) (h : a + 4 ≤ m.size) {k : Nat} (hk : k < 4) :
    (m.setWord a w).byte (a + k) = Word.byte w k := by
  simp only [setWord, byte_setByte, size_setByte]
  obtain rfl | rfl | rfl | rfl : k = 0 ∨ k = 1 ∨ k = 2 ∨ k = 3 := by omega
  · rw [if_neg (by omega), if_neg (by omega), if_neg (by omega), if_pos (by omega)]
  · rw [if_neg (by omega), if_neg (by omega), if_pos (by omega)]
  · rw [if_neg (by omega), if_pos (by omega)]
  · rw [if_pos (by omega)]

theorem word_setWord (w : Word) (h : a + 4 ≤ m.size) : (m.setWord a w).word a = w := by
  have hlow : (m.setWord a w).byte a = Word.byte w 0 := byte_setWord_add w h (k := 0) (by decide)
  rw [word, hlow, byte_setWord_add w h (by decide), byte_setWord_add w h (by decide),
    byte_setWord_add w h (by decide), Word.ofBytes_toBytes]

theorem byte_word (m : Memory) (a : Nat) {k : Nat} (hk : k < 4) :
    Word.byte (m.word a) k = m.byte (a + k) := by
  have hbytes := Word.toBytes_ofBytes (m.byte a) (m.byte (a + 1)) (m.byte (a + 2)) (m.byte (a + 3))
  have hbyte := Word.getElem?_toBytes (m.word a) hk
  rw [word, hbytes] at hbyte
  match k with
  | 0 | 1 | 2 | 3 => exact (Option.some.inj hbyte).symm

/-- A word that is stored where it stands changes nothing. -/
theorem setWord_word (m : Memory) (a : Nat) : m.setWord a (m.word a) = m := by
  have hfirst : Word.byte (m.word a) 0 = m.byte a := byte_word m a (by decide)
  rw [setWord, hfirst, byte_word m a (by decide), byte_word m a (by decide),
    byte_word m a (by decide), setByte_byte, setByte_byte, setByte_byte, setByte_byte]

/-! ### The check of an address -/

theorem checkWord_eq_ok_iff :
    m.checkWord addr = .ok () ↔ addr.toNat % 4 = 0 ∧ addr.toNat + 4 ≤ m.size := by
  rw [checkWord, checkBounds]
  split_ifs <;> simp_all

/-- The alignment is checked first and the end of the memory second. -/
theorem checkWord_eq_error_iff :
    m.checkWord addr = .error fault ↔
      addr.toNat % 4 ≠ 0 ∧ fault = .misaligned addr ∨
        addr.toNat % 4 = 0 ∧ m.size < addr.toNat + 4 ∧ fault = .outOfBounds addr 4 := by
  rw [checkWord, checkBounds]
  split_ifs with haligned hend
  · simp [haligned, Nat.not_lt.mpr hend]
  · simp [haligned, Nat.lt_of_not_le hend, eq_comm]
  · simp [haligned, eq_comm]

theorem checkWord_of_size_eq (h : m'.size = m.size) (addr : Word) :
    m'.checkWord addr = m.checkWord addr := by
  rw [checkWord, checkWord, checkBounds, checkBounds, h]

theorem loadWord_eq_ok_iff :
    m.loadWord addr = .ok w ↔ m.checkWord addr = .ok () ∧ m.word addr.toNat = w := by
  rw [loadWord]
  cases m.checkWord addr <;> simp [Except.map]

theorem loadWord_eq_error_iff :
    m.loadWord addr = .error fault ↔ m.checkWord addr = .error fault := by
  rw [loadWord]
  cases m.checkWord addr <;> simp [Except.map]

theorem storeWord_eq_ok_iff :
    m.storeWord addr w = (m', .ok ()) ↔
      m.checkWord addr = .ok () ∧ m' = m.setWord addr.toNat w := by
  rw [storeWord]
  cases m.checkWord addr <;> simp [eq_comm]

theorem storeWord_eq_error_iff :
    m.storeWord addr w = (m', .error fault) ↔ m.checkWord addr = .error fault ∧ m' = m := by
  rw [storeWord]
  cases m.checkWord addr <;> simp [eq_comm, and_comm]

theorem storeWord_snd (m : Memory) (addr w : Word) : (m.storeWord addr w).2 = m.checkWord addr := by
  rw [storeWord]
  cases m.checkWord addr <;> rfl

theorem size_storeWord (m : Memory) (addr w : Word) : (m.storeWord addr w).1.size = m.size := by
  rw [storeWord]
  split
  · exact size_setWord m _ w
  · rfl

theorem storeByte_eq_ok_iff {b : Byte} :
    m.storeByte addr b = (m', .ok ()) ↔ addr.toNat < m.size ∧ m' = m.setByte addr.toNat b := by
  rw [storeByte, checkBounds]
  split_ifs with h
  · simp [Nat.lt_of_succ_le h, eq_comm]
  · simp [mt Nat.succ_le_of_lt h]

theorem storeByte_eq_error_iff {b : Byte} :
    m.storeByte addr b = (m', .error fault) ↔
      m.size ≤ addr.toNat ∧ fault = .outOfBounds addr 1 ∧ m' = m := by
  rw [storeByte, checkBounds]
  split_ifs with h
  · simp [Nat.not_le.mpr (Nat.lt_of_succ_le h)]
  · simp [Nat.le_of_lt_succ (Nat.lt_of_not_le h), eq_comm, and_comm]

theorem size_storeByte (m : Memory) (addr : Word) (b : Byte) :
    (m.storeByte addr b).1.size = m.size := by
  rw [storeByte]
  split
  · exact size_setByte m _ b
  · rfl

/-- Words at different addresses have no byte in common, since both addresses are multiples of
four. -/
theorem outside_of_ne {addr' : Word} (h : m.checkWord addr = .ok ())
    (h' : m.checkWord addr' = .ok ()) (hne : addr ≠ addr') :
    addr.toNat + 4 ≤ addr'.toNat ∨ addr'.toNat + 4 ≤ addr.toNat := by
  have hne' : addr.toNat ≠ addr'.toNat := fun e => hne (BitVec.eq_of_toNat_eq e)
  have haligned := (checkWord_eq_ok_iff.mp h).1
  have haligned' := (checkWord_eq_ok_iff.mp h').1
  omega

/-- A word that lies elsewhere is loaded as before. -/
theorem loadWord_storeWord_of_outside {addr' : Word} (w : Word)
    (h : addr.toNat + 4 ≤ addr'.toNat ∨ addr'.toNat + 4 ≤ addr.toNat) :
    (m.storeWord addr' w).1.loadWord addr = m.loadWord addr := by
  rw [storeWord]
  split
  · have hword : (m.setWord addr'.toNat w).word addr.toNat = m.word addr.toNat := by
      rw [word, byte_setWord_of_outside m w (by omega), byte_setWord_of_outside m w (by omega),
        byte_setWord_of_outside m w (by omega), byte_setWord_of_outside m w (by omega), word]
    rw [loadWord, loadWord, checkWord_of_size_eq (size_setWord m _ w), hword]
  · rfl

/-- A word that has been stored is loaded again. -/
theorem loadWord_of_storeWord (h : m.storeWord addr w = (m', .ok ())) :
    m'.loadWord addr = .ok w := by
  obtain ⟨hcheck, rfl⟩ := storeWord_eq_ok_iff.mp h
  refine loadWord_eq_ok_iff.mpr ⟨?_, word_setWord w (checkWord_eq_ok_iff.mp hcheck).2⟩
  rwa [checkWord_of_size_eq (size_setWord m _ w)]

theorem byte_of_loadWord (h : m.loadWord addr = .ok w) {k : Nat} (hk : k < 4) :
    m.byte (addr.toNat + k) = Word.byte w k := by
  obtain ⟨-, rfl⟩ := loadWord_eq_ok_iff.mp h
  exact (byte_word m _ hk).symm

/-- A word that is stored where it has been loaded from changes nothing. -/
theorem storeWord_of_loadWord (h : m.loadWord addr = .ok w) :
    m.storeWord addr w = (m, .ok ()) := by
  obtain ⟨hcheck, rfl⟩ := loadWord_eq_ok_iff.mp h
  exact storeWord_eq_ok_iff.mpr ⟨hcheck, (setWord_word m _).symm⟩

/-! ### Rows of accesses -/

/-- Whether words can be accessed at several addresses, one after the other. -/
def checkWords (m : Memory) : List Word → Except Fault Unit
  | [] => .ok ()
  | addr :: addrs => do
    m.checkWord addr
    m.checkWords addrs

theorem checkWords_of_size_eq (h : m'.size = m.size) (addrs : List Word) :
    m'.checkWords addrs = m.checkWords addrs := by
  induction addrs with
  | nil => rfl
  | cons addr addrs ih => rw [checkWords, checkWords, checkWord_of_size_eq h, ih]

theorem exists_of_checkWords_eq_error {addrs : List Word} (h : m.checkWords addrs = .error fault) :
    ∃ addr ∈ addrs, m.checkWord addr = .error fault := by
  induction addrs with
  | nil => cases h
  | cons addr addrs ih =>
    rw [checkWords, Except.bind_eq_error_iff] at h
    obtain h | ⟨_, -, h⟩ := h
    · exact ⟨addr, List.mem_cons_self, h⟩
    · obtain ⟨addr', hmem, h⟩ := ih h
      exact ⟨addr', List.mem_cons_of_mem _ hmem, h⟩

/-- A row of loads is decided by the check of its addresses. -/
theorem map_loadWords (m : Memory) (addrs : List Word) :
    (m.loadWords addrs).map (fun _ => ()) = m.checkWords addrs := by
  induction addrs with
  | nil => rfl
  | cons addr addrs ih =>
    rw [loadWords, checkWords, ← ih, loadWord]
    cases m.checkWord addr with
    | error fault => rfl
    | ok _ => cases m.loadWords addrs <;> rfl

theorem size_storeWords (m : Memory) (writes : List (Word × Word)) :
    (m.storeWords writes).1.size = m.size := by
  induction writes generalizing m with
  | nil => rfl
  | cons write writes ih =>
    obtain ⟨addr, w⟩ := write
    have hfirst := size_storeWord m addr w
    rw [storeWords]
    rcases hstore : m.storeWord addr w with ⟨m₁, fault | _⟩
    · rwa [hstore] at hfirst
    · rw [hstore] at hfirst
      exact (ih m₁).trans hfirst

theorem size_of_storeWords {writes : List (Word × Word)} {result : Except Fault Unit}
    (h : m.storeWords writes = (m', result)) : m'.size = m.size := by
  have hsize := size_storeWords m writes
  rwa [h] at hsize

theorem size_storeBytes (m : Memory) (addr : Word) (bytes : List Byte) :
    (m.storeBytes addr bytes).1.size = m.size := by
  induction bytes generalizing m addr with
  | nil => rfl
  | cons b bytes ih =>
    have hfirst := size_storeByte m addr b
    rw [storeBytes]
    rcases hstore : m.storeByte addr b with ⟨m₁, fault | _⟩
    · rwa [hstore] at hfirst
    · rw [hstore] at hfirst
      exact (ih m₁ (addr + 1)).trans hfirst

/-- A row of stores is decided by the check of its addresses, whatever it stores. -/
theorem storeWords_snd (m : Memory) (writes : List (Word × Word)) :
    (m.storeWords writes).2 = m.checkWords (writes.map Prod.fst) := by
  induction writes generalizing m with
  | nil => rfl
  | cons write writes ih =>
    obtain ⟨addr, w⟩ := write
    have hsnd := storeWord_snd m addr w
    have hsize := size_storeWord m addr w
    rw [storeWords, List.map_cons, checkWords, ← hsnd]
    rcases hstore : m.storeWord addr w with ⟨m₁, fault | _⟩
    · rfl
    · rw [hstore] at hsize
      exact (ih m₁).trans (checkWords_of_size_eq hsize _)

theorem storeWords_cons_eq_ok_iff {write : Word × Word} {writes : List (Word × Word)} :
    m.storeWords (write :: writes) = (m', .ok ()) ↔
      ∃ m₁, m.storeWord write.1 write.2 = (m₁, .ok ()) ∧ m₁.storeWords writes = (m', .ok ()) := by
  obtain ⟨addr, w⟩ := write
  rw [storeWords]
  rcases m.storeWord addr w with ⟨m₁, fault | _⟩ <;> simp

/-- A row of stores is done up to the one that fails. -/
theorem storeWords_eq_error {writes : List (Word × Word)}
    (h : m.storeWords writes = (m', .error fault)) :
    ∃ j write, writes[j]? = some write ∧ m.storeWords (writes.take j) = (m', .ok ()) ∧
      m'.storeWord write.1 write.2 = (m', .error fault) := by
  induction writes generalizing m with
  | nil => cases h
  | cons write writes ih =>
    obtain ⟨addr, w⟩ := write
    rw [storeWords] at h
    rcases hstore : m.storeWord addr w with ⟨m₁, fault₁ | _⟩
    · rw [hstore] at h
      cases h
      obtain rfl := (storeWord_eq_error_iff.mp hstore).2
      exact ⟨0, _, rfl, rfl, hstore⟩
    · rw [hstore] at h
      obtain ⟨j, write, hj, hdone, hfail⟩ := ih h
      refine ⟨j + 1, write, hj, ?_, hfail⟩
      rw [List.take_succ_cons, storeWords, hstore]
      exact hdone

/-- A row of stores changes the bytes of its words only, also if it fails in the end. -/
theorem exists_address_of_byte_ne {writes : List (Word × Word)} {result : Except Fault Unit}
    (h : m.storeWords writes = (m', result)) (hne : m'.byte i ≠ m.byte i) :
    ∃ addr ∈ writes.map Prod.fst, addr.toNat ≤ i ∧ i < addr.toNat + 4 := by
  induction writes generalizing m with
  | nil =>
    cases h
    exact absurd rfl hne
  | cons write writes ih =>
    obtain ⟨addr, w⟩ := write
    rw [storeWords] at h
    rcases hfirst : m.storeWord addr w with ⟨m₁, fault | _⟩
    · rw [hfirst] at h
      cases h
      exact absurd (congrArg (byte · i) (storeWord_eq_error_iff.mp hfirst).2) hne
    · rw [hfirst] at h
      by_cases hin : addr.toNat ≤ i ∧ i < addr.toNat + 4
      · exact ⟨addr, List.mem_cons_self, hin⟩
      · obtain ⟨-, rfl⟩ := storeWord_eq_ok_iff.mp hfirst
        rw [← byte_setWord_of_outside m w (a := addr.toNat) (by omega)] at hne
        obtain ⟨addr', hmem, hin'⟩ := ih h hne
        exact ⟨addr', List.mem_cons_of_mem _ hmem, hin'⟩

/-- A word that none of the stores addresses is loaded as before. -/
theorem loadWord_of_storeWords {writes : List (Word × Word)} (hmem : addr ∉ writes.map Prod.fst)
    (hload : m.loadWord addr = .ok w) (h : m.storeWords writes = (m', .ok ())) :
    m'.loadWord addr = .ok w := by
  induction writes generalizing m with
  | nil =>
    cases h
    exact hload
  | cons write writes ih =>
    obtain ⟨m₁, hstore, hrest⟩ := storeWords_cons_eq_ok_iff.mp h
    obtain ⟨hne, hmem⟩ := not_or.mp (mt List.mem_cons.mpr hmem)
    refine ih hmem ?_ hrest
    have hout := outside_of_ne (loadWord_eq_ok_iff.mp hload).1 (storeWord_eq_ok_iff.mp hstore).1 hne
    have hword := loadWord_storeWord_of_outside (m := m) write.2 hout
    rw [hstore] at hword
    exact hword.trans hload

/-- Words that have been stored at different addresses are loaded again. -/
theorem loadWords_of_storeWords {writes : List (Word × Word)}
    (hdistinct : (writes.map Prod.fst).Nodup) (h : m.storeWords writes = (m', .ok ())) :
    m'.loadWords (writes.map Prod.fst) = .ok (writes.map Prod.snd) := by
  induction writes generalizing m with
  | nil => rfl
  | cons write writes ih =>
    obtain ⟨m₁, hstore, hrest⟩ := storeWords_cons_eq_ok_iff.mp h
    obtain ⟨hmem, hdistinct⟩ := List.nodup_cons.mp hdistinct
    have hfirst := loadWord_of_storeWords hmem (loadWord_of_storeWord hstore) hrest
    rw [List.map_cons, List.map_cons, loadWords, hfirst, Except.ok_bind, ih hdistinct hrest]
    rfl

/-- Words that are stored where they have been loaded from change nothing, also if some of them
are loaded several times. -/
theorem storeWords_zip_of_loadWords {addrs ws : List Word} (h : m.loadWords addrs = .ok ws) :
    m.storeWords (addrs.zip ws) = (m, .ok ()) := by
  induction addrs generalizing ws with
  | nil => rfl
  | cons addr addrs ih =>
    simp only [loadWords, Except.bind_eq_ok_iff] at h
    obtain ⟨w, hload, ws', hrest, h⟩ := h
    cases h
    exact storeWords_cons_eq_ok_iff.mpr ⟨m, storeWord_of_loadWord hload, ih hrest⟩

theorem length_of_loadWords {addrs ws : List Word} (h : m.loadWords addrs = .ok ws) :
    ws.length = addrs.length := by
  induction addrs generalizing ws with
  | nil =>
    cases h
    rfl
  | cons addr addrs ih =>
    simp only [loadWords, Except.bind_eq_ok_iff] at h
    obtain ⟨w, -, ws', hrest, h⟩ := h
    cases h
    exact congrArg Nat.succ (ih hrest)

end Memory

end TileCore

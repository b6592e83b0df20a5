import TileCore.Machine.Fault

/-!
# Memory

Memory is a row of bytes whose number never changes. Programs load and store whole words at
addresses that are multiples of four; bytes are stored one by one only when an image is loaded. An
access is checked for its alignment first and for its bounds second. A store hands back the memory
also when it fails, since of a row of stores the first ones may have been done.

## Main definitions

* `Memory`, with `Memory.zeros` and `Memory.ofImage`.
* `Memory.byte`, `Memory.word`: what stands at an address, without any check.
* `Memory.loadWord`, `Memory.storeWord`, `Memory.storeByte`: the checked accesses.
* `Memory.storeWords`, `Memory.storeBytes`: rows of stores, done until one fails.
-/

namespace TileCore

/-- The bytes from address zero on. -/
structure Memory where
  /-- The byte of every address. -/
  bytes : Array Byte
  deriving DecidableEq

namespace Memory

/-- The number of bytes. -/
def size (m : Memory) : Nat := m.bytes.size

/-- A memory of `n` zero bytes. -/
def zeros (n : Nat) : Memory := ⟨Array.replicate n 0⟩

/-- A memory of `n` bytes, or as many as the image has, with the image at address zero and zeros
behind it. -/
def ofImage (image : List Byte) (n : Nat) : Memory :=
  ⟨image.toArray ++ Array.replicate (n - image.length) 0⟩

/-- The byte at an address, zero beyond the end. -/
def byte (m : Memory) (a : Nat) : Byte := m.bytes.getD a 0

/-- The word whose bytes start at an address. -/
def word (m : Memory) (a : Nat) : Word :=
  Word.ofBytes (m.byte a) (m.byte (a + 1)) (m.byte (a + 2)) (m.byte (a + 3))

/-- The memory with one byte replaced; beyond the end nothing changes. -/
def setByte (m : Memory) (a : Nat) (b : Byte) : Memory := ⟨m.bytes.setIfInBounds a b⟩

/-- The memory with the four bytes of a word replaced. -/
def setWord (m : Memory) (a : Nat) (w : Word) : Memory :=
  (((m.setByte a (Word.byte w 0)).setByte (a + 1) (Word.byte w 1)).setByte (a + 2)
    (Word.byte w 2)).setByte (a + 3) (Word.byte w 3)

/-- The bytes from address `a` on, at most `n` and none beyond the end. -/
def extract (m : Memory) (a n : Nat) : List Byte := (m.bytes.extract a (a + n)).toList

@[simp] theorem size_zeros (n : Nat) : (zeros n).size = n := by simp [zeros, size]

theorem byte_zeros (n a : Nat) : (zeros n).byte a = 0 := by
  by_cases h : a < n <;> simp [byte, zeros, h]

@[simp] theorem size_ofImage (image : List Byte) (n : Nat) :
    (ofImage image n).size = max n image.length := by
  simp only [ofImage, size, Array.size_append, List.size_toArray, Array.size_replicate]
  omega

@[simp] theorem size_setByte (m : Memory) (a : Nat) (b : Byte) :
    (m.setByte a b).size = m.size := by
  simp [setByte, size]

@[simp] theorem size_setWord (m : Memory) (a : Nat) (w : Word) :
    (m.setWord a w).size = m.size := by
  simp [setWord]

theorem byte_setByte (m : Memory) (a : Nat) (b : Byte) (i : Nat) :
    (m.setByte a b).byte i = if i = a ∧ a < m.size then b else m.byte i := by
  by_cases h : i = a
  · subst h
    by_cases hi : i < m.bytes.size
    · simp [byte, setByte, size, hi]
    · simp [byte, setByte, size, hi]
  · have : a ≠ i := fun e => h e.symm
    simp [byte, setByte, h, this]

/-- Behind the image there are zeros, and beyond the end nothing is read but zeros. -/
theorem byte_ofImage (image : List Byte) (n a : Nat) :
    (ofImage image n).byte a = image.getD a 0 := by
  rw [byte, ofImage, Array.getD_eq_getD_getElem?, List.getD_eq_getElem?_getD,
    Array.getElem?_append]
  split
  · simp
  case isFalse h =>
    rw [List.size_toArray] at h
    rw [List.getElem?_eq_none (Nat.le_of_not_lt h), Array.getElem?_replicate]
    split <;> rfl

/-! ### Checked accesses -/

/-- Whether `len` bytes from an address on lie in memory. -/
def checkBounds (m : Memory) (addr : Word) (len : Nat) : Except Fault Unit :=
  if addr.toNat + len ≤ m.size then .ok () else .error (.outOfBounds addr len)

/-- Whether a word can be accessed at an address. -/
def checkWord (m : Memory) (addr : Word) : Except Fault Unit :=
  if addr.toNat % 4 = 0 then m.checkBounds addr 4 else .error (.misaligned addr)

/-- The word at an address. -/
def loadWord (m : Memory) (addr : Word) : Except Fault Word :=
  (m.checkWord addr).map fun _ => m.word addr.toNat

/-- Stores a word at an address. -/
def storeWord (m : Memory) (addr w : Word) : Memory × Except Fault Unit :=
  match m.checkWord addr with
  | .ok () => (m.setWord addr.toNat w, .ok ())
  | .error fault => (m, .error fault)

/-- Stores a byte at an address. -/
def storeByte (m : Memory) (addr : Word) (b : Byte) : Memory × Except Fault Unit :=
  match m.checkBounds addr 1 with
  | .ok () => (m.setByte addr.toNat b, .ok ())
  | .error fault => (m, .error fault)

/-- Loads words from several addresses. -/
def loadWords (m : Memory) : List Word → Except Fault (List Word)
  | [] => .ok []
  | addr :: addrs => do
    let w ← m.loadWord addr
    let ws ← m.loadWords addrs
    return w :: ws

/-- Stores words at their addresses, one after the other, until one store fails. -/
def storeWords (m : Memory) : List (Word × Word) → Memory × Except Fault Unit
  | [] => (m, .ok ())
  | (addr, w) :: writes =>
    match m.storeWord addr w with
    | (m, .ok ()) => m.storeWords writes
    | (m, .error fault) => (m, .error fault)

/-- Stores bytes from an address on, one after the other, until one store fails. -/
def storeBytes (m : Memory) (addr : Word) : List Byte → Memory × Except Fault Unit
  | [] => (m, .ok ())
  | b :: bytes =>
    match m.storeByte addr b with
    | (m, .ok ()) => m.storeBytes (addr + 1) bytes
    | (m, .error fault) => (m, .error fault)

end Memory

end TileCore

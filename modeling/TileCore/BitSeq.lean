import TileCore.Word

/-!
# Sequences of bits

A word taken apart is a list of its bits, the least significant first, so that the fields of an
instruction are slices of that list and a shift is a change at its ends. This module takes bytes
apart into bits and puts bits together into numbers, unsigned or in two's complement at the
length of the sequence.

## Main definitions

* `BitSeq.ofBytes`, `BitSeq.ofBytesWidth`, `BitSeq.ofWord`: bytes and words as bits.
* `BitSeq.value`, `BitSeq.signedValue`: bits as a number.
* `BitSeq.read`: at most 64 bits as the content of a signed 64-bit register.
* `BitSeq.slice`, `BitSeq.field`: the bits between two positions, both included.

## Main results

* `BitSeq.length_ofBytesWidth`: every byte gives as many bits as are taken of it.
* `BitSeq.value_lt`: a sequence of `n` bits is below `twoPow n`.
-/

namespace TileCore

/-- Bits, the least significant first. -/
abbrev BitSeq := List Bool

namespace BitSeq

/-- The low `width` bits of every byte. The last byte is the least significant one, so its bits
come first: element `i` is bit `i` of the big-endian number that the bytes spell. -/
def ofBytesWidth (width : Nat) (bytes : List Byte) : BitSeq :=
  bytes.reverse.flatMap fun b => (List.range width).map b.getLsbD

/-- All eight bits of every byte, the last byte first. -/
def ofBytes (bytes : List Byte) : BitSeq := ofBytesWidth 8 bytes

/-- The 32 bits of a word. -/
def ofWord (w : Word) : BitSeq := ofBytes (Word.toBytes w).reverse

/-- The unsigned number that the bits spell. -/
def value : BitSeq → Nat
  | [] => 0
  | b :: bits => b.toNat + 2 * value bits

/-- The number that the bits spell in two's complement: the last bit counts negatively. -/
def signedValue (bits : BitSeq) : Int :=
  if bits.getLast? = some true then (value bits : Int) - twoPow bits.length else value bits

/-- At most 64 bits as the content of a signed 64-bit register, sign-extended on request. An
unsigned reading of all 64 bits is still the content of a signed register. -/
def read (signed : Bool) (bits : BitSeq) : Int :=
  if signed then signedValue bits else (value bits : Int).bmod 0x10000000000000000

/-- The bits from position `lo` to position `hi`, both included. -/
def slice (bits : BitSeq) (lo hi : Nat) : BitSeq := (bits.drop lo).take (hi + 1 - lo)

/-- The bits from position `lo` to position `hi`, both included, as a word. -/
def field (bits : BitSeq) (lo hi : Nat) : Word := BitVec.ofNat 32 (value (slice bits lo hi))

/-- The word with the given bits; bits beyond the word are dropped. -/
def toWord (bits : BitSeq) : Word := BitVec.ofNat 32 (value bits)

theorem length_ofBytesWidth (width : Nat) (bytes : List Byte) :
    (ofBytesWidth width bytes).length = bytes.length * width := by
  induction bytes with
  | nil => simp [ofBytesWidth]
  | cons b bytes ih => simp_all [ofBytesWidth, Nat.succ_mul]

@[simp] theorem length_ofWord (w : Word) : (ofWord w).length = 32 := by
  simp [ofWord, ofBytes, length_ofBytesWidth]

theorem value_lt (bits : BitSeq) : value bits < twoPow bits.length := by
  induction bits with
  | nil => simp [value]
  | cons b bits ih =>
    have := Bool.toNat_le b
    simp only [value, List.length_cons, twoPow_succ]
    omega

end BitSeq

end TileCore

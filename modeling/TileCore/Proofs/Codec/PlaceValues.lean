import Mathlib.Algebra.BigOperators.Fin
import TileCore.Proofs.Codec.Bits
import TileCore.Proofs.Machine.ByteLayout

/-!
# Bits by their places

Bytes are taken apart with the last byte first, so that the bits of a sequence stand in the order of
their weight, whatever the number of bits that is taken of a byte. The number that a sequence spells
is the sum of its bits by the weight of their places. A signed 64-bit register in which this number
is put together holds it exactly as long as the sequence is short enough; a sequence that fills the
register is read in two's complement, whether this was asked for or not.

## Main definitions

* `BitSeq.inRegister`: the content of a register into which the bits are put one after the other.

## Main results

* `BitSeq.exists_getElem?_ofBytesWidth`, `BitSeq.ofBytesWidth_eq_reverse`: which bit of which byte
  stands where.
* `BitSeq.value_eq_sum`, `BitSeq.value_ofBytesWidth`: numbers as sums over places.
* `BitSeq.signedValue_eq_bmod`: two's complement as the remainder that is nearest to zero.
* `BitSeq.read_eq_inRegister`: what is read is what the register holds, corrected by the sign.
* `bits_have_place_values`: all of this together.
-/

namespace TileCore

/-- A sum over the places of a list, the first place apart. -/
theorem sum_places_cons {α : Type} (f : α → Nat → Nat) (x : α) (xs : List α) :
    ∑ i : Fin (x :: xs).length, f (x :: xs)[i] i =
      f x 0 + ∑ i : Fin xs.length, f xs[i] (i + 1) :=
  Fin.sum_univ_succ fun i : Fin (xs.length + 1) => f (x :: xs)[i] i

namespace BitSeq

/-! ### The order of the bits -/

theorem ofBytesWidth_cons (width : Nat) (b : Byte) (bytes : List Byte) :
    ofBytesWidth width (b :: bytes) =
      ofBytesWidth width bytes ++ (List.range width).map b.getLsbD := by
  simp [ofBytesWidth]

/-- Writing down every byte with its most significant bit first and turning the whole sequence round
gives the same bits. -/
theorem ofBytesWidth_eq_reverse (width : Nat) (bytes : List Byte) :
    ofBytesWidth width bytes =
      (bytes.flatMap fun b => (List.range width).reverse.map b.getLsbD).reverse := by
  simp only [ofBytesWidth, List.reverse_flatMap, Function.comp_def, List.map_reverse,
    List.reverse_reverse]

/-- Bits are counted from the end of the bytes. -/
theorem exists_getElem?_ofBytesWidth {width : Nat} {bytes : List Byte} {i : Nat}
    (h : i < bytes.length * width) :
    ∃ b, bytes[bytes.length - 1 - i / width]? = some b ∧
      (ofBytesWidth width bytes)[i]? = some (b.getLsbD (i % width)) := by
  have hwidth : 0 < width := Nat.pos_of_mul_pos_left (Nat.zero_lt_of_lt h)
  have hbyte : i / width < bytes.length := Nat.div_lt_of_lt_mul (by rwa [Nat.mul_comm])
  have hplace : bytes.length - 1 - i / width < bytes.length := Nat.sub_one_sub_lt_of_lt hbyte
  refine ⟨bytes[bytes.length - 1 - i / width], List.getElem?_eq_getElem hplace, ?_⟩
  have hbits := getElem?_flatMap_of_length (f := fun b : Byte => (List.range width).map b.getLsbD)
    (fun b => by simp) bytes.reverse (i / width) (Nat.mod_lt i hwidth)
  rw [Nat.div_add_mod, List.getElem?_reverse hbyte, List.getElem?_eq_getElem hplace] at hbits
  rw [ofBytesWidth, hbits]
  simp [Nat.mod_lt i hwidth]

/-! ### Numbers as sums -/

theorem value_lowBits (width : Nat) (b : Byte) :
    value ((List.range width).map b.getLsbD) = b.toNat % twoPow width := by
  refine Nat.eq_of_testBit_eq fun i => ?_
  have hpow : twoPow width = 2 ^ width := rfl
  rw [testBit_value, hpow, Nat.testBit_mod_two_pow, BitVec.testBit_toNat]
  by_cases h : i < width <;> simp [h]

theorem value_eq_sum (bits : BitSeq) :
    value bits = ∑ i : Fin bits.length, bits[i].toNat * twoPow i := by
  induction bits with
  | nil => rfl
  | cons b bits ih =>
    rw [sum_places_cons (fun b i => b.toNat * twoPow i) b bits, value, ih, Finset.mul_sum,
      twoPow_zero, Nat.mul_one]
    refine congrArg _ (Finset.sum_congr rfl fun i _ => ?_)
    rw [twoPow_succ, Nat.mul_left_comm]

/-- The first byte counts most, and every byte behind it is `width` places further down. -/
theorem value_ofBytesWidth (width : Nat) (bytes : List Byte) :
    value (ofBytesWidth width bytes) =
      ∑ j : Fin bytes.length,
        bytes[j].toNat % twoPow width * twoPow (width * (bytes.length - 1 - j)) := by
  induction bytes with
  | nil => rfl
  | cons b bytes ih =>
    have hplace (j : Nat) : bytes.length + 1 - 1 - (j + 1) = bytes.length - 1 - j := by omega
    rw [sum_places_cons (fun c j =>
        c.toNat % twoPow width * twoPow (width * ((b :: bytes).length - 1 - j))) b bytes,
      ofBytesWidth_cons, value_append, length_ofBytesWidth, value_lowBits, ih]
    simp only [List.length_cons, hplace]
    rw [Nat.add_comm, Nat.mul_comm, Nat.mul_comm bytes.length]
    rfl

/-! ### Signed numbers -/

/-- Reading in two's complement takes the remainder that is nearest to zero. -/
theorem signedValue_eq_bmod (bits : BitSeq) :
    signedValue bits = (value bits : Int).bmod (twoPow bits.length) := by
  rcases eq_or_ne bits [] with rfl | hne
  · rfl
  · obtain ⟨n, hn⟩ := Nat.exists_eq_succ_of_ne_zero (List.length_pos_iff.mpr hne).ne'
    have hlt := value_lt bits
    rw [hn, twoPow_succ] at hlt
    have hrest : (value bits : Int) % (2 * twoPow n : Nat) = value bits :=
      Int.emod_eq_of_lt (by omega) (by omega)
    rw [signedValue_eq hne, Int.bmod_def, hn, twoPow_succ, hrest, Nat.succ_sub_one]
    generalize twoPow n = half
    split_ifs <;> omega

/-- The weights of the places of a 64-bit register are at most that of its sign. -/
theorem twoPow_le_of_lt {n : Nat} (h : n < 64) : twoPow n ≤ 0x8000000000000000 :=
  Nat.pow_le_pow_right (by decide) (Nat.le_of_lt_succ h)

/-- Fewer than 64 bits leave the sign of a 64-bit register alone. -/
theorem read_false_of_length_lt {bits : BitSeq} (h : bits.length < 64) :
    read false bits = value bits := by
  have hweight := twoPow_le_of_lt h
  have hvalue := value_lt bits
  rw [read, if_neg (by decide)]
  exact Int.bmod_eq_of_le (by omega) (by omega)

/-! ### Registers -/

/-- The content of a 64-bit register into which the bits are put one after the other, each at its
place. -/
def inRegister (bits : BitSeq) : BitVec 64 :=
  bits.zipIdx.foldl (fun acc p => acc ||| (BitVec.ofBool p.1).setWidth 64 <<< p.2) 0

/-- Bits that are put in from place `k` on leave the places in front of it alone. -/
theorem getLsbD_foldl_zipIdx (bits : BitSeq) (k : Nat) (acc : BitVec 64) {i : Nat} (hi : i < 64) :
    ((bits.zipIdx k).foldl (fun acc p => acc ||| (BitVec.ofBool p.1).setWidth 64 <<< p.2)
        acc).getLsbD i = (acc.getLsbD i || (decide (k ≤ i) && bits.getD (i - k) false)) := by
  induction bits generalizing k acc with
  | nil => simp
  | cons b bits ih =>
    rw [List.zipIdx_cons, List.foldl_cons, ih]
    rcases Nat.lt_trichotomy i k with h | rfl | h
    · simp [h, Nat.not_le.mpr h, Nat.not_le.mpr (Nat.lt_succ_of_lt h)]
    · simp [hi]
    · have hplace : i - k = i - (k + 1) + 1 := by omega
      simp [hplace, Nat.le_of_lt h, Nat.succ_le_of_lt h]

theorem inRegister_eq (bits : BitSeq) : inRegister bits = BitVec.ofNat 64 (value bits) := by
  refine BitVec.eq_of_getLsbD_eq fun i hi => ?_
  rw [inRegister, getLsbD_foldl_zipIdx bits 0 0 hi, BitVec.getLsbD_ofNat, testBit_value]
  simp [hi]

theorem toInt_inRegister (bits : BitSeq) : (inRegister bits).toInt = read false bits := by
  have hsize : 2 ^ 64 = 0x10000000000000000 := rfl
  rw [inRegister_eq, BitVec.toInt_ofNat', hsize, read, if_neg (by decide)]

/-- Taking the weight of the next place off a register that is not full leaves the difference. -/
theorem toInt_inRegister_sub {bits : BitSeq} (h : bits.length < 64) :
    (inRegister bits - 1#64 <<< bits.length).toInt = (value bits : Int) - twoPow bits.length := by
  have hweight : ((1#64 <<< bits.length).toNat : Int) = twoPow bits.length := by
    rw [← BitVec.twoPow_eq, BitVec.toNat_twoPow_of_lt h]
    rfl
  have hbound := twoPow_le_of_lt h
  have hvalue := value_lt bits
  rw [BitVec.toInt_sub, toInt_inRegister, read_false_of_length_lt h,
    BitVec.toInt_eq_toNat_bmod (1#64 <<< _), hweight, Int.sub_bmod_bmod]
  exact Int.bmod_eq_of_le (by omega) (by omega)

/-- What is read is what the register holds. The weight of the sign is taken off if this was asked
for, and only from a register that is not full: in a full one the sign counts negatively anyway. -/
theorem read_eq_inRegister {bits : BitSeq} (h : bits.length ≤ 64) (signed : Bool) :
    read signed bits =
      (if signed = true ∧ bits.length < 64 ∧ bits.getLast? = some true then
        inRegister bits - 1#64 <<< bits.length else inRegister bits).toInt := by
  cases signed with
  | false => rw [if_neg (by simp), toInt_inRegister]
  | true =>
    rcases Nat.lt_or_eq_of_le h with hlt | hfull
    · by_cases hsign : bits.getLast? = some true
      · rw [if_pos ⟨rfl, hlt, hsign⟩, toInt_inRegister_sub hlt, read, if_pos rfl, signedValue,
          if_pos hsign]
      · rw [if_neg fun hall => hsign hall.2.2, toInt_inRegister, read_false_of_length_lt hlt, read,
          if_pos rfl, signedValue, if_neg hsign]
    · have hsize : twoPow 64 = 0x10000000000000000 := rfl
      rw [if_neg fun hall => Nat.ne_of_lt hall.2.1 hfull, toInt_inRegister, read, if_pos rfl,
        signedValue_eq_bmod, hfull, hsize, read, if_neg (by decide)]

end BitSeq

/-- Taking so many bits of each of some bytes gives the bits of the last byte first, the least
significant ones in front, and the number that they spell is the sum of what is taken of the bytes,
each by its place. Any bits are read as the sum of their weights; in two's complement the weight of
the next place is taken off this sum if the last bit is set, and in a full register it is read in
two's complement either way. -/
theorem bits_have_place_values :
    (∀ (width : Nat) (bytes : List Byte),
      (BitSeq.ofBytesWidth width bytes).length = bytes.length * width ∧
      (∀ i < bytes.length * width, ∃ b, bytes[bytes.length - 1 - i / width]? = some b ∧
        (BitSeq.ofBytesWidth width bytes)[i]? = some (b.getLsbD (i % width))) ∧
      (bytes.length * width ≤ 63 →
        (BitSeq.ofBytesWidth width bytes).read false =
          (∑ j : Fin bytes.length,
            bytes[j].toNat % twoPow width * twoPow (width * (bytes.length - 1 - j)) : Nat))) ∧
    ∀ bits : BitSeq,
      let sum := ∑ i : Fin bits.length, bits[i].toNat * twoPow i
      (bits.length ≤ 62 →
        bits.read false = sum ∧
        bits.read true =
          if bits.getLast? = some true then (sum : Int) - twoPow bits.length else sum) ∧
      (bits.length = 64 → ∀ signed, bits.read signed = (BitVec.ofNat 64 sum).toInt) := by
  refine ⟨fun width bytes => ⟨?_, fun i hi => ?_, fun h => ?_⟩, fun bits => ?_⟩
  · exact BitSeq.length_ofBytesWidth width bytes
  · exact BitSeq.exists_getElem?_ofBytesWidth hi
  · rw [BitSeq.read_false_of_length_lt, BitSeq.value_ofBytesWidth]
    rw [BitSeq.length_ofBytesWidth]
    omega
  · intro sum
    have hsum : bits.value = sum := BitSeq.value_eq_sum bits
    refine ⟨fun h => ⟨?_, ?_⟩, fun h signed => ?_⟩
    · rw [BitSeq.read_false_of_length_lt (by omega), hsum]
    · rw [BitSeq.read, if_pos rfl, BitSeq.signedValue, hsum]
    · rw [BitSeq.read_eq_inRegister (Nat.le_of_eq h), if_neg fun hall => Nat.ne_of_lt hall.2.1 h,
        BitSeq.inRegister_eq, hsum]

/-- The low halves of two bytes, a sequence that ends with its sign, and one that fills a
register. -/
theorem place_values_of_nibbles :
    (BitSeq.ofBytesWidth 4 [0xFA, 0x3B])[5]? = some true ∧
      (BitSeq.ofBytesWidth 4 [0xFA, 0x3B]).read false = 0xAB ∧
      BitSeq.read true [true, false, true] = -3 ∧
      BitSeq.read false (List.replicate 64 true) = -1 := by
  obtain ⟨-, hplace, hvalue⟩ := bits_have_place_values.1 4 [0xFA, 0x3B]
  obtain ⟨b, hb, hbit⟩ := hplace 5 (by decide)
  cases hb
  refine ⟨hbit, ?_, ?_, ?_⟩
  · exact (hvalue (by decide)).trans (by decide)
  · exact ((bits_have_place_values.2 [true, false, true]).1 (by decide)).2.trans (by decide)
  · exact ((bits_have_place_values.2 (List.replicate 64 true)).2 (by decide) false).trans
      (by decide)

end TileCore

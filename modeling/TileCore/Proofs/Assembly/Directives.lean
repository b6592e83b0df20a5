import TileCore.Proofs.Assembly.Alignment

/-!
# Directives of the data section

A line of the data section starts with a directive, and its values become bytes. Numbers become
bytes with the least significant byte first, in as many bytes as the directive says, so a number and
the number that differs from it by the size of the range are the same data. What a directive adds is
a relation here, with one case for each kind of directive; whoever asks for the bytes of a line goes
through it.

## Main definitions

* `littleEndian`: the bytes of a number.
* `Contributes`: what the directives of the data section add.

## Main results

* `toBytes_ofInt`, `take_toBytes_ofInt`: the bytes of words and halves.
* `dataBytes_eq_ok_iff`: data lines are read as `Contributes` says.
-/

namespace TileCore

open Text

/-! ### Bytes of numbers -/

/-- The `width` lowest bytes of a number, the least significant one first. -/
def littleEndian : Nat → Nat → List Byte
  | 0, _ => []
  | width + 1, n => BitVec.ofNat 8 n :: littleEndian width (n / 256)

/-- A field of a bit pattern that is a byte wide is a digit of its number. -/
theorem extractLsb'_eq_ofNat {k n : Nat} {x : BitVec k} (lo : Nat) (h : x.toNat >>> lo = n) :
    x.extractLsb' lo 8 = BitVec.ofNat 8 n := by
  refine BitVec.eq_of_toNat_eq ?_
  rw [BitVec.extractLsb'_toNat, h, BitVec.toNat_ofNat]

theorem toBytes_eq_littleEndian (w : Word) : Word.toBytes w = littleEndian 4 w.toNat := by
  have h₁ : w.toNat >>> (8 * 1) = w.toNat / 256 := by omega
  have h₂ : w.toNat >>> (8 * 2) = w.toNat / 256 / 256 := by omega
  have h₃ : w.toNat >>> (8 * 3) = w.toNat / 256 / 256 / 256 := by omega
  rw [Word.toBytes, Word.byte, Word.byte, Word.byte, Word.byte, extractLsb'_eq_ofNat (8 * 0) rfl,
    extractLsb'_eq_ofNat (8 * 1) h₁, extractLsb'_eq_ofNat (8 * 2) h₂,
    extractLsb'_eq_ofNat (8 * 3) h₃]
  rfl

/-- The bytes of a number of half precision. -/
theorem bytes_eq_littleEndian (x : Half) :
    [x.extractLsb' 0 8, x.extractLsb' 8 8] = littleEndian 2 x.toNat := by
  have h₁ : x.toNat >>> 8 = x.toNat / 256 := by omega
  rw [extractLsb'_eq_ofNat 0 rfl, extractLsb'_eq_ofNat 8 h₁]
  rfl

theorem toNat_ofInt_word (z : Int) : (BitVec.ofInt 32 z).toNat = (z % 0x100000000).toNat := by
  rw [BitVec.toNat_ofInt]
  rfl

/-- The bytes of a number in a word. -/
theorem toBytes_ofInt (z : Int) :
    Word.toBytes (BitVec.ofInt 32 z) = littleEndian 4 (z % 0x100000000).toNat := by
  rw [toBytes_eq_littleEndian, toNat_ofInt_word]

/-- A byte of a number is its rest. -/
theorem ofNat_byte_congr {m n : Nat} (h : m % 256 = n % 256) :
    BitVec.ofNat 8 m = BitVec.ofNat 8 n :=
  BitVec.eq_of_toNat_eq (by rwa [BitVec.toNat_ofNat, BitVec.toNat_ofNat])

/-- The bytes of a number in half a word. -/
theorem take_toBytes_ofInt (z : Int) :
    (Word.toBytes (BitVec.ofInt 32 z)).take 2 = littleEndian 2 (z % 0x10000).toNat := by
  have hlow : (z % 0x100000000).toNat % 256 = (z % 0x10000).toNat % 256 := by omega
  have hhigh : (z % 0x100000000).toNat / 256 % 256 = (z % 0x10000).toNat / 256 % 256 := by omega
  rw [toBytes_ofInt, littleEndian, littleEndian, littleEndian, littleEndian,
    ofNat_byte_congr hlow, ofNat_byte_congr hhigh]
  rfl

/-! ### Directives -/

/-- What a line of the data section adds behind `size` bytes of data, by its directive and the
values behind it. -/
inductive Contributes (size : Nat) (s : Text) : List Byte → Prop
  /-- Numbers of four bytes, signed or unsigned. -/
  | word {zs : List Int} (directive : (splitHead s).1 = ".word".toList)
      (values : List.Forall₂
        (fun op z => readImmediate? op = some z ∧ -0x80000000 ≤ z ∧ z < 0x100000000)
        (splitOperands (splitHead s).2) zs) :
      Contributes size s (zs.flatMap fun z => littleEndian 4 (z % 0x100000000).toNat)
  /-- Numbers of two bytes, signed or unsigned. -/
  | half {zs : List Int} (directive : (splitHead s).1 = ".half".toList)
      (values : List.Forall₂
        (fun op z => readImmediate? op = some z ∧ -0x8000 ≤ z ∧ z < 0x10000)
        (splitOperands (splitHead s).2) zs) :
      Contributes size s (zs.flatMap fun z => littleEndian 2 (z % 0x10000).toNat)
  /-- Numbers of half precision. -/
  | float {xs : List FloatingPoint.Literal} (directive : (splitHead s).1 = ".f16".toList)
      (values : List.Forall₂ (fun op x => FloatingPoint.Literal.ofText? op = some x)
        (splitOperands (splitHead s).2) xs) :
      Contributes size s (xs.flatMap fun x => littleEndian 2 (Single.ofLiteral x).toHalf.toNat)
  /-- A number of zeros. -/
  | space {n : Nat} (directive : (splitHead s).1 ∈ [".space".toList, ".zero".toList])
      (value : readImmediate? (trim (splitHead s).2) = some (n : Int)) :
      Contributes size s (List.replicate n 0)
  /-- The fewest zeros that bring the data to a multiple of a power of two. -/
  | align {n k : Nat} (directive : (splitHead s).1 = ".align".toList)
      (value : readImmediate? (trim (splitHead s).2) = some (n : Int)) (power : n.isPowerOfTwo)
      (aligned : n ∣ size + k) (fewest : ∀ k', n ∣ size + k' → k ≤ k') :
      Contributes size s (List.replicate k 0)

/-- Values are read one after the other. -/
theorem valueBytes_eq_ok_iff {α : Type} {bytesOf : Text → Except AssemblyCause (List Byte)}
    {R : Text → α → Prop} {f : α → List Byte}
    (h : ∀ value bytes, bytesOf value = .ok bytes ↔ ∃ a, R value a ∧ bytes = f a)
    {values : List Text} {bytes : List Byte} :
    valueBytes bytesOf values = .ok bytes ↔
      ∃ as, List.Forall₂ R values as ∧ bytes = as.flatMap f := by
  induction values generalizing bytes with
  | nil => simp [valueBytes, eq_comm]
  | cons value values ih =>
    simp only [valueBytes, Except.bind_eq_ok_iff, h, ih, List.forall₂_cons_left_iff]
    constructor
    · rintro ⟨_, ⟨a, ha, rfl⟩, _, ⟨as, has, rfl⟩, hsum⟩
      cases hsum
      exact ⟨a :: as, ⟨a, as, ha, has, rfl⟩, rfl⟩
    · rintro ⟨_, ⟨a, as, ha, has, rfl⟩, rfl⟩
      exact ⟨_, ⟨a, ha, rfl⟩, _, ⟨as, has, rfl⟩, rfl⟩

section Readers

variable {size : Nat} {directive value : Text} {bytes : List Byte}

theorem dataValue_eq_ok_iff {z : Int} :
    dataValue directive value = .ok z ↔ readImmediate? value = some z := by
  rw [dataValue]
  cases readImmediate? value <;> simp

theorem bind_dataValue_eq_ok_iff {low high : Int} {f : Int → List Byte}
    {cause : Int → AssemblyCause} :
    (dataValue directive value >>= fun z =>
        if low ≤ z ∧ z < high then pure (f z) else .error (cause z)) = .ok bytes ↔
      ∃ z, (readImmediate? value = some z ∧ low ≤ z ∧ z < high) ∧ bytes = f z := by
  simp only [Except.bind_eq_ok_iff, dataValue_eq_ok_iff, and_assoc]
  refine exists_congr fun z => and_congr_right fun _ => ?_
  split_ifs with hrange
  · simp [hrange, pure, Except.pure, eq_comm]
  · simp only [false_iff]
    exact fun h => hrange ⟨h.1, h.2.1⟩

theorem wordBytes_eq_ok_iff :
    wordBytes directive value = .ok bytes ↔
      ∃ z, (readImmediate? value = some z ∧ -0x80000000 ≤ z ∧ z < 0x100000000) ∧
        bytes = littleEndian 4 (z % 0x100000000).toNat := by
  simp only [← toBytes_ofInt]
  exact bind_dataValue_eq_ok_iff

theorem halfBytes_eq_ok_iff :
    halfBytes directive value = .ok bytes ↔
      ∃ z, (readImmediate? value = some z ∧ -0x8000 ≤ z ∧ z < 0x10000) ∧
        bytes = littleEndian 2 (z % 0x10000).toNat := by
  simp only [← take_toBytes_ofInt]
  exact bind_dataValue_eq_ok_iff

theorem floatBytes_eq_ok_iff :
    floatBytes directive value = .ok bytes ↔
      ∃ x, FloatingPoint.Literal.ofText? value = some x ∧
        bytes = littleEndian 2 (Single.ofLiteral x).toHalf.toNat := by
  rw [floatBytes]
  cases FloatingPoint.Literal.ofText? value with
  | none => simp
  | some x => simp [bytes_eq_littleEndian, eq_comm]

theorem spaceBytes_eq_ok_iff :
    spaceBytes directive value = .ok bytes ↔
      ∃ n : Nat, readImmediate? value = some (n : Int) ∧ bytes = List.replicate n 0 := by
  simp only [spaceBytes, Except.bind_eq_ok_iff, dataValue_eq_ok_iff]
  constructor
  · rintro ⟨z, hz, h⟩
    split_ifs at h with hneg
    cases h
    exact ⟨z.toNat, by rw [hz, Int.toNat_of_nonneg (by omega)], rfl⟩
  · rintro ⟨n, hn, rfl⟩
    exact ⟨n, hn, if_neg (by omega)⟩

/-- The fewest bytes up to a multiple are fewer than the alignment. -/
theorem fewest_iff {n k : Nat} (hn : 0 < n) (hk : n ∣ size + k) :
    (∀ k', n ∣ size + k' → k ≤ k') ↔ k < n := by
  constructor
  · intro hfewest
    by_contra hge
    have hback : size + k = size + (k - n) + n := by omega
    have hle := hfewest (k - n) ((Nat.dvd_add_left (Nat.dvd_refl n)).mp (hback ▸ hk))
    omega
  · intro hlt k' hk'
    by_contra hless
    have hdvd : n ∣ size + k - (size + k') := Nat.dvd_sub hk hk'
    have hle := Nat.le_of_dvd (by omega) hdvd
    omega

/-- Data lines are read by their directives. -/
theorem dataBytes_eq_ok_iff {s : Text} :
    dataBytes size s = .ok bytes ↔ Contributes size s bytes := by
  rcases hs : splitHead s with ⟨directive, rest⟩
  constructor
  · intro h
    simp only [dataBytes, hs] at h
    split_ifs at h with hword hhalf hfloat hspace halign
    · obtain ⟨zs, hzs, rfl⟩ := (valueBytes_eq_ok_iff fun _ _ => wordBytes_eq_ok_iff).mp h
      exact .word (by rw [hs, hword]) (by rwa [hs])
    · obtain ⟨zs, hzs, rfl⟩ := (valueBytes_eq_ok_iff fun _ _ => halfBytes_eq_ok_iff).mp h
      exact .half (by rw [hs, hhalf]) (by rwa [hs])
    · obtain ⟨xs, hxs, rfl⟩ := (valueBytes_eq_ok_iff fun _ _ => floatBytes_eq_ok_iff).mp h
      exact .float (by rw [hs, hfloat]) (by rwa [hs])
    · obtain ⟨n, hn, rfl⟩ := spaceBytes_eq_ok_iff.mp h
      have hmem : directive ∈ [".space".toList, ".zero".toList] := by
        rcases Bool.or_eq_true_iff.mp hspace with hdirective | hdirective
        · exact of_decide_eq_true hdirective ▸ List.mem_cons_self
        · exact of_decide_eq_true hdirective ▸ List.mem_cons_of_mem _ List.mem_cons_self
      exact .space (by rwa [hs]) (by rwa [hs])
    · obtain ⟨n, k, hn, hpow, hlt, hdvd, rfl⟩ := alignBytes_eq_ok_iff.mp h
      have hfewest := (fewest_iff (Nat.pos_of_isPowerOfTwo hpow) hdvd).mpr hlt
      exact .align (by rw [hs, halign]) (by rwa [hs]) hpow hdvd hfewest
  · intro h
    cases h with
    | word hword hzs =>
      rw [hs] at hword hzs
      obtain rfl : directive = _ := hword
      simp only [dataBytes, hs]
      exact (valueBytes_eq_ok_iff fun _ _ => wordBytes_eq_ok_iff).mpr ⟨_, hzs, rfl⟩
    | half hhalf hzs =>
      rw [hs] at hhalf hzs
      obtain rfl : directive = _ := hhalf
      simp only [dataBytes, hs]
      exact (valueBytes_eq_ok_iff fun _ _ => halfBytes_eq_ok_iff).mpr ⟨_, hzs, rfl⟩
    | float hfloat hxs =>
      rw [hs] at hfloat hxs
      obtain rfl : directive = _ := hfloat
      simp only [dataBytes, hs]
      exact (valueBytes_eq_ok_iff fun _ _ => floatBytes_eq_ok_iff).mpr ⟨_, hxs, rfl⟩
    | space hspace hn =>
      rw [hs] at hspace hn
      simp only [List.mem_cons, List.not_mem_nil, or_false] at hspace
      simp only [dataBytes, hs]
      rcases hspace with rfl | rfl
      · exact spaceBytes_eq_ok_iff.mpr ⟨_, hn, rfl⟩
      · exact spaceBytes_eq_ok_iff.mpr ⟨_, hn, rfl⟩
    | align halign hn hpow hdvd hfewest =>
      rw [hs] at halign hn
      obtain rfl : directive = _ := halign
      have hlt := (fewest_iff (Nat.pos_of_isPowerOfTwo hpow) hdvd).mp hfewest
      rw [dataBytes_of_align hs]
      exact alignBytes_eq_ok_iff.mpr ⟨_, _, hn, hpow, hlt, hdvd, rfl⟩

end Readers

/-- The words of a line. -/
theorem Contributes.eq_of_word {size : Nat} {s : Text} {bytes : List Byte}
    (h : Contributes size s bytes) (hword : (splitHead s).1 = ".word".toList) :
    ∃ zs, List.Forall₂
        (fun op z => readImmediate? op = some z ∧ -0x80000000 ≤ z ∧ z < 0x100000000)
        (splitOperands (splitHead s).2) zs ∧
      bytes = zs.flatMap fun z => littleEndian 4 (z % 0x100000000).toNat := by
  cases h with
  | word _ hzs => exact ⟨_, hzs, rfl⟩
  | half directive => exact absurd (hword.symm.trans directive) (by decide)
  | float directive => exact absurd (hword.symm.trans directive) (by decide)
  | space directive => exact absurd (hword ▸ directive) (by decide)
  | align directive => exact absurd (hword.symm.trans directive) (by decide)

end TileCore

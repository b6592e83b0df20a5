import TileCore.Proofs.Assembly.Sections

/-!
# Alignment of data

An alignment adds zero bytes until the number of bytes in the data section is a multiple of a power
of two. A label counts from the beginning of memory, where the data section starts at `0x200`. This
address is a multiple of every power of two up to itself, so up to there an aligned label stands at
a multiple of its alignment. A larger power of two divides the number of bytes only, and the address
of the label is not aligned.

## Main results

* `padding_eq_iff`: the padding is the one below the alignment that reaches a multiple of it.
* `alignBytes_eq_ok_iff`: what an alignment accepts and adds.
* `Layout.fitsIn_of_placeAll`: in lines that can be placed, each section accepts its statements.
* `labels_behind_alignments`: the bytes of an alignment and the addresses of the labels behind it.
-/

namespace TileCore

open Text

/-! ### Padding -/

/-- The padding is the one below the alignment that reaches a multiple of it. -/
theorem padding_eq_iff {size n k : Nat} (hn : 0 < n) :
    (-(size : Int) % n).toNat = k ↔ k < n ∧ n ∣ size + k := by
  have hlow : 0 ≤ -(size : Int) % n := Int.emod_nonneg _ (by omega)
  have hhigh : -(size : Int) % n < n := Int.emod_lt_of_pos _ (by omega)
  constructor
  · rintro rfl
    refine ⟨by omega, Int.natCast_dvd_natCast.mp ⟨-(-(size : Int) / n), ?_⟩⟩
    have hdef : -(size : Int) % n = -size - n * (-(size : Int) / n) := Int.emod_def _ _
    rw [Int.natCast_add, Int.toNat_of_nonneg hlow, Int.mul_neg]
    omega
  · rintro ⟨hk, q, hq⟩
    have hsum : (size : Int) + k = n * q := by exact_mod_cast hq
    have hsize : -(size : Int) = k + n * -(q : Int) := by
      rw [Int.mul_neg]
      omega
    rw [hsize, Int.add_mul_emod_self_left, Int.emod_eq_of_lt (by omega) (by omega)]
    rfl

theorem isPowerOfTwo_iff {n : Nat} : isPowerOfTwo n = true ↔ n.isPowerOfTwo := by
  rw [isPowerOfTwo, Bool.and_eq_true, bne_iff_ne, beq_iff_eq]
  constructor
  · rintro ⟨hne, hand⟩
    exact (Nat.and_sub_one_eq_zero_iff_isPowerOfTwo hne).mp hand
  · intro h
    have hne : n ≠ 0 := Nat.pos_iff_ne_zero.mp (Nat.pos_of_isPowerOfTwo h)
    exact ⟨hne, (Nat.and_sub_one_eq_zero_iff_isPowerOfTwo hne).mpr h⟩

/-- The start of the data is a multiple of a power of two up to itself. -/
theorem dvd_dataStart_iff {n : Nat} (h : n.isPowerOfTwo) : n ∣ dataStart ↔ n ≤ dataStart := by
  constructor
  · exact Nat.le_of_dvd (by decide)
  · intro hle
    obtain ⟨e, rfl⟩ := h
    have he : e ≤ 9 := (Nat.pow_le_pow_iff_right (by decide : 1 < 2)).mp hle
    exact Nat.pow_dvd_pow 2 he

/-- Behind data of an aligned number of bytes the address is aligned exactly if the start of the
data is. -/
theorem dvd_toNat_dataAddress_iff {n size : Nat} (hpow : n.isPowerOfTwo) (hdvd : n ∣ size) :
    n ∣ (dataAddress size).toNat ↔ n ≤ dataStart := by
  rw [← dvd_dataStart_iff hpow, dataAddress, BitVec.toNat_ofNat]
  obtain ⟨e, rfl⟩ := hpow
  rcases Nat.le_total e 32 with he | he
  · rw [Nat.dvd_mod_iff (Nat.pow_dvd_pow 2 he), Nat.dvd_add_left hdvd]
  · -- The data go round memory as a whole, and the address is that of their start.
    obtain ⟨rounds, rfl⟩ := Nat.dvd_trans (Nat.pow_dvd_pow 2 he) hdvd
    rw [Nat.add_mul_mod_self_left]
    rfl

/-- An alignment accepts the powers of two, and adds the zeros up to a multiple. -/
theorem alignBytes_eq_ok_iff {size : Nat} {directive value : Text} {bytes : List Byte} :
    alignBytes size directive value = .ok bytes ↔
      ∃ n k : Nat, readImmediate? value = some (n : Int) ∧ n.isPowerOfTwo ∧ k < n ∧
        n ∣ size + k ∧ bytes = List.replicate k 0 := by
  rw [alignBytes, dataValue]
  cases readImmediate? value with
  | none => exact ⟨nofun, fun ⟨n, k, h, _⟩ => nomatch h⟩
  | some z =>
    change (if isPowerOfTwo z.toNat = true then Except.ok _ else _) = _ ↔ _
    constructor
    · intro h
      split_ifs at h with hpow
      have hpos : 0 < z.toNat := Nat.pos_of_isPowerOfTwo (isPowerOfTwo_iff.mp hpow)
      have hz : z = (z.toNat : Int) := by omega
      obtain ⟨hlt, hdvd⟩ : _ < _ ∧ _ ∣ size + _ := (padding_eq_iff hpos).mp rfl
      rw [← hz] at hlt hdvd
      exact ⟨z.toNat, _, congrArg some hz, isPowerOfTwo_iff.mp hpow, hlt, hdvd,
        (Except.ok.inj h).symm⟩
    · rintro ⟨n, k, hread, hpow, hlt, hdvd, rfl⟩
      obtain rfl : z = (n : Int) := Option.some.inj hread
      rw [Int.toNat_natCast, if_pos (isPowerOfTwo_iff.mpr hpow),
        (padding_eq_iff (Nat.pos_of_isPowerOfTwo hpow)).mpr ⟨hlt, hdvd⟩]

/-! ### Labels -/

theorem dataBytes_of_align {size : Nat} {s rest : Text}
    (h : splitHead s = (".align".toList, rest)) :
    dataBytes size s = alignBytes size ".align".toList (trim rest) := by
  simp only [dataBytes, h]
  rfl

theorem SourceLine.statement_ne_nil_of_align {line : SourceLine} {rest : Text}
    (h : splitHead line.statement = (".align".toList, rest)) : line.statement ≠ [] := by
  intro hnil
  rw [hnil] at h
  cases h

namespace Layout

/-- What an alignment adds to the data. -/
theorem exists_bytes_of_align {l : Layout} {lines : List SourceLine} {j : Nat} {line : SourceLine}
    {rest : Text} (h : empty.placeAll lines = .ok l) (hj : lines[j]? = some line)
    (hregion : (Position.before lines j).region = .data)
    (hhead : splitHead line.statement = (".align".toList, rest)) :
    ∃ n k : Nat, readImmediate? (trim rest) = some (n : Int) ∧ n.isPowerOfTwo ∧ k < n ∧
      n ∣ (Position.before lines j).bytes + k ∧
      line.bytes (Position.before lines j).bytes .data = List.replicate k 0 := by
  have hne : line.statement ≠ [] := SourceLine.statement_ne_nil_of_align hhead
  have hfits := fitsIn_of_placeAll h hj hne
  rw [hregion] at hfits
  obtain ⟨bytes, hbytes⟩ := hfits
  have hadded := SourceLine.bytes_of_dataBytes hne hbytes
  rw [dataBytes_of_align hhead] at hbytes
  obtain ⟨n, k, hread, hpow, hlt, hdvd, rfl⟩ := alignBytes_eq_ok_iff.mp hbytes
  exact ⟨n, k, hread, hpow, hlt, hdvd, hadded⟩

end Layout

/-- An alignment adds fewer zero bytes than it aligns to, and the number of bytes behind it is a
multiple. The address of a label there, a word, is one exactly if the data start at a multiple. -/
theorem labels_behind_alignments {source : Text} {p : Program} (h : assemble source = .ok p) :
    ∃ l, Layout.ofLines (sourceLines source) = .ok l ∧
      ∀ j line rest, (sourceLines source)[j]? = some line →
        (Position.before (sourceLines source) j).region = .data →
        splitHead line.statement = (".align".toList, rest) →
        ∃ n k : Nat, readImmediate? (trim rest) = some (n : Int) ∧ n.isPowerOfTwo ∧ k < n ∧
          (∀ i < k, p.data[(Position.before (sourceLines source) j).bytes + i]? = some 0) ∧
          (Position.before (sourceLines source) (j + 1)).region = .data ∧
          (Position.before (sourceLines source) (j + 1)).bytes =
            (Position.before (sourceLines source) j).bytes + k ∧
          n ∣ (Position.before (sourceLines source) (j + 1)).bytes ∧
          ∀ j' line' label, (sourceLines source)[j']? = some line' →
            (Position.before (sourceLines source) j').region = .data →
            (Position.before (sourceLines source) j').bytes =
              (Position.before (sourceLines source) (j + 1)).bytes →
            line'.label? = some label →
            ∃ addr, l.labels.lookup label = some addr ∧
              addr = BitVec.ofNat 32
                (0x200 + (Position.before (sourceLines source) (j + 1)).bytes) ∧
              (n ∣ addr.toNat ↔ n ≤ 0x200) := by
  obtain ⟨l, hl⟩ := assemble_eq_ok_iff.mp h
  refine ⟨l, hl.layout, fun j line rest hj hregion hhead => ?_⟩
  obtain ⟨n, k, hread, hpow, hlt, hdvd, hbytes⟩ :=
    Layout.exists_bytes_of_align hl.placeAll hj hregion hhead
  have hnone := SourceLine.ofLine?_eq_none (SourceLine.statement_ne_nil_of_align hhead)
  have hsection : (Position.before (sourceLines source) (j + 1)).region = .data := by
    rw [Position.before_succ hj, Position.advance, hnone, hregion]
    rfl
  have hcount : (Position.before (sourceLines source) (j + 1)).bytes =
      (Position.before (sourceLines source) j).bytes + k := by
    rw [Position.before_succ hj, Position.advance, hregion, hbytes, List.length_replicate]
  rw [← hcount] at hdvd
  refine ⟨n, k, hread, hpow, hlt, fun i hi => ?_, hsection, hcount, hdvd,
    fun j' line' label hj' hregion' hsame hlabel => ?_⟩
  · have hbyte : (line.bytes (Position.before (sourceLines source) j).bytes
        (Position.before (sourceLines source) j).region)[i]? = some 0 := by
      rw [hregion, hbytes, List.getElem?_replicate, if_pos hi]
    rw [hl.data]
    exact Layout.getElem?_data hl.placeAll hj hbyte
  · have hlookup := (Layout.lookup_label hl.placeAll hj' hlabel).2
    rw [Position.address, hregion', hsame] at hlookup
    exact ⟨_, hlookup, rfl, dvd_toNat_dataAddress_iff hpow hdvd⟩

/-- Two bytes of data, and a word that is aligned behind them. -/
def alignedSource : Text := ".data\n.half 7\n.align 4\nv: .word -1\n.text\nlw x1, v(x0)".toList

/-- The program of the aligned word. -/
def alignedProgram : Program where
  code := [0x20402083]
  data := [7, 0, 0, 0, 255, 255, 255, 255]
  dataBase := 0x200

theorem labels_behind_alignments_of_word :
    assemble alignedSource = .ok alignedProgram ∧ alignedProgram.data[3]? = some 0 ∧
      ∃ l, Layout.ofLines (sourceLines alignedSource) = .ok l ∧
        l.labels.lookup "v".toList = some 0x204 ∧ 4 ∣ 0x204 := by
  have hp : assemble alignedSource = .ok alignedProgram := by decide +kernel
  have hlines : sourceLines alignedSource =
      [⟨1, ".data".toList⟩, ⟨2, ".half 7".toList⟩, ⟨3, ".align 4".toList⟩,
        ⟨4, "v: .word -1".toList⟩, ⟨5, ".text".toList⟩, ⟨6, "lw x1, v(x0)".toList⟩] := by
    decide +kernel
  obtain ⟨l, hl, halign⟩ := labels_behind_alignments hp
  rw [hlines] at halign
  obtain ⟨n, k, hread, -, -, hzeros, hregion, hcount, -, hlabels⟩ :=
    halign 2 _ "4".toList rfl (by decide +kernel) (by decide +kernel)
  obtain rfl : 4 = n := Int.ofNat.inj (Option.some.inj (hread.symm.trans (by decide +kernel))).symm
  obtain rfl : 2 = k := Nat.add_left_cancel (hcount.symm.trans (by decide +kernel)).symm
  obtain ⟨addr, hlookup, haddr, hiff⟩ :=
    hlabels 3 _ "v".toList rfl hregion rfl (by decide +kernel)
  obtain rfl : addr = 0x204 := haddr.trans (by decide +kernel)
  exact ⟨hp, hzeros 1 (by decide), l, hl, hlookup, hiff.mpr (by decide)⟩

/-- Behind an alignment to more than the start of the data stands a label that is not aligned. -/
theorem label_behind_large_alignment :
    assemble ".data\n.align 1024\nv: .word 1\n.text\nla a0, v".toList =
        .ok ⟨[0x00000537, 0x20050513], [1, 0, 0, 0], 0x200⟩ ∧
      (Layout.ofLines (sourceLines
          ".data\n.align 1024\nv: .word 1\n.text\nla a0, v".toList)).map (·.labels) =
        .ok [("v".toList, 0x200)] ∧
      ¬1024 ∣ 0x200 :=
  ⟨by decide +kernel, by decide +kernel, by decide⟩

end TileCore

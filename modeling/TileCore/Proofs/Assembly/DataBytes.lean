import TileCore.Proofs.Assembly.Directives
import TileCore.Proofs.Assembly.Image

/-!
# The bytes of data lines

The data of a program are put together from the lines of the data section, one after the other: what
a line adds stays where it is, whatever the lines behind it add. Since the address of a label was
given out by the same count, a word is found in memory at its distance from the label of its line.

## Main definitions

* `contributions`: what lines add to the data, line by line.

## Main results

* `Layout.At.data_eq`: the data are what the lines add.
* `Assembled.word_of_line`: the words of a line in memory.
* `data_of_directives`: the data of a program, and its words in memory.
-/

namespace TileCore

open Text

/-! ### The data of a program -/

/-- What lines add to the data, line by line, from a position on. -/
def contributions : (p : Position) → List SourceLine → List (List Byte)
  | _, [] => []
  | p, line :: lines => line.bytes p.bytes p.region :: contributions (p.advance line) lines

theorem length_contributions (p : Position) (lines : List SourceLine) :
    (contributions p lines).length = lines.length := by
  induction lines generalizing p with
  | nil => rfl
  | cons line lines ih => rw [contributions, List.length_cons, List.length_cons, ih]

/-- A line adds what it adds at the position that the lines before it have come to, and the bytes
there are those that these lines have added. -/
theorem getElem?_contributions {p : Position} {lines : List SourceLine} {j : Nat}
    {line : SourceLine} (hj : lines[j]? = some line) :
    (contributions p lines)[j]? = some (line.bytes ((lines.take j).foldl Position.advance p).bytes
        ((lines.take j).foldl Position.advance p).region) ∧
      p.bytes + ((contributions p lines).take j).flatten.length =
        ((lines.take j).foldl Position.advance p).bytes := by
  induction lines generalizing p j with
  | nil => cases hj
  | cons first lines ih =>
    cases j with
    | zero =>
      cases hj
      exact ⟨rfl, rfl⟩
    | succ j =>
      obtain ⟨hbytes, hlength⟩ := ih (p := p.advance first) hj
      have hadvance : (p.advance first).bytes = p.bytes + (first.bytes p.bytes p.region).length :=
        rfl
      refine ⟨hbytes, ?_⟩
      rw [List.take_succ_cons, List.foldl_cons, ← hlength, hadvance, contributions,
        List.take_succ_cons, List.flatten_cons, List.length_append, Nat.add_assoc]

theorem getElem?_contributions_start {lines : List SourceLine} {j : Nat} {line : SourceLine}
    (hj : lines[j]? = some line) :
    (contributions Position.start lines)[j]? =
        some (line.bytes (Position.before lines j).bytes (Position.before lines j).region) ∧
      ((contributions Position.start lines).take j).flatten.length =
        (Position.before lines j).bytes := by
  obtain ⟨hbytes, hlength⟩ := getElem?_contributions (p := Position.start) hj
  exact ⟨hbytes, (Nat.zero_add _).symm.trans hlength⟩

/-- The data are what the lines add, one after the other. -/
theorem Layout.At.data_eq {l l' : Layout} {p : Position} {lines : List SourceLine} (h : l.At p)
    (hplace : l.placeAll lines = .ok l') :
    l'.data.toList = l.data.toList ++ (contributions p lines).flatten := by
  induction lines generalizing l p with
  | nil =>
    cases hplace
    exact (List.append_nil _).symm
  | cons line lines ih =>
    obtain ⟨l₁, hline, hlines⟩ := placeAll_cons_eq_ok_iff.mp hplace
    have hplaced := placed_of_place hline
    rw [ih (h.advance hplaced) hlines, hplaced.data, contributions, List.flatten_cons,
      List.append_assoc, h.bytes, h.region]

/-- The bytes of a word that a line adds. -/
theorem getElem?_of_word {zs : List Int} {i k : Nat} {z : Int} (hz : zs[i]? = some z)
    (hk : k < 4) :
    (zs.flatMap fun z => littleEndian 4 (z % 0x100000000).toNat)[4 * i + k]? =
      some (Word.byte (BitVec.ofInt 32 z) k) := by
  simp only [← toBytes_ofInt]
  rw [getElem?_flatMap_of_length (fun z => Word.length_toBytes _) zs i hk, hz, Option.bind_some,
    Word.getElem?_toBytes _ hk]

namespace Assembled

variable {source : Text} {l : Layout} {p : Program} {j : Nat} {line : SourceLine}

/-- A line of the data section adds what its directive says. -/
theorem contributes (h : Assembled source l p) (hj : (sourceLines source)[j]? = some line)
    (hregion : (Position.before (sourceLines source) j).region = .data)
    (hne : line.statement ≠ []) :
    Contributes (Position.before (sourceLines source) j).bytes line.statement
      (line.bytes (Position.before (sourceLines source) j).bytes .data) := by
  have hfits := Layout.fitsIn_of_placeAll h.placeAll hj hne
  rw [hregion] at hfits
  obtain ⟨bytes, hbytes⟩ := hfits
  rw [SourceLine.bytes_of_dataBytes hne hbytes]
  exact dataBytes_eq_ok_iff.mp hbytes

/-- The bytes of the words of a line are in the data behind what the lines before it have added. -/
theorem getElem?_data_of_word (h : Assembled source l p)
    (hj : (sourceLines source)[j]? = some line)
    (hregion : (Position.before (sourceLines source) j).region = .data)
    (hword : (splitHead line.statement).1 = ".word".toList) {i k : Nat} {value : Text} {z : Int}
    (hvalue : (splitOperands (splitHead line.statement).2)[i]? = some value)
    (hz : readImmediate? value = some z) (hk : k < 4) :
    p.data[(Position.before (sourceLines source) j).bytes + 4 * i + k]? =
      some (Word.byte (BitVec.ofInt 32 z) k) := by
  have hne : line.statement ≠ [] := fun hnil => by
    rw [hnil] at hword
    cases hword
  obtain ⟨zs, hzs, hbytes⟩ := (h.contributes hj hregion hne).eq_of_word hword
  obtain ⟨z', hz', hread, -⟩ := exists_getElem?_of_forall₂ hzs hvalue
  obtain rfl : z' = z := Option.some.inj (hread.symm.trans hz)
  have hbyte := getElem?_of_word hz' hk
  rw [← hbytes, ← hregion] at hbyte
  rw [h.data, Nat.add_assoc]
  exact Layout.getElem?_data h.placeAll hj hbyte

/-- The label of a data line stands for the address of what the line adds. -/
theorem exists_lookup_label_of_data (h : Assembled source l p)
    (hsize : p.data.length < 0x100000000 - 0x200) (hj : (sourceLines source)[j]? = some line)
    (hregion : (Position.before (sourceLines source) j).region = .data) {label : Text}
    (hlabel : line.label? = some label) :
    ∃ addr, l.labels.lookup label = some addr ∧
      addr.toNat = 0x200 + (Position.before (sourceLines source) j).bytes := by
  have hlookup := (Layout.lookup_label h.placeAll hj hlabel).2
  rw [Position.address, hregion] at hlookup
  have hle := (Layout.before_le h.placeAll hj).2
  rw [h.size_data] at hle
  exact ⟨_, hlookup, toNat_dataAddress (Nat.lt_of_le_of_lt hle hsize)⟩

/-- The words of a line are in memory behind the address of what the line adds. -/
theorem word_of_line (h : Assembled source l p) (hj : (sourceLines source)[j]? = some line)
    (hregion : (Position.before (sourceLines source) j).region = .data)
    (hword : (splitHead line.statement).1 = ".word".toList) {i : Nat} {value : Text} {z : Int}
    (hvalue : (splitOperands (splitHead line.statement).2)[i]? = some value)
    (hz : readImmediate? value = some z) (size : Nat) :
    let addr := 0x200 + (Position.before (sourceLines source) j).bytes + 4 * i
    addr + 4 ≤ 0x200 + p.data.length ∧ addr + 4 ≤ (Memory.ofImage p.image size).size ∧
      (((Memory.ofImage p.image size).word addr).toNat : Int) = z % 0x100000000 := by
  have hbytes (k : Nat) (hk : k < 4) := h.getElem?_data_of_word hj hregion hword hvalue hz hk
  have hlast := (List.getElem?_eq_some_iff.mp (hbytes 3 (by decide))).1
  have hfront := h.code_le_dataStart
  rw [← h.dataBase] at hfront
  obtain ⟨hin, hmem⟩ := Program.word_of_data hfront size hbytes
  rw [h.dataBase, ← Nat.add_assoc] at hin hmem
  refine ⟨by omega, hin, ?_⟩
  rw [← dataStart, hmem, toNat_ofInt_word]
  omega

end Assembled

/-- The data of an assembled program are what the lines of the data section add, one after the
other, each as its directive says and whatever stands behind it. So the words of a line stand in
memory from the address of its label on. -/
theorem data_of_directives {source : Text} {p : Program} (h : assemble source = .ok p)
    (hsize : p.data.length < 0x100000000 - 0x200) :
    ∃ l pieces, Layout.ofLines (sourceLines source) = .ok l ∧ p.data = List.flatten pieces ∧
      pieces.length = (sourceLines source).length ∧
      ∀ j line, (sourceLines source)[j]? = some line →
        ∃ piece, pieces[j]? = some piece ∧
          ((Position.before (sourceLines source) j).region = .code ∨ line.statement = [] →
            piece = []) ∧
          ((Position.before (sourceLines source) j).region = .data → line.statement ≠ [] →
            Contributes (pieces.take j).flatten.length line.statement piece) ∧
          ∀ label, (Position.before (sourceLines source) j).region = .data →
            line.label? = some label → (splitHead line.statement).1 = ".word".toList →
            ∃ addr, l.labels.lookup label = some addr ∧
              ∀ i value z, (splitOperands (splitHead line.statement).2)[i]? = some value →
                readImmediate? value = some z →
                addr.toNat + 4 * i + 4 ≤ 0x100000000 ∧
                  ∀ control size,
                    let m := (Core.ofImage p.image control size).machine.memory
                    addr.toNat + 4 * i + 4 ≤ m.size ∧
                      ((m.word (addr.toNat + 4 * i)).toNat : Int) = z % 0x100000000 := by
  obtain ⟨l, hl⟩ := assemble_eq_ok_iff.mp h
  refine ⟨l, contributions Position.start (sourceLines source), hl.layout, ?_,
    length_contributions _ _, fun j line hj => ?_⟩
  · rw [hl.data, Layout.at_start.data_eq hl.placeAll]
    rfl
  obtain ⟨hpiece, hlength⟩ := getElem?_contributions_start hj
  refine ⟨_, hpiece, ?_, fun hregion hne => ?_, fun label hregion hlabel hword => ?_⟩
  · rintro (hregion | hnil)
    · rw [hregion]
      rfl
    · exact (Layout.additions_of_statement_eq_nil hnil _ _).2
  · rw [hlength, hregion]
    exact hl.contributes hj hregion hne
  · obtain ⟨addr, hlookup, haddr⟩ := hl.exists_lookup_label_of_data hsize hj hregion hlabel
    refine ⟨addr, hlookup, fun i value z hvalue hz => ?_⟩
    have hmemory := hl.word_of_line hj hregion hword hvalue hz
    rw [← haddr] at hmemory
    have hend := (hmemory 0).1
    exact ⟨by omega, fun control size => (hmemory size).2⟩

/-- Two words, a signed and an unsigned one, that are not aligned. -/
def wordSource : Text := ".data\n.half 7\nv: .word -2, 0xFFFFFFFF\n.space 1".toList

/-- The program of the two words. -/
def wordProgram : Program where
  code := []
  data := [7, 0, 254, 255, 255, 255, 255, 255, 255, 255, 0]
  dataBase := 0x200

theorem data_of_directives_of_words :
    assemble wordSource = .ok wordProgram ∧ wordProgram.data.length < 0x100000000 - 0x200 ∧
      ∃ l addr, Layout.ofLines (sourceLines wordSource) = .ok l ∧
        l.labels.lookup "v".toList = some addr ∧
        (((Core.ofImage wordProgram.image Control.default 0).machine.memory.word
          (addr.toNat + 4 * 0)).toNat : Int) = -2 % 0x100000000 ∧
        (((Core.ofImage wordProgram.image Control.default 0).machine.memory.word
          (addr.toNat + 4 * 1)).toNat : Int) = 0xFFFFFFFF % 0x100000000 := by
  have hp : assemble wordSource = .ok wordProgram := by decide +kernel
  have hsize : wordProgram.data.length < 0x100000000 - 0x200 := by decide
  have hlines : sourceLines wordSource =
      [⟨1, ".data".toList⟩, ⟨2, ".half 7".toList⟩, ⟨3, "v: .word -2, 0xFFFFFFFF".toList⟩,
        ⟨4, ".space 1".toList⟩] := by
    decide +kernel
  obtain ⟨l, pieces, hl, -, -, hpieces⟩ := data_of_directives hp hsize
  rw [hlines] at hpieces
  obtain ⟨_, -, -, -, hwords⟩ := hpieces 2 _ rfl
  obtain ⟨addr, haddr, hvalues⟩ :=
    hwords "v".toList (by decide +kernel) (by decide +kernel) (by decide +kernel)
  have hlow := hvalues 0 "-2".toList (-2) (by decide +kernel) (by decide +kernel)
  have hhigh := hvalues 1 "0xFFFFFFFF".toList 0xFFFFFFFF (by decide +kernel) (by decide +kernel)
  exact ⟨hp, hsize, l, addr, hl, haddr, (hlow.2 Control.default 0).2,
    (hhigh.2 Control.default 0).2⟩

end TileCore

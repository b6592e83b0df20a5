import TileCore.Proofs.Assembly.Lines
import TileCore.Proofs.Assembly.Sections

/-!
# Sources that are regrouped

A source may go back and forth between its sections. Written down section by section, it is
assembled to the same program, with the same address for every label. The first pass gives the
instructions and the data the same places, and writes down the same labels in another order; the
second pass asks for nothing but the addresses of labels, also where code names data that stand
further down; and whether code reaches into the place of the data is asked only when all lines have
been placed.

## Main definitions

* `regrouped`: a source section by section.

## Main results

* `readInstruction_congr`: an instruction is read by the addresses of labels.
* `Assembled.exists_of_linesIn_eq`: sources with the same sections are assembled alike.
* `regrouped_sections_assemble_alike`: a source is assembled like its sections one after the other.
-/

namespace TileCore

open Text

/-! ### Instructions are read by addresses -/

section Congr

variable {labels labels' : Labels} (h : ∀ label, labels.lookup label = labels'.lookup label)

include h

theorem lookupLabel_congr : lookupLabel labels = lookupLabel labels' := by
  funext name
  rw [lookupLabel, lookupLabel, h]

theorem resolveImmediate_congr : resolveImmediate labels = resolveImmediate labels' := by
  funext operand
  rw [resolveImmediate, resolveImmediate, lookupLabel_congr h]

theorem resolveTarget_congr : resolveTarget labels = resolveTarget labels' := by
  funext pc mnemonic bits operand
  rw [resolveTarget, resolveTarget, lookupLabel_congr h]

theorem resolveAddress_congr : resolveAddress labels = resolveAddress labels' := by
  funext operand
  rw [resolveAddress.eq_def, resolveAddress.eq_def, resolveImmediate_congr h]

theorem Mnemonic.read_congr : Mnemonic.read labels = Mnemonic.read labels' := by
  funext pc mnemonic m operands
  have himmediate : immediateOperand labels = immediateOperand labels' := by
    funext mnemonic op operand
    rw [immediateOperand, immediateOperand, resolveImmediate_congr h]
  rw [Mnemonic.read.eq_def, Mnemonic.read.eq_def, himmediate, resolveImmediate_congr h,
    resolveTarget_congr h, resolveAddress_congr h]

/-- An instruction is read by the addresses of labels, in whatever order they have been defined. -/
theorem readInstruction_congr : readInstruction labels = readInstruction labels' := by
  funext pc text
  rw [readInstruction, readInstruction, Mnemonic.read_congr h]

end Congr

/-! ### Layouts that agree in all places -/

namespace Layout

/-- Whether instructions are in the place of the data is decided by their addresses. -/
theorem overflow?_eq_none_iff {l : Layout} :
    l.overflow? = none ↔ l.data.toList.length = 0 ∨
      ∀ addr ∈ l.items.toList.map Item.address, addr.toNat < dataStart := by
  rw [overflow?, Array.length_toList, List.forall_mem_map]
  split_ifs with hdata
  · simp [hdata]
  · simp [hdata]

/-- The number of its line does not matter for the word of an item. -/
theorem encodeItems_eq_ok_iff_unnumbered {labels : Labels} {items : List Item} {ws : List Word} :
    encodeItems labels items = .ok ws ↔
      encodeItems labels (items.map Item.unnumbered) = .ok ws := by
  simp only [encodeItems_eq_ok_iff, List.forall₂_map_left_iff, Item.encode_eq_ok_iff]
  rfl

namespace Alike

variable {l l' : Layout}

theorem overflow?_eq_none (h : l.Alike l') (hover : l.overflow? = none) : l'.overflow? = none := by
  have haddresses : l.items.toList.map Item.address = l'.items.toList.map Item.address := by
    have hitems := congrArg (List.map Item.address) h.items
    rwa [List.map_map, List.map_map] at hitems
  rw [overflow?_eq_none_iff] at hover ⊢
  rwa [← h.data, ← haddresses]

/-- The second pass finds the same words. -/
theorem encodeItems_eq_ok (h : l.Alike l') {ws : List Word}
    (hws : encodeItems l.labels l.items.toList = .ok ws) :
    encodeItems l'.labels l'.items.toList = .ok ws := by
  rw [encodeItems_eq_ok_iff_unnumbered, h.items] at hws
  rw [encodeItems_eq_ok_iff_unnumbered]
  simp only [encodeItems_eq_ok_iff, Item.encode_eq_ok_iff] at hws ⊢
  rwa [readInstruction_congr h.lookup] at hws

end Alike

end Layout

/-- Sources with the same sections are assembled to the same program, with the same addresses of
labels. -/
theorem Assembled.exists_of_linesIn_eq {source source' : Text} {l : Layout} {p : Program}
    (h : Assembled source l p)
    (hlines : ∀ r, linesIn r .code ((sourceLines source).map SourceLine.text) =
      linesIn r .code ((sourceLines source').map SourceLine.text)) :
    ∃ l', Assembled source' l' p ∧ l.Alike l' := by
  obtain ⟨hplace, hover⟩ := Layout.ofLines_eq_ok_iff.mp h.layout
  obtain ⟨l', hplace', halike⟩ := Layout.exists_alike_of_linesIn_eq hlines hplace
  refine ⟨l', ⟨?_, halike.encodeItems_eq_ok h.code, h.data.trans halike.data, h.dataBase⟩, halike⟩
  exact Layout.ofLines_eq_ok_iff.mpr ⟨hplace', halike.overflow?_eq_none hover⟩

/-! ### Section by section -/

/-- The line that changes to a section. -/
def Region.directive : Region → Text
  | code => ".text".toList
  | data => ".data".toList

/-- The section beside a section. -/
def Region.other : Region → Region
  | code => data
  | data => code

/-- A source section by section, one statement a line. -/
def regrouped (first : Region) (source : Text) : Text :=
  let texts := (sourceLines source).map SourceLine.text
  List.intercalate ['\n'] (first.directive :: linesIn first .code texts ++
    first.other.directive :: linesIn first.other .code texts)

theorem Region.ofLine?_directive (region : Region) :
    Region.ofLine? region.directive = some region := by
  cases region <;> decide

theorem Region.isLine_directive (region : Region) : IsLine region.directive := by
  have htrim : trim region.directive = region.directive := by cases region <;> decide
  have hhash : '#' ∉ region.directive := by cases region <;> decide
  have hslash : '/' ∉ region.directive := by cases region <;> decide
  have hbreak : '\n' ∉ region.directive := by cases region <;> decide
  refine ⟨by cases region <;> decide, isUncommented_of_notMem hhash hslash, ?_, hbreak⟩
  rw [← htrim]
  exact isTrimmed_trim region.directive

/-- The lines of a regrouped source are the lines of its sections behind their directives. -/
theorem map_text_sourceLines_regrouped (first : Region) (source : Text) :
    (sourceLines (regrouped first source)).map SourceLine.text =
      first.directive :: linesIn first .code ((sourceLines source).map SourceLine.text) ++
        first.other.directive ::
          linesIn first.other .code ((sourceLines source).map SourceLine.text) := by
  have hlines : ∀ region, ∀ text ∈ region.directive ::
      linesIn region .code ((sourceLines source).map SourceLine.text), IsLine text := by
    intro region
    refine List.forall_mem_cons.mpr ⟨region.isLine_directive, fun text htext => ?_⟩
    obtain ⟨line, hline, rfl⟩ := List.mem_map.mp (of_mem_linesIn htext).1
    exact isLine_of_mem_sourceLines hline
  rw [regrouped]
  refine map_text_sourceLines_intercalate (List.forall_mem_append.mpr ⟨hlines first, ?_⟩) nofun
  exact hlines first.other

/-- Regrouping keeps the lines of each section, and their order. -/
theorem linesIn_regrouped (region first : Region) (source : Text) :
    linesIn region .code ((sourceLines (regrouped first source)).map SourceLine.text) =
      linesIn region .code ((sourceLines source).map SourceLine.text) := by
  have hnone : ∀ r, ∀ text ∈ linesIn r .code ((sourceLines source).map SourceLine.text),
      Region.ofLine? text = none := fun r text htext => (of_mem_linesIn htext).2
  have hlast : ∀ r, linesIn region r (linesIn r .code ((sourceLines source).map SourceLine.text)) =
      if r = region then linesIn r .code ((sourceLines source).map SourceLine.text) else [] := by
    intro r
    have happend : linesIn region r
        (linesIn r .code ((sourceLines source).map SourceLine.text) ++ []) = _ :=
      linesIn_append_of_none (hnone r) []
    rwa [linesIn, List.append_nil, List.append_nil] at happend
  rw [map_text_sourceLines_regrouped, List.cons_append,
    linesIn_cons_of_some first.ofLine?_directive, linesIn_append_of_none (hnone first),
    linesIn_cons_of_some first.other.ofLine?_directive, hlast]
  cases first <;> cases region <;> simp [Region.other]

/-- A source that is assembled is assembled to the same program when it is written down section by
section, the code first or the data first, one statement a line and without comments; and each label
has the same address. -/
theorem regrouped_sections_assemble_alike {source : Text} {p : Program}
    (h : assemble source = .ok p) (first : Region) :
    assemble (regrouped first source) = .ok p ∧
      ∃ l l', Layout.ofLines (sourceLines source) = .ok l ∧
        Layout.ofLines (sourceLines (regrouped first source)) = .ok l' ∧
          ∀ label, l'.labels.lookup label = l.labels.lookup label := by
  obtain ⟨l, hl⟩ := assemble_eq_ok_iff.mp h
  obtain ⟨l', hl', halike⟩ :=
    hl.exists_of_linesIn_eq fun r => (linesIn_regrouped r first source).symm
  exact ⟨assemble_eq_ok_iff.mpr ⟨l', hl'⟩, l, l', hl.layout, hl'.layout,
    fun label => (halike.lookup label).symm⟩

/-- Code that needs the address of data further down, between data that are aligned as a whole. -/
def interleavedSource : Text :=
  (".data\nfirst: .half 1 # one\n.text\n  la x5, last // two words\nback: bne x5, x0, back\n" ++
    ".data\n.align 4\nlast: .word 7\n.section .text\nhalt").toList

/-- The program of this source. -/
def interleavedProgram : Program where
  code := [0x000002B7, 0x20428293, 0x00029063, 0xFFFFFFFF]
  data := [1, 0, 0, 0, 7, 0, 0, 0]
  dataBase := 0x200

theorem regrouped_sections_assemble_alike_of_interleaved :
    assemble interleavedSource = .ok interleavedProgram ∧
      assemble (".text\nla x5, last\nback: bne x5, x0, back\nhalt\n" ++
        ".data\nfirst: .half 1\n.align 4\nlast: .word 7").toList = .ok interleavedProgram ∧
      assemble (".data\nfirst: .half 1\n.align 4\nlast: .word 7\n" ++
        ".text\nla x5, last\nback: bne x5, x0, back\nhalt").toList = .ok interleavedProgram := by
  have hp : assemble interleavedSource = .ok interleavedProgram := by decide +kernel
  have hcode : regrouped .code interleavedSource =
      (".text\nla x5, last\nback: bne x5, x0, back\nhalt\n" ++
        ".data\nfirst: .half 1\n.align 4\nlast: .word 7").toList := by decide +kernel
  have hdata : regrouped .data interleavedSource =
      (".data\nfirst: .half 1\n.align 4\nlast: .word 7\n" ++
        ".text\nla x5, last\nback: bne x5, x0, back\nhalt").toList := by decide +kernel
  rw [← hcode, ← hdata]
  exact ⟨hp, (regrouped_sections_assemble_alike hp .code).1,
    (regrouped_sections_assemble_alike hp .data).1⟩

end TileCore

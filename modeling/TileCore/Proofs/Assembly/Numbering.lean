import TileCore.Proofs.Assembly.Lines

/-!
# Lines and their numbers

A source is cut into lines, which are counted from one, and then the lines that say nothing are
left out. So the number of a statement is the place of its line among all lines, and two sources
are read alike if their lines say the same, one by one.

## Main definitions

* `remainder`: what is left of a line without its comment and the blanks around it.
* `writtenLines`, `ofWrittenLines`: the lines of a source as they are written, and a source that is
  written in given lines.

## Main results

* `writtenLines_ofWrittenLines`, `sourceLines_ofWrittenLines`: the lines of a source that is written
  in given lines.
* `numberLines_congr`: lines that say the same are read alike.
* `numberLines_append`: the lines behind others are counted from where these end.
* `exists_getElem?_of_mem_numberLines`, `pairwise_numberLines`: the numbers of lines.
-/

namespace TileCore

open Text

/-! ### Written lines -/

/-- What is left of a line without its comment and the blanks around it. -/
def remainder (line : Text) : Text := trim (stripComment line)

/-- The lines of a source as they are written. Behind a line break at the end of the source there is
one more line, which holds nothing. -/
def writtenLines (source : Text) : List Text := splitEach '\n' source

/-- The source that is written in the given lines. -/
def ofWrittenLines (lines : List Text) : Text := List.intercalate ['\n'] lines

theorem writtenLines_ne_nil (source : Text) : writtenLines source ≠ [] := by
  rw [writtenLines, splitEach_eq_splitOn]
  exact List.splitOn_ne_nil '\n' source

theorem notMem_of_mem_writtenLines {source line : Text} (h : line ∈ writtenLines source) :
    '\n' ∉ line :=
  notMem_of_mem_splitEach h

theorem writtenLines_ofWrittenLines {lines : List Text} (hbreak : ∀ line ∈ lines, '\n' ∉ line)
    (hne : lines ≠ []) : writtenLines (ofWrittenLines lines) = lines := by
  rw [ofWrittenLines, writtenLines, splitEach_eq_splitOn, List.splitOn_intercalate '\n' hbreak hne]

theorem sourceLines_ofWrittenLines {lines : List Text} (hbreak : ∀ line ∈ lines, '\n' ∉ line)
    (hne : lines ≠ []) : sourceLines (ofWrittenLines lines) = numberLines 1 lines := by
  rw [sourceLines, ← writtenLines, writtenLines_ofWrittenLines hbreak hne]

/-! ### Numbers -/

section Numbers

variable {number : Nat} {line : Text} {lines lines' : List Text}

/-- A line that says nothing is passed over. -/
theorem numberLines_cons_of_eq_nil (h : remainder line = []) :
    numberLines number (line :: lines) = numberLines (number + 1) lines := by
  rw [remainder] at h
  rw [numberLines, h]

/-- A line that says something is read with its number. -/
theorem numberLines_cons_of_ne_nil (h : remainder line ≠ []) :
    numberLines number (line :: lines) =
      ⟨number, remainder line⟩ :: numberLines (number + 1) lines := by
  rw [remainder] at h
  rw [numberLines]
  split
  · next hnil => exact absurd hnil h
  · rfl

/-- Lines that say the same are read alike. -/
theorem numberLines_congr (h : lines.map remainder = lines'.map remainder) :
    numberLines number lines = numberLines number lines' := by
  induction lines generalizing lines' number with
  | nil =>
    rw [List.map_nil, eq_comm, List.map_eq_nil_iff] at h
    rw [h]
  | cons line lines ih =>
    obtain ⟨line', lines', rfl, hline, hlines⟩ := List.map_eq_cons_iff.mp h.symm
    by_cases hnil : remainder line = []
    · rw [numberLines_cons_of_eq_nil hnil, numberLines_cons_of_eq_nil (hline.trans hnil),
        ih hlines.symm]
    · rw [numberLines_cons_of_ne_nil hnil, numberLines_cons_of_ne_nil (hline ▸ hnil), hline,
        ih hlines.symm]

/-- The lines behind others are counted from where these end. -/
theorem numberLines_append (lines lines' : List Text) :
    numberLines number (lines ++ lines') =
      numberLines number lines ++ numberLines (number + lines.length) lines' := by
  induction lines generalizing number with
  | nil => rfl
  | cons line lines ih =>
    have hlength : number + (line :: lines).length = number + 1 + lines.length := by
      rw [List.length_cons]
      omega
    rw [List.cons_append, hlength]
    by_cases hnil : remainder line = []
    · rw [numberLines_cons_of_eq_nil hnil, numberLines_cons_of_eq_nil hnil, ih]
    · rw [numberLines_cons_of_ne_nil hnil, numberLines_cons_of_ne_nil hnil, ih, List.cons_append]

/-- The number of a statement is the place of its line. -/
theorem exists_getElem?_of_mem_numberLines {l : SourceLine} (h : l ∈ numberLines number lines) :
    ∃ i line, lines[i]? = some line ∧ l.number = number + i ∧ l.text = remainder line ∧
      remainder line ≠ [] := by
  induction lines generalizing number with
  | nil => cases h
  | cons line lines ih =>
    have hrest (h : l ∈ numberLines (number + 1) lines) : ∃ i line', (line :: lines)[i]? =
        some line' ∧ l.number = number + i ∧ l.text = remainder line' ∧ remainder line' ≠ [] := by
      obtain ⟨i, line', hi, hnumber, htext⟩ := ih h
      exact ⟨i + 1, line', hi, by omega, htext⟩
    by_cases hnil : remainder line = []
    · rw [numberLines_cons_of_eq_nil hnil] at h
      exact hrest h
    · rw [numberLines_cons_of_ne_nil hnil] at h
      rcases List.mem_cons.mp h with rfl | h
      · exact ⟨0, line, rfl, rfl, rfl, hnil⟩
      · exact hrest h

/-- Statements are read in the order of their numbers. -/
theorem pairwise_numberLines :
    (numberLines number lines).Pairwise fun l l' => l.number < l'.number := by
  induction lines generalizing number with
  | nil => exact List.Pairwise.nil
  | cons line lines ih =>
    by_cases hnil : remainder line = []
    · rw [numberLines_cons_of_eq_nil hnil]
      exact ih
    · rw [numberLines_cons_of_ne_nil hnil]
      refine List.pairwise_cons.mpr ⟨fun l hl => ?_, ih⟩
      obtain ⟨i, -, -, hnumber, -⟩ := exists_getElem?_of_mem_numberLines hl
      change number < l.number
      omega

end Numbers

end TileCore

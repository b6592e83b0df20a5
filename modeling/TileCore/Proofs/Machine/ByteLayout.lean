import Mathlib.Tactic.SplitIfs
import TileCore.Tile

/-!
# Words and tiles as bytes

A tile can be read as sixteen numbers, as the eight words of its rows, or as 32 bytes. All three
only regroup the same bits, whatever numbers these stand for: the bytes of a tile are the bytes of
its words, one word after the other, and each of the three determines the tile.

## Main results

* `getElem?_flatMap_of_length`: an element of pieces of equal length that are put together.
* `Word.toBytes_ofBytes`, `Word.ofHalves_halves`: words from bytes and from halves.
* `Tile.rowWord_setRowWord`, `Tile.ext_rowWord`: the words of the rows.
* `Tile.words_ofWords`, `Tile.ofBytes_toBytes`, `Tile.toBytes_ofBytes`: tiles from words and bytes.
* `Tile.toBytes_eq`, `Tile.rowWord_ofBytes`: the bytes of a tile are those of its words.
-/

namespace TileCore

/-- Where an element of pieces of equal length stands that are put together. -/
theorem getElem?_flatMap_of_length {α β : Type} {f : α → List β} {n : Nat}
    (hf : ∀ x, (f x).length = n) (xs : List α) (k : Nat) {i : Nat} (hi : i < n) :
    (xs.flatMap f)[n * k + i]? = xs[k]?.bind fun x => (f x)[i]? := by
  induction xs generalizing k with
  | nil => rfl
  | cons x xs ih =>
    rw [List.flatMap_cons]
    cases k with
    | zero =>
      rw [Nat.mul_zero, Nat.zero_add]
      exact List.getElem?_append_left (by rwa [hf])
    | succ k =>
      have hskip : n * (k + 1) + i - n = n * k + i := by rw [Nat.mul_succ]; omega
      rw [List.getElem?_append_right (by rw [hf, Nat.mul_succ]; omega), hf, hskip]
      exact ih k

/-! ### Words -/

namespace Word

theorem getElem?_toBytes (w : Word) {k : Nat} (hk : k < 4) : (toBytes w)[k]? = some (byte w k) := by
  match k with
  | 0 | 1 | 2 | 3 => rfl

theorem toBytes_ofBytes (b₀ b₁ b₂ b₃ : Byte) :
    toBytes (ofBytes b₀ b₁ b₂ b₃) = [b₀, b₁, b₂, b₃] := by
  simp only [toBytes, byte, ofBytes, List.cons.injEq, and_true]
  refine ⟨?_, ?_, ?_, ?_⟩
  · rw [BitVec.extractLsb'_append_eq_of_add_le (by decide), BitVec.extractLsb'_eq_self]
  · rw [BitVec.extractLsb'_append_eq_of_le (by decide),
      BitVec.extractLsb'_append_eq_of_add_le (by decide), BitVec.extractLsb'_eq_self]
  · rw [BitVec.extractLsb'_append_eq_of_le (by decide),
      BitVec.extractLsb'_append_eq_of_le (by decide),
      BitVec.extractLsb'_append_eq_of_add_le (by decide), BitVec.extractLsb'_eq_self]
  · rw [BitVec.extractLsb'_append_eq_of_le (by decide),
      BitVec.extractLsb'_append_eq_of_le (by decide),
      BitVec.extractLsb'_append_eq_of_le (by decide), BitVec.extractLsb'_eq_self]

theorem ofHalves_halves (w : Word) : ofHalves (lowHalf w) (highHalf w) = w := by
  refine (BitVec.extractLsb'_append_extractLsb'_eq_extractLsb' (show 16 = 0 + 16 from rfl)).trans ?_
  exact BitVec.extractLsb'_eq_self

theorem toBytes_ofHalves (low high : BitVec 16) :
    toBytes (ofHalves low high) =
      [low.extractLsb' 0 8, low.extractLsb' 8 8, high.extractLsb' 0 8, high.extractLsb' 8 8] := by
  simp only [toBytes, byte, ofHalves, List.cons.injEq, and_true]
  refine ⟨?_, ?_, ?_, ?_⟩
  · exact BitVec.extractLsb'_append_eq_of_add_le (by decide)
  · exact BitVec.extractLsb'_append_eq_of_add_le (by decide)
  · exact BitVec.extractLsb'_append_eq_of_le (by decide)
  · exact BitVec.extractLsb'_append_eq_of_le (by decide)

end Word

/-! ### Tiles -/

namespace Tile

theorem rowWord_setRowWord (t : Tile) (row row' : Fin 4) (part part' : Fin 2) (w : Word) :
    (t.setRowWord row part w).rowWord row' part' =
      if row' = row ∧ part' = part then w else t.rowWord row' part' := by
  have hlow : 2 * part'.val / 2 = part'.val := by omega
  have hhigh : (2 * part'.val + 1) / 2 = part'.val := by omega
  have heven : 2 * part'.val % 2 = 0 := by omega
  have hodd : (2 * part'.val + 1) % 2 ≠ 0 := by omega
  simp only [rowWord, setRowWord, entry_ofEntries, hlow, hhigh, heven, hodd, Bool.and_eq_true,
    decide_eq_true_eq, if_true, if_false, Fin.val_inj]
  split_ifs
  · exact Word.ofHalves_halves w
  · rfl

/-- Tiles with the same words in their rows are the same. -/
theorem ext_rowWord {s t : Tile} (h : ∀ row part, s.rowWord row part = t.rowWord row part) :
    s = t := by
  rw [← ofWords_words s, ← ofWords_words t]
  exact congrArg ofWords (by simp only [words, h])

theorem rowWord_ofWords (ws : List Word) (row : Fin 4) (part : Fin 2) :
    (ofWords ws).rowWord row part = ws.getD (2 * row.val + part.val) 0 := by
  have hlow : 2 * part.val / 2 = part.val := by omega
  have hhigh : (2 * part.val + 1) / 2 = part.val := by omega
  have heven : 2 * part.val % 2 = 0 := by omega
  have hodd : (2 * part.val + 1) % 2 ≠ 0 := by omega
  simp only [rowWord, ofWords, entry_ofEntries, hlow, hhigh, heven, hodd, if_true, if_false]
  exact Word.ofHalves_halves _

theorem words_ofWords {ws : List Word} (h : ws.length = 8) : (ofWords ws).words = ws := by
  match ws, h with
  | [w₀, w₁, w₂, w₃, w₄, w₅, w₆, w₇], _ =>
    simp only [words, rowWord_ofWords]
    rfl

/-- The numbers of a tile, row by row. -/
theorem toList_elements (t : Tile) :
    t.elements.toList = (List.finRange 4).flatMap fun row =>
      [t.entry row 0, t.entry row 1, t.entry row 2, t.entry row 3] := by
  have hcells : t.elements = Vector.ofFn fun i : Fin 16 => t.elements[i] :=
    Vector.ofFn_getElem.symm
  rw [hcells, Vector.toList_ofFn]
  rfl

/-- The bytes of a tile are those of its words. -/
theorem toBytes_eq (t : Tile) : t.toBytes = t.words.flatMap Word.toBytes := by
  rw [toBytes, toList_elements, words, List.flatMap_assoc, List.flatMap_assoc]
  refine congrArg (List.finRange 4).flatMap (funext fun row => ?_)
  simp only [List.flatMap_cons, List.flatMap_nil, rowWord, Word.toBytes_ofHalves]
  rfl

theorem getElem?_toBytes (t : Tile) (row : Fin 4) (part : Fin 2) {k : Nat} (hk : k < 4) :
    t.toBytes[8 * row.val + 4 * part.val + k]? = some (Word.byte (t.rowWord row part) k) := by
  have hword : t.words[2 * row.val + part.val]? = some (t.rowWord row part) := by
    match row, part with
    | 0, 0 | 1, 0 | 2, 0 | 3, 0 | 0, 1 | 1, 1 | 2, 1 | 3, 1 => rfl
  have hplace : 8 * row.val + 4 * part.val + k = 4 * (2 * row.val + part.val) + k := by omega
  rw [toBytes_eq, hplace, getElem?_flatMap_of_length Word.length_toBytes _ _ hk, hword]
  exact Word.getElem?_toBytes _ hk

/-- The number whose bytes are given. -/
theorem entry_ofBytes (bytes : List Byte) (row col : Fin 4) :
    (ofBytes bytes).entry row col =
      bytes.getD (2 * (4 * row.val + col.val) + 1) 0 ++
        bytes.getD (2 * (4 * row.val + col.val)) 0 :=
  Vector.getElem_ofFn _

theorem rowWord_ofBytes (bytes : List Byte) (row : Fin 4) (part : Fin 2) :
    (ofBytes bytes).rowWord row part =
      Word.ofBytes (bytes.getD (8 * row.val + 4 * part.val) 0)
        (bytes.getD (8 * row.val + 4 * part.val + 1) 0)
        (bytes.getD (8 * row.val + 4 * part.val + 2) 0)
        (bytes.getD (8 * row.val + 4 * part.val + 3) 0) := by
  have hlow : 2 * (4 * row.val + 2 * part.val) = 8 * row.val + 4 * part.val := by omega
  have hhigh : 2 * (4 * row.val + (2 * part.val + 1)) = 8 * row.val + 4 * part.val + 2 := by omega
  simp only [rowWord, entry_ofBytes, hlow, hhigh, Word.ofHalves, Word.ofBytes]
  exact BitVec.append_assoc'

theorem ofBytes_toBytes (t : Tile) : ofBytes t.toBytes = t := by
  refine ext_rowWord fun row part => ?_
  have hbyte : ∀ k < 4, t.toBytes.getD (8 * row.val + 4 * part.val + k) 0 =
      Word.byte (t.rowWord row part) k := by
    intro k hk
    rw [List.getD_eq_getElem?_getD, getElem?_toBytes t row part hk, Option.getD_some]
  have hfirst := hbyte 0 (by decide)
  rw [Nat.add_zero] at hfirst
  rw [rowWord_ofBytes, hfirst, hbyte 1 (by decide), hbyte 2 (by decide), hbyte 3 (by decide),
    Word.ofBytes_toBytes]

theorem toBytes_ofBytes {bytes : List Byte} (h : bytes.length = 32) :
    (ofBytes bytes).toBytes = bytes := by
  have hbytes : (ofBytes bytes).toBytes = (List.range 32).map fun j => bytes.getD j 0 := by
    rw [toBytes_eq, words]
    simp only [List.flatMap_assoc, List.flatMap_cons, List.flatMap_nil, rowWord_ofBytes,
      Word.toBytes_ofBytes]
    rfl
  rw [hbytes]
  refine List.ext_getElem (by rw [List.length_map, List.length_range, h]) fun j _ hj => ?_
  rw [List.getElem_map, List.getElem_range, List.getD_eq_getElem?_getD, List.getElem?_eq_getElem hj,
    Option.getD_some]

end Tile

end TileCore

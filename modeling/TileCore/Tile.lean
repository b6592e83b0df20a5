import TileCore.FloatingPoint.Arithmetic
import TileCore.Word

/-!
# Tiles

A tile is a square of four by four numbers of half precision, the content of a tile register. In
memory a row is four numbers side by side, that is two words, each with the earlier number in its
low half.

## Main definitions

* `Tile`, with `Tile.entry`, `Tile.zero` and `Tile.identity`.
* `Tile.words`, `Tile.ofWords`: a tile as eight words, row by row.
* `Tile.toBytes`, `Tile.ofBytes`: a tile as 32 bytes.
* `Tile.fma`: product plus sum.
* `Tile.sameNumbers`: equality of all numbers.

## Main results

* `Tile.ofWords_words`: the words of a tile determine it.
-/

namespace TileCore

/-- Four rows of four numbers of half precision, row by row. -/
structure Tile where
  /-- The numbers, row by row. -/
  elements : Vector Half 16
  deriving DecidableEq

namespace Tile

/-- The tile of zeros. -/
def zero : Tile := ⟨Vector.replicate 16 0⟩

/-- The tile whose numbers are given by row and column. -/
def ofEntries (f : Fin 4 → Fin 4 → Half) : Tile :=
  ⟨Vector.ofFn fun i : Fin 16 => f ⟨i / 4, by omega⟩ ⟨i % 4, by omega⟩⟩

/-- The number in a row and a column. -/
def entry (t : Tile) (row col : Fin 4) : Half := t.elements[4 * row.val + col.val]

/-- The tile with ones on its diagonal and zeros elsewhere. -/
def identity : Tile := ofEntries fun i j => if i = j then Half.one else 0

@[simp] theorem entry_ofEntries (f : Fin 4 → Fin 4 → Half) (i j : Fin 4) :
    (ofEntries f).entry i j = f i j := by
  have hi : (4 * i.val + j.val) / 4 = i := by omega
  have hj : (4 * i.val + j.val) % 4 = j := by omega
  simp only [entry, ofEntries, Vector.getElem_ofFn, hi, hj]

theorem ext_entry {s t : Tile} (h : ∀ i j, s.entry i j = t.entry i j) : s = t := by
  obtain ⟨s⟩ := s
  obtain ⟨t⟩ := t
  congr 1
  refine Vector.ext fun i hi => ?_
  have key := h ⟨i / 4, by omega⟩ ⟨i % 4, by omega⟩
  simpa only [entry, show 4 * (i / 4) + i % 4 = i by omega] using key

/-! ### Words and bytes -/

/-- One of the two words of a row; its low half is the earlier number. -/
def rowWord (t : Tile) (row : Fin 4) (part : Fin 2) : Word :=
  Word.ofHalves (t.entry row ⟨2 * part, by omega⟩) (t.entry row ⟨2 * part + 1, by omega⟩)

/-- The tile with one of the two words of a row replaced. -/
def setRowWord (t : Tile) (row : Fin 4) (part : Fin 2) (w : Word) : Tile :=
  ofEntries fun i j =>
    if i = row && j.val / 2 = part.val then
      if j.val % 2 = 0 then Word.lowHalf w else Word.highHalf w
    else t.entry i j

/-- The eight words of a tile, row by row. -/
def words (t : Tile) : List Word :=
  (List.finRange 4).flatMap fun row => [t.rowWord row 0, t.rowWord row 1]

/-- The tile with the given eight words, row by row; missing words are zero. -/
def ofWords (ws : List Word) : Tile :=
  ofEntries fun i j =>
    let w := ws.getD (2 * i.val + j.val / 2) 0
    if j.val % 2 = 0 then Word.lowHalf w else Word.highHalf w

theorem ofWords_words (t : Tile) : ofWords t.words = t := by
  refine ext_entry fun i j => ?_
  obtain ⟨i, hi⟩ := i
  obtain ⟨j, hj⟩ := j
  rw [ofWords, entry_ofEntries]
  rcases i with _ | _ | _ | _ | i <;> rcases j with _ | _ | _ | _ | j <;> first
    | omega
    | simp [words, rowWord, List.finRange]

/-- The bytes of a tile, the low byte of every number first. -/
def toBytes (t : Tile) : List Byte :=
  t.elements.toList.flatMap fun x => [x.extractLsb' 0 8, x.extractLsb' 8 8]

/-- The tile with the given 32 bytes; missing bytes are zero. -/
def ofBytes (bytes : List Byte) : Tile :=
  ⟨Vector.ofFn fun i : Fin 16 => bytes.getD (2 * i.val + 1) 0 ++ bytes.getD (2 * i.val) 0⟩

/-! ### Numbers -/

/-- The tile of the nearest numbers to sixteen numbers of single precision, row by row. -/
def ofSingles (xs : Vector Single 16) : Tile := ⟨xs.map Single.toHalf⟩

/-- The numbers of a tile in single precision, row by row. -/
def toSingles (t : Tile) : Vector Single 16 := t.elements.map Half.toSingle

/-- The products of a row of `a` and a column of `b`, summed from left to right. The sum starts
from negative zero, which leaves every first product as it is. -/
def dot (a b : Tile) (row col : Fin 4) : Single :=
  (List.finRange 4).foldl
    (fun sum k => sum.add ((a.entry row k).toSingle.mul (b.entry k col).toSingle))
    Single.negativeZero

/-- The product of `a` and `b` plus `c`, formed in single precision and rounded to half precision
at the end. -/
def fma (a b c : Tile) : Tile :=
  ofEntries fun i j => ((dot a b i j).add (c.entry i j).toSingle).toHalf

/-- Whether two tiles hold equal numbers throughout. -/
def sameNumbers (s t : Tile) : Bool :=
  (List.finRange 4).all fun i => (List.finRange 4).all fun j =>
    (s.entry i j).sameNumber (t.entry i j)

end Tile

end TileCore

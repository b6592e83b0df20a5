import Mathlib.Data.List.Forall2
import TileCore.Assembly.Program
import TileCore.Proofs.Codec.Inverse

/-!
# What assembling a source comes to

A source is assembled in two passes. These lemmas say what the success of each pass means, so that
nothing else needs to look into them: the first pass has placed every line and found no instruction
in the place of the data, and the second one has found a word for every item, one after the other.

## Main definitions

* `Assembled`: a source, the places of its lines and its program.

## Main results

* `Layout.ofLines_eq_ok_iff`: the first pass.
* `encodeItems_eq_ok_iff`: the second pass gives each item its own word.
* `Item.encode_eq_ok_iff`: the word of an item is the one from which its instruction is decoded.
* `assemble_eq_ok_iff`: a source is assembled if both passes succeed.
-/

namespace TileCore

/-- The word of an item is the one from which its instruction is decoded. -/
theorem Item.encode_eq_ok_iff {labels : Labels} {item : Item} {w : Word} :
    item.encode labels = .ok w ↔
      ∃ i, readInstruction labels item.address item.text = .ok i ∧ decode w = .ok i := by
  rw [Item.encode]
  cases readInstruction labels item.address item.text with
  | error cause => simp
  | ok i =>
    simp only [Except.mapError_eq_ok_iff, Except.ok.injEq, exists_eq_left']
    exact Instruction.encode_eq_ok_iff

/-- The second pass gives each item its own word. -/
theorem encodeItems_eq_ok_iff {labels : Labels} {items : List Item} {ws : List Word} :
    encodeItems labels items = .ok ws ↔
      List.Forall₂ (fun item w => item.encode labels = .ok w) items ws := by
  induction items generalizing ws with
  | nil =>
    rw [encodeItems, Except.ok.injEq, List.forall₂_nil_left_iff, eq_comm]
  | cons item items ih =>
    simp only [encodeItems, Except.bind_eq_ok_iff, List.forall₂_cons_left_iff, ih]
    constructor
    · rintro ⟨w, hw, ws', hws, h⟩
      cases h
      exact ⟨w, ws', hw, hws, rfl⟩
    · rintro ⟨w, ws', hw, hws, rfl⟩
      exact ⟨w, hw, ws', hws, rfl⟩

/-- The first pass places every line and leaves the place of the data free of instructions. -/
theorem Layout.ofLines_eq_ok_iff {lines : List SourceLine} {l : Layout} :
    Layout.ofLines lines = .ok l ↔ Layout.empty.placeAll lines = .ok l ∧ l.overflow? = none := by
  rw [Layout.ofLines, Except.bind_eq_ok_iff]
  constructor
  · rintro ⟨l', hl', h⟩
    cases hover : l'.overflow? with
    | none =>
      rw [hover] at h
      cases h
      exact ⟨hl', hover⟩
    | some item =>
      rw [hover] at h
      cases h
  · rintro ⟨hl, hover⟩
    refine ⟨l, hl, ?_⟩
    rw [hover]
    rfl

/-- A source becomes a program, and its lines have been placed as the layout says. -/
structure Assembled (source : Text) (l : Layout) (p : Program) : Prop where
  /-- The first pass. -/
  layout : Layout.ofLines (sourceLines source) = .ok l
  /-- The second pass. -/
  code : encodeItems l.labels l.items.toList = .ok p.code
  /-- The data are those of the first pass. -/
  data : p.data = l.data.toList
  /-- They stand where data start. -/
  dataBase : p.dataBase = dataStart

/-- A source is assembled if both passes succeed. -/
theorem assemble_eq_ok_iff {source : Text} {p : Program} :
    assemble source = .ok p ↔ ∃ l, Assembled source l p := by
  simp only [assemble, Except.bind_eq_ok_iff]
  constructor
  · rintro ⟨l, hl, code, hcode, h⟩
    cases h
    exact ⟨l, hl, hcode, rfl, rfl⟩
  · rintro ⟨l, hl, hcode, hdata, hbase⟩
    obtain ⟨code, data, base⟩ := p
    subst hdata hbase
    exact ⟨l, hl, code, hcode, rfl⟩

namespace Assembled

variable {source : Text} {l : Layout} {p : Program}

theorem placeAll (h : Assembled source l p) :
    Layout.empty.placeAll (sourceLines source) = .ok l :=
  (Layout.ofLines_eq_ok_iff.mp h.layout).1

/-- The words of a program are those of its items. -/
theorem forall₂_encode (h : Assembled source l p) :
    List.Forall₂ (fun item w => item.encode l.labels = .ok w) l.items.toList p.code :=
  encodeItems_eq_ok_iff.mp h.code

theorem size_items (h : Assembled source l p) : l.items.size = p.code.length := by
  rw [← Array.length_toList]
  exact h.forall₂_encode.length_eq

theorem size_data (h : Assembled source l p) : l.data.size = p.data.length := by
  rw [h.data, Array.length_toList]

end Assembled

end TileCore

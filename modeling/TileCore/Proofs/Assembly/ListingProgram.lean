import TileCore.Proofs.Assembly.Lines
import TileCore.Proofs.Assembly.Programs
import TileCore.Proofs.Assembly.ReadBack

/-!
# Assembling a listing

The instructions of decodable words, listed one on a line, are assembled to these words again. A
listing has neither comments nor labels nor sections, so each of its lines is placed as the
instruction that it shows, and the address it is given does not matter.

## Main results

* `sourceLines_listingOf`: the lines of a listing are its instructions.
* `Layout.place_of_isListed`: a listed instruction is placed as it stands.
* `assemble_listingOf`: a listing is assembled to the words it was made from.
-/

namespace TileCore

open Text

/-! ### Lines -/

namespace IsListed

variable {i : Instruction} {text : Text}

theorem ne_nil (h : IsListed i text) : text ≠ [] := by
  intro hnil
  have := h.head
  rw [hnil] at this
  cases this

theorem notMem {c : Char} (h : IsListed i text)
    (hc : (isMnemonicChar c || isOperandChar c || c == ' ' || c == ',') = false) : c ∉ text :=
  fun hmem => absurd (h.chars c hmem) (by rw [hc]; decide)

/-- It begins with no dot. -/
theorem head?_ne_dot (h : IsListed i text) : text.head? ≠ some '.' := by
  intro hdot
  have := h.head
  rw [hdot] at this
  exact absurd this (by decide)

theorem isLine (h : IsListed i text) : IsLine text where
  ne_nil := h.ne_nil
  uncommented := isUncommented_of_notMem (h.notMem (by decide)) (h.notMem (by decide))
  trimmed := h.trimmed
  noBreak := h.notMem (by decide)

end IsListed

theorem sourceLines_listingOf {is : List Instruction} (h : ∀ i ∈ is, i.Fits) :
    (sourceLines (listingOf is)).map SourceLine.text = is.map Instruction.listing := by
  cases his : is with
  | nil => rfl
  | cons i rest =>
    rw [← his, listingOf]
    refine map_text_sourceLines_intercalate (fun text htext => ?_) ?_
    · obtain ⟨i, hi, rfl⟩ := List.mem_map.mp htext
      exact (isListed_listing (h i hi)).isLine
    · rw [his]
      exact List.cons_ne_nil _ _

/-! ### Places -/

theorem Region.ofLine?_eq_none {line : Text} (h : line.head? ≠ some '.') :
    Region.ofLine? line = none := by
  have hne (s : String) (hs : s.toList.head? = some '.') : ¬line = s.toList := by
    rintro rfl
    exact h hs
  rw [Region.ofLine?, decide_eq_false (hne ".text" (by decide)),
    decide_eq_false (hne ".section .text" (by decide)), decide_eq_false (hne ".data" (by decide)),
    decide_eq_false (hne ".section .data" (by decide))]
  rfl

namespace Layout

/-- A listed instruction is placed as it stands. -/
theorem place_of_isListed {l : Layout} {i : Instruction} {line : SourceLine} (hl : l.region = .code)
    (h : IsListed i line.text) : l.place line = .ok (l.push line.number line.text) := by
  have hlabel : l.placeLabel line.text = .ok (l, line.text) := by
    have hcolon : ∀ c ∈ line.text, (c == ':') = false := by
      intro c hc
      rw [beq_eq_false_iff_ne]
      rintro rfl
      exact h.notMem (by decide) hc
    rw [placeLabel, splitFirst?_eq_none hcolon]
  rw [place, Region.ofLine?_eq_none h.head?_ne_dot]
  simp only [hlabel, Except.ok_bind]
  rw [if_neg h.ne_nil, placeStatement, hl]
  simp only [if_neg h.head?_ne_dot, h.expand]
  rfl

/-- Listed instructions are placed one after the other. -/
theorem placeAll_of_isListed {l : Layout} {is : List Instruction} {lines : List SourceLine}
    (hl : l.region = .code) (h : List.Forall₂ IsListed is (lines.map SourceLine.text)) :
    ∃ l', l.placeAll lines = .ok l' ∧ l'.data = l.data ∧
      l'.items.toList.map Item.text =
        l.items.toList.map Item.text ++ lines.map SourceLine.text := by
  induction lines generalizing l is with
  | nil => exact ⟨l, rfl, rfl, (List.append_nil _).symm⟩
  | cons line lines ih =>
    obtain ⟨i, is, hi, his, rfl⟩ := List.forall₂_cons_right_iff.mp h
    obtain ⟨l', hplace, hdata, hitems⟩ := ih (l := l.push line.number line.text) hl his
    refine ⟨l', ?_, hdata, ?_⟩
    · rw [placeAll, place_of_isListed hl hi]
      exact hplace
    · rw [hitems, push]
      simp

end Layout

/-! ### Words -/

theorem fits_of_forall₂_decode {ws : List Word} {is : List Instruction}
    (h : List.Forall₂ (fun w i => decode w = .ok i) ws is) : ∀ i ∈ is, i.Fits := by
  induction h with
  | nil => exact fun i hi => absurd hi List.not_mem_nil
  | cons hw _ ih =>
    exact List.forall_mem_cons.mpr ⟨fits_of_encode (Instruction.encode_eq_ok_iff.mpr hw), ih⟩

/-- Items with listed texts get the words of the listed instructions. -/
theorem forall₂_encode_of_listing {ws : List Word} {is : List Instruction} {items : List Item}
    (h : List.Forall₂ (fun w i => decode w = .ok i) ws is)
    (hitems : items.map Item.text = is.map Instruction.listing) (labels : Labels) :
    List.Forall₂ (fun item w => item.encode labels = .ok w) items ws := by
  induction h generalizing items with
  | nil =>
    rw [List.map_nil, List.map_eq_nil_iff] at hitems
    rw [hitems]
    exact .nil
  | cons hw _ ih =>
    rw [List.map_cons, List.map_eq_cons_iff] at hitems
    obtain ⟨item, items, rfl, htext, hitems⟩ := hitems
    refine .cons ?_ (ih hitems)
    have hlisted := isListed_listing (fits_of_encode (Instruction.encode_eq_ok_iff.mpr hw))
    rw [Item.encode_eq_ok_iff, htext]
    exact ⟨_, hlisted.read labels item.address, hw⟩

/-- The listing of the instructions of decodable words is assembled to these words, without any
data. -/
theorem assemble_listingOf {ws : List Word} {is : List Instruction}
    (h : List.Forall₂ (fun w i => decode w = .ok i) ws is) :
    assemble (listingOf is) = .ok ⟨ws, [], dataStart⟩ := by
  have hfits := fits_of_forall₂_decode h
  have hlines := sourceLines_listingOf hfits
  have hlisted : List.Forall₂ IsListed is ((sourceLines (listingOf is)).map SourceLine.text) := by
    rw [hlines, List.forall₂_map_right_iff, List.forall₂_same]
    exact fun i hi => isListed_listing (hfits i hi)
  obtain ⟨l, hplace, hdata, hitems⟩ :=
    Layout.placeAll_of_isListed (l := Layout.empty) rfl hlisted
  rw [hlines] at hitems
  have hover : l.overflow? = none := by
    rw [Layout.overflow?, hdata]
    rfl
  rw [assemble_eq_ok_iff]
  refine ⟨l, Layout.ofLines_eq_ok_iff.mpr ⟨hplace, hover⟩, ?_, ?_, rfl⟩
  · exact encodeItems_eq_ok_iff.mpr (forall₂_encode_of_listing h hitems l.labels)
  · rw [hdata]
    rfl

theorem assemble_listing_of_loop :
    List.Forall₂ (fun w i => decode w = .ok i)
        [0x00A00293, 0x00512623, 0xFE029EE3, 0x339BFC47, 0xFFFFFFFF]
        [.aluImm .add 5 0 10, .store 2 5 12, .branch .bne 5 0 (-4), .tileLoad 3 7 6 (-8), .halt] ∧
      assemble (listingOf [.aluImm .add 5 0 10, .store 2 5 12, .branch .bne 5 0 (-4),
        .tileLoad 3 7 6 (-8), .halt]) =
        .ok ⟨[0x00A00293, 0x00512623, 0xFE029EE3, 0x339BFC47, 0xFFFFFFFF], [], dataStart⟩ := by
  have h : List.Forall₂ (fun w i => decode w = .ok i)
      [0x00A00293, 0x00512623, 0xFE029EE3, 0x339BFC47, 0xFFFFFFFF]
      [.aluImm .add 5 0 10, .store 2 5 12, .branch .bne 5 0 (-4), .tileLoad 3 7 6 (-8), .halt] :=
    .cons rfl (.cons rfl (.cons rfl (.cons rfl (.cons rfl .nil))))
  exact ⟨h, assemble_listingOf h⟩

end TileCore

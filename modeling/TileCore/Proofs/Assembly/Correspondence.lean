import TileCore.Proofs.Assembly.Regrouping

/-!
# Lines that correspond

Two sources whose lines correspond, one by one, are assembled alike. It is enough that two
corresponding lines have the same label and add the same data, and that the instructions which they
add correspond: the first pass then gives the same places to the lines of both, and if corresponding
instructions are read as the same one, the second pass finds the same words.

## Main definitions

* `SourceLine.Corresponds`: two lines with corresponding instructions and the same data.
* `Layout.Corresponds`: two layouts with corresponding instructions at the same addresses.
* `ReadsAs`: a text that is read as whatever instruction another one is read as.

## Main results

* `Layout.Corresponds.exists_placeAll`: corresponding lines are placed alike.
* `assemble_eq_ok_of_corresponds`: sources with corresponding lines become the same program.
-/

namespace TileCore

open Text

/-- A text is read as whatever instruction another one is read as. -/
def ReadsAs (text text' : Text) : Prop :=
  ∀ labels pc i, readInstruction labels pc text = .ok i → readInstruction labels pc text' = .ok i

theorem ReadsAs.refl (text : Text) : ReadsAs text text := fun _ _ _ h => h

theorem ReadsAs.trans {text text' text'' : Text} (h : ReadsAs text text')
    (h' : ReadsAs text' text'') : ReadsAs text text'' :=
  fun labels pc i hread => h' labels pc i (h labels pc i hread)

/-! ### Lines -/

theorem SourceLine.isTrimmed_statement {source : Text} {line : SourceLine}
    (h : line ∈ sourceLines source) : IsTrimmed line.statement := by
  rw [SourceLine.statement]
  cases Region.ofLine? line.text with
  | some region => exact isTrimmed_of_forall (List.forall_mem_nil _)
  | none =>
    cases splitFirst? (· == ':') line.text with
    | none => exact (isLine_of_mem_sourceLines h).trimmed
    | some parts => exact isTrimmed_trim parts.2

/-- The lines of two sources are related if statements without blanks at their ends are. -/
theorem forall₂_sourceLines_imp {R S : SourceLine → SourceLine → Prop} {source source' : Text}
    (h : ∀ line line', IsTrimmed line.statement → IsTrimmed line'.statement → R line line' →
      S line line')
    (hlines : List.Forall₂ R (sourceLines source) (sourceLines source')) :
    List.Forall₂ S (sourceLines source) (sourceLines source') := by
  obtain ⟨hlength, hzip⟩ := List.forall₂_iff_zip.mp hlines
  refine List.forall₂_iff_zip.mpr ⟨hlength, fun {line line'} hmem => ?_⟩
  obtain ⟨hleft, hright⟩ := List.of_mem_zip hmem
  exact h line line' (SourceLine.isTrimmed_statement hleft)
    (SourceLine.isTrimmed_statement hright) (hzip hmem)

/-- Two lines have the same label and section, and what one of them adds the other one adds as well,
with corresponding instructions. -/
structure SourceLine.Corresponds (R : Text → Text → Prop) (line line' : SourceLine) : Prop where
  /-- Both change the section in the same way or not at all. -/
  region : Region.ofLine? line.text = Region.ofLine? line'.text
  /-- Their labels agree. -/
  label : line.label? = line'.label?
  /-- Both say something besides, or neither of them does. -/
  nil_iff : line.statement = [] ↔ line'.statement = []
  /-- In the code they stand for corresponding instructions. -/
  code : ∀ texts, line.statement.head? ≠ some '.' → expand line.statement = .ok texts →
    line'.statement.head? ≠ some '.' ∧
      ∃ texts', expand line'.statement = .ok texts' ∧ List.Forall₂ R texts texts'
  /-- In the data they add the same bytes. -/
  data : ∀ size bytes, dataBytes size line.statement = .ok bytes →
    dataBytes size line'.statement = .ok bytes

/-- If a section accepts a line, it accepts a corresponding one, and both add the same. -/
theorem SourceLine.Corresponds.additions {R : Text → Text → Prop} {line line' : SourceLine}
    (h : line.Corresponds R line') {size : Nat} {region : Region}
    (hfits : line.statement = [] ∨ line.FitsIn size region) :
    (line'.statement = [] ∨ line'.FitsIn size region) ∧
      List.Forall₂ R (line.codeTexts region) (line'.codeTexts region) ∧
        line.bytes size region = line'.bytes size region := by
  by_cases hempty : line.statement = []
  · have hempty' := h.nil_iff.mp hempty
    obtain ⟨hcode, hbytes⟩ := Layout.additions_of_statement_eq_nil hempty region size
    obtain ⟨hcode', hbytes'⟩ := Layout.additions_of_statement_eq_nil hempty' region size
    rw [hcode, hcode', hbytes, hbytes']
    exact ⟨.inl hempty', .nil, rfl⟩
  · have hempty' := mt h.nil_iff.mpr hempty
    cases region with
    | code =>
      obtain ⟨hdot, texts, hexpand⟩ := hfits.resolve_left hempty
      obtain ⟨hdot', texts', hexpand', hsame⟩ := h.code texts hdot hexpand
      rw [codeTexts_of_expand hempty hexpand, codeTexts_of_expand hempty' hexpand']
      exact ⟨.inr ⟨hdot', texts', hexpand'⟩, hsame, rfl⟩
    | data =>
      obtain ⟨bytes, hbytes⟩ := hfits.resolve_left hempty
      have hbytes' := h.data size bytes hbytes
      rw [bytes_of_dataBytes hempty hbytes, bytes_of_dataBytes hempty' hbytes']
      exact ⟨.inr ⟨bytes, hbytes'⟩, .nil, rfl⟩

/-! ### Layouts -/

/-- Two items stand at the same address, and their instructions correspond. -/
def Item.Corresponds (R : Text → Text → Prop) (item item' : Item) : Prop :=
  item.address = item'.address ∧ R item.text item'.text

namespace Layout

/-- Two layouts differ in no more than that their instructions correspond. -/
structure Corresponds (R : Text → Text → Prop) (l l' : Layout) : Prop where
  /-- The sections agree. -/
  region : l.region = l'.region
  /-- The labels agree. -/
  labels : l.labels = l'.labels
  /-- The data agree. -/
  data : l.data = l'.data
  /-- The instructions correspond. -/
  items : List.Forall₂ (Item.Corresponds R) l.items.toList l'.items.toList

variable {R : Text → Text → Prop}

theorem corresponds_empty : empty.Corresponds R empty := ⟨rfl, rfl, rfl, .nil⟩

theorem forall₂_itemsFrom {texts texts' : List Text} (h : List.Forall₂ R texts texts')
    (place number number' : Nat) :
    List.Forall₂ (Item.Corresponds R) (itemsFrom place number texts)
      (itemsFrom place number' texts') := by
  induction h generalizing place with
  | nil => exact .nil
  | cons htext _ ih => exact .cons ⟨rfl, htext⟩ (ih (place + 1))

namespace Corresponds

variable {l l' : Layout}

theorem size_items (h : l.Corresponds R l') : l.items.size = l'.items.size := by
  have hlength := h.items.length_eq
  rwa [Array.length_toList, Array.length_toList] at hlength

theorem here_eq (h : l.Corresponds R l') : l.here = l'.here := by
  rw [here, here, h.region, h.size_items, h.data]

/-- A line that corresponds to one that can be placed can be placed, and does the same. -/
theorem exists_place {line line' : SourceLine} {l₁ : Layout} (h : l.Corresponds R l')
    (hline : line.Corresponds R line') (hplace : l.place line = .ok l₁) :
    ∃ l₁', l'.place line' = .ok l₁' ∧ l₁.Corresponds R l₁' := by
  cases hregion : Region.ofLine? line.text with
  | some region =>
    have hregion' := hline.region ▸ hregion
    rw [place_of_some hregion] at hplace
    cases hplace
    exact ⟨_, place_of_some hregion', rfl, h.labels, h.data, h.items⟩
  | none =>
    have hregion' := hline.region ▸ hregion
    obtain ⟨hlabel, hfits⟩ := (exists_place_iff hregion).mp ⟨l₁, hplace⟩
    obtain ⟨hfits', hcode, hbytes⟩ := hline.additions hfits
    rw [hline.label, h.labels] at hlabel
    rw [h.data, h.region] at hfits'
    obtain ⟨l₁', hplace'⟩ := (exists_place_iff hregion').mpr ⟨hlabel, hfits'⟩
    have hplaced := placed_of_place hplace
    have hplaced' := placed_of_place hplace'
    refine ⟨l₁', hplace', ?_, ?_, ?_, ?_⟩
    · rw [region_of_place hregion hplace, region_of_place hregion' hplace', h.region]
    · cases hnew : line.label? with
      | none =>
        rw [hplaced.labels_of_none hnew, hplaced'.labels_of_none (hline.label ▸ hnew), h.labels]
      | some label =>
        obtain ⟨-, -, hlabels⟩ := hplaced.labels_of_some label hnew
        obtain ⟨-, -, hlabels'⟩ := hplaced'.labels_of_some label (hline.label ▸ hnew)
        rw [hlabels, hlabels', h.here_eq, h.labels]
    · refine Array.toList_inj.mp ?_
      rw [hplaced.data, hplaced'.data, ← h.data, ← h.region, hbytes]
    · rw [hplaced.items, hplaced'.items, ← h.size_items, ← h.region]
      exact List.rel_append h.items (forall₂_itemsFrom hcode _ _ _)

/-- Corresponding lines are placed alike. -/
theorem exists_placeAll {lines lines' : List SourceLine} {l₁ : Layout} (h : l.Corresponds R l')
    (hlines : List.Forall₂ (SourceLine.Corresponds R) lines lines')
    (hplace : l.placeAll lines = .ok l₁) :
    ∃ l₁', l'.placeAll lines' = .ok l₁' ∧ l₁.Corresponds R l₁' := by
  induction hlines generalizing l l' with
  | nil =>
    cases hplace
    exact ⟨l', rfl, h⟩
  | cons hline _ ih =>
    obtain ⟨l₂, hfirst, hothers⟩ := placeAll_cons_eq_ok_iff.mp hplace
    obtain ⟨l₂', hfirst', hsecond⟩ := h.exists_place hline hfirst
    obtain ⟨l₁', hothers', hlast⟩ := ih hsecond hothers
    exact ⟨l₁', placeAll_cons_eq_ok_iff.mpr ⟨l₂', hfirst', hothers'⟩, hlast⟩

theorem overflow?_eq_none (h : l.Corresponds R l') (hover : l.overflow? = none) :
    l'.overflow? = none := by
  have haddresses : l.items.toList.map Item.address = l'.items.toList.map Item.address := by
    rw [← List.forall₂_eq_eq_eq, List.forall₂_map_left_iff, List.forall₂_map_right_iff]
    exact h.items.imp fun _ _ hitem => hitem.1
  rw [overflow?_eq_none_iff] at hover ⊢
  rwa [← h.data, ← haddresses]

theorem mono {R' : Text → Text → Prop} (hR : ∀ text text', R text text' → R' text text')
    (h : l.Corresponds R l') : l.Corresponds R' l' :=
  ⟨h.region, h.labels, h.data, h.items.imp fun _ _ hitem => ⟨hitem.1, hR _ _ hitem.2⟩⟩

end Corresponds

end Layout

/-- Corresponding items have the same word, if their instructions are read as the same ones. -/
theorem Item.Corresponds.encode_eq_ok {item item' : Item} (h : item.Corresponds ReadsAs item')
    {labels : Labels} {w : Word} (hw : item.encode labels = .ok w) :
    item'.encode labels = .ok w := by
  obtain ⟨i, hread, hdecode⟩ := Item.encode_eq_ok_iff.mp hw
  rw [h.1] at hread
  exact Item.encode_eq_ok_iff.mpr ⟨i, h.2 labels _ i hread, hdecode⟩

/-- The second pass finds the same words. -/
theorem encodeItems_eq_ok_of_corresponds {labels : Labels} {items items' : List Item}
    {ws : List Word} (h : List.Forall₂ (Item.Corresponds ReadsAs) items items')
    (hws : encodeItems labels items = .ok ws) : encodeItems labels items' = .ok ws := by
  rw [encodeItems_eq_ok_iff] at hws ⊢
  induction h generalizing ws with
  | nil =>
    cases hws
    exact .nil
  | cons hitem _ ih =>
    cases hws with
    | cons hw hrest => exact .cons (hitem.encode_eq_ok hw) (ih hrest)

/-- Sources with corresponding lines become the same program. -/
theorem assemble_eq_ok_of_corresponds {R : Text → Text → Prop}
    (hR : ∀ text text', R text text' → ReadsAs text text') {source source' : Text} {p : Program}
    (hlines : List.Forall₂ (SourceLine.Corresponds R) (sourceLines source) (sourceLines source'))
    (h : assemble source = .ok p) : assemble source' = .ok p := by
  obtain ⟨l, hl⟩ := assemble_eq_ok_iff.mp h
  obtain ⟨hplace, hover⟩ := Layout.ofLines_eq_ok_iff.mp hl.layout
  obtain ⟨l', hplace', hsame⟩ := Layout.corresponds_empty.exists_placeAll hlines hplace
  have hcode := encodeItems_eq_ok_of_corresponds (hsame.mono hR).items hl.code
  rw [hsame.labels] at hcode
  refine assemble_eq_ok_iff.mpr ⟨l', ?_, hcode, ?_, hl.dataBase⟩
  · exact Layout.ofLines_eq_ok_iff.mpr ⟨hplace', hsame.overflow?_eq_none hover⟩
  · rw [hl.data, hsame.data]

end TileCore

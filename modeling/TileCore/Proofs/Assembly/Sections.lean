import Mathlib.Logic.Function.Basic
import TileCore.Proofs.Assembly.Placement

/-!
# Sections on their own

The lines of the two sections may alternate, but each section is placed as if the other one were not
there. Code is counted in words and data in bytes, so a line never moves what stands in the other
section, and neither is what it says read in another way. The one thing that the sections share is
their labels: what can be placed section by section can be placed together unless a label stands in
both. Then the layout has the instructions of the one, the data of the other and the labels of both,
whatever the order in which the sections have been visited.

## Main definitions

* `linesIn`: the lines of a section, without those that change the section.
* `SourceLine.FitsIn`: a section accepts what a line says besides its label.
* `Layout.Joins`: a layout puts the layouts of the two sections together.

## Main results

* `Layout.exists_place_iff`: the lines that can be placed.
* `Layout.Joins.placeAll`, `Layout.Joins.exists_placeAll`: lines are placed together as they are
  placed section by section, and together they can be placed if no label is in both sections.
* `Layout.exists_alike_of_linesIn_eq`: lines with the same sections are placed alike.
-/

namespace TileCore

open Text

/-- The lines of a section, without those that change the section. -/
def linesIn (region : Region) : (current : Region) → List Text → List Text
  | _, [] => []
  | current, text :: texts =>
    match Region.ofLine? text with
    | some next => linesIn region next texts
    | none =>
      if current = region then text :: linesIn region current texts
      else linesIn region current texts

section LinesIn

variable {region current : Region} {text : Text} {texts : List Text}

theorem linesIn_cons_of_some {next : Region} (h : Region.ofLine? text = some next) :
    linesIn region current (text :: texts) = linesIn region next texts := by
  rw [linesIn, h]

theorem linesIn_cons_self (h : Region.ofLine? text = none) :
    linesIn region region (text :: texts) = text :: linesIn region region texts := by
  rw [linesIn, h]
  exact if_pos rfl

theorem linesIn_cons_of_ne (h : Region.ofLine? text = none) (hne : current ≠ region) :
    linesIn region current (text :: texts) = linesIn region current texts := by
  rw [linesIn, h]
  exact if_neg hne

/-- The lines of a section are lines, and none of them changes the section. -/
theorem of_mem_linesIn (h : text ∈ linesIn region current texts) :
    text ∈ texts ∧ Region.ofLine? text = none := by
  induction texts generalizing current with
  | nil => cases h
  | cons first texts ih =>
    cases hfirst : Region.ofLine? first with
    | some next =>
      rw [linesIn_cons_of_some hfirst] at h
      exact (ih h).imp_left (List.mem_cons_of_mem first)
    | none =>
      by_cases hregion : current = region
      · subst hregion
        rw [linesIn_cons_self hfirst] at h
        rcases List.mem_cons.mp h with rfl | h
        · exact ⟨List.mem_cons_self, hfirst⟩
        · exact (ih h).imp_left (List.mem_cons_of_mem first)
      · rw [linesIn_cons_of_ne hfirst hregion] at h
        exact (ih h).imp_left (List.mem_cons_of_mem first)

/-- Lines that do not change the section all belong to the current one. -/
theorem linesIn_append_of_none (h : ∀ text ∈ texts, Region.ofLine? text = none)
    (others : List Text) :
    linesIn region current (texts ++ others) =
      (if current = region then texts else []) ++ linesIn region current others := by
  induction texts with
  | nil => simp
  | cons text texts ih =>
    obtain ⟨htext, htexts⟩ := List.forall_mem_cons.mp h
    rw [List.cons_append]
    by_cases hregion : current = region
    · subst hregion
      rw [linesIn_cons_self htext, ih htexts]
      simp
    · rw [linesIn_cons_of_ne htext hregion, ih htexts, if_neg hregion, if_neg hregion]

end LinesIn

/-- A line whose number does not matter. -/
def SourceLine.unnumbered (text : Text) : SourceLine := ⟨0, text⟩

/-- An item whose line does not matter. -/
def Item.unnumbered (item : Item) : Item := { item with line := 0 }

/-! ### Lines that can be placed -/

/-- A section accepts what a line says besides its label, behind `size` bytes of data. -/
def SourceLine.FitsIn (line : SourceLine) (size : Nat) : Region → Prop
  | .code => line.statement.head? ≠ some '.' ∧ ∃ texts, expand line.statement = .ok texts
  | .data => ∃ bytes, dataBytes size line.statement = .ok bytes

theorem SourceLine.ofLine?_eq_none {line : SourceLine} (h : line.statement ≠ []) :
    Region.ofLine? line.text = none := by
  cases hregion : Region.ofLine? line.text with
  | none => rfl
  | some region => exact absurd (by rw [SourceLine.statement, hregion]) h

namespace Layout

theorem exists_placeLabel_iff {l : Layout} {line : SourceLine}
    (hregion : Region.ofLine? line.text = none) :
    (∃ l', l.placeLabel line.text = .ok (l', line.statement)) ↔
      ∀ label, line.label? = some label →
        isLabel label = true ∧ l.labels.lookup label = none := by
  constructor
  · rintro ⟨l', h⟩ label hlabel
    obtain ⟨-, -, -, -, -, hsome⟩ := placeLabel_eq_ok hregion h
    obtain ⟨hvalid, hnew, -⟩ := hsome label hlabel
    exact ⟨hvalid, hnew⟩
  · intro h
    rw [placeLabel, SourceLine.statement, hregion]
    rw [SourceLine.label?, hregion] at h
    cases hsplit : splitFirst? (· == ':') line.text with
    | none => exact ⟨l, rfl⟩
    | some parts =>
      rw [hsplit] at h
      obtain ⟨hvalid, hnew⟩ := h _ rfl
      have hdefine := define_eq_ok_iff.mpr ⟨hvalid, hnew, rfl⟩
      simp only [hdefine]
      exact ⟨_, rfl⟩

theorem exists_placeStatement_iff {l : Layout} {line : SourceLine} {number : Nat} :
    (∃ l', l.placeStatement number line.statement = .ok l') ↔
      line.FitsIn l.data.size l.region := by
  rw [placeStatement]
  cases hregion : l.region with
  | code =>
    simp only [SourceLine.FitsIn]
    split_ifs with hdot
    · simp [hdot]
    · cases expand line.statement <;> simp [Except.map, hdot]
  | data =>
    simp only [SourceLine.FitsIn]
    cases dataBytes l.data.size line.statement <;> simp [Except.map]

/-- A line can be placed if its label is valid and new, and its section accepts what it says. -/
theorem exists_place_iff {l : Layout} {line : SourceLine}
    (hregion : Region.ofLine? line.text = none) :
    (∃ l', l.place line = .ok l') ↔
      (∀ label, line.label? = some label →
        isLabel label = true ∧ l.labels.lookup label = none) ∧
        (line.statement = [] ∨ line.FitsIn l.data.size l.region) := by
  rw [← exists_placeLabel_iff hregion]
  simp only [place, hregion, Except.bind_eq_ok_iff]
  constructor
  · rintro ⟨l', ⟨l₁, text⟩, hlabel, h⟩
    obtain ⟨rfl, hregion₁, -, hdata₁, -⟩ := placeLabel_eq_ok hregion hlabel
    refine ⟨⟨l₁, hlabel⟩, ?_⟩
    simp only at h
    split_ifs at h with hempty
    · exact .inl hempty
    · rw [← hregion₁, ← hdata₁]
      exact .inr (exists_placeStatement_iff.mp ⟨l', h⟩)
  · rintro ⟨⟨l₁, hlabel⟩, hfits⟩
    obtain ⟨-, hregion₁, -, hdata₁, -⟩ := placeLabel_eq_ok hregion hlabel
    by_cases hempty : line.statement = []
    · exact ⟨l₁, ⟨l₁, _⟩, hlabel, if_pos hempty⟩
    · rw [← hregion₁, ← hdata₁] at hfits
      obtain ⟨l', hl'⟩ := exists_placeStatement_iff.mpr (hfits.resolve_left hempty)
      exact ⟨l', ⟨l₁, _⟩, hlabel, (if_neg hempty).trans hl'⟩

/-- In lines that can be placed, each section accepts its statements. -/
theorem fitsIn_of_placeAll {l : Layout} {lines : List SourceLine} {j : Nat} {line : SourceLine}
    (h : empty.placeAll lines = .ok l) (hj : lines[j]? = some line)
    (hne : line.statement ≠ []) :
    line.FitsIn (Position.before lines j).bytes (Position.before lines j).region := by
  obtain ⟨l₁, l₂, hbefore, hplace, -⟩ := exists_place_of_placeAll h hj
  have hat := at_start.placeAll hbefore
  have hfits := ((exists_place_iff (SourceLine.ofLine?_eq_none hne)).mp ⟨l₂, hplace⟩).2
  replace hfits := hfits.resolve_left hne
  rw [hat.region, hat.bytes] at hfits
  exact hfits

/-! ### Layouts of two sections -/

/-- No label is in the layouts of both sections. -/
def Apart (parts : Region → Layout) : Prop :=
  ∀ label r r' addr addr', (parts r).labels.lookup label = some addr →
    (parts r').labels.lookup label = some addr' → r = r'

/-- A layout puts the layouts of the two sections together. -/
structure Joins (l : Layout) (parts : Region → Layout) : Prop where
  /-- The parts have stayed in their sections. -/
  region : ∀ r, (parts r).region = r
  /-- The instructions are those of the code section. -/
  items : l.items.toList.map Item.unnumbered = (parts .code).items.toList
  /-- The data are those of the data section. -/
  data : l.data.toList = (parts .data).data.toList
  /-- The labels are those of both sections. -/
  labels : ∀ label addr,
    l.labels.lookup label = some addr ↔ ∃ r, (parts r).labels.lookup label = some addr
  /-- No label is in both of them. -/
  apart : Apart parts

/-- Nothing has been placed, and the lines to come are those of a section. -/
def emptyIn (region : Region) : Layout := ⟨region, #[], [], #[]⟩

theorem joins_empty : empty.Joins emptyIn where
  region _ := rfl
  items := rfl
  data := rfl
  labels _ _ := ⟨nofun, nofun⟩
  apart _ _ _ _ _ h := nomatch h

theorem map_unnumbered_itemsFrom (place number : Nat) (texts : List Text) :
    (itemsFrom place number texts).map Item.unnumbered = itemsFrom place 0 texts := by
  induction texts generalizing place with
  | nil => rfl
  | cons text texts ih =>
    rw [itemsFrom, List.map_cons, ih]
    rfl

namespace Joins

variable {l l' : Layout} {parts parts' : Region → Layout} {line : SourceLine}

theorem size_items (h : l.Joins parts) : l.items.size = (parts .code).items.size := by
  have hlength := congrArg List.length h.items
  rwa [List.length_map, Array.length_toList, Array.length_toList] at hlength

theorem size_data (h : l.Joins parts) : l.data.size = (parts .data).data.size := by
  have hlength := congrArg List.length h.data
  rwa [Array.length_toList, Array.length_toList] at hlength

/-- What follows in a section has the same address in the layout of this section. -/
theorem here_eq (h : l.Joins parts) : (parts l.region).here = l.here := by
  cases hregion : l.region with
  | code => simp only [here, hregion, h.region, h.size_items]
  | data => simp only [here, hregion, h.region, h.size_data]

theorem fitsIn_iff (h : l.Joins parts) :
    line.FitsIn (parts l.region).data.size l.region ↔ line.FitsIn l.data.size l.region := by
  cases l.region with
  | code => exact Iff.rfl
  | data => rw [h.size_data]

theorem lookup_eq_none_iff (h : l.Joins parts) {label : Text} :
    l.labels.lookup label = none ↔ ∀ r, (parts r).labels.lookup label = none := by
  simp only [Option.eq_none_iff_forall_ne_some, ne_eq, h.labels, not_exists]
  exact forall_comm

end Joins

/-- Behind a line its label has the address of what follows, and the other labels are as before. -/
theorem Placed.lookup {l l' : Layout} {line : SourceLine} (h : l.Placed line l') (label : Text) :
    l'.labels.lookup label =
      if line.label? = some label then some l.here else l.labels.lookup label := by
  cases hlabel : line.label? with
  | none => rw [h.labels_of_none hlabel, if_neg nofun]
  | some new =>
    obtain ⟨-, -, hlabels⟩ := h.labels_of_some new hlabel
    rw [hlabels, List.lookup_cons]
    by_cases heq : label = new
    · rw [heq, beq_self_eq_true, if_pos rfl]
    · rw [beq_eq_false_iff_ne.mpr heq, if_neg fun h => heq (Option.some.inj h).symm]

namespace Joins

variable {l l' part : Layout} {parts parts' : Region → Layout} {line : SourceLine}

/-- Behind a line that is added to its section, the labels are those before and its own. -/
theorem lookup_update (h : l.Joins parts)
    (hpart : (parts l.region).Placed (SourceLine.unnumbered line.text) part) (label : Text)
    (r : Region) :
    (Function.update parts l.region part r).labels.lookup label =
      if r = l.region ∧ line.label? = some label then some l.here
      else (parts r).labels.lookup label := by
  have hlabel? : (SourceLine.unnumbered line.text).label? = line.label? := rfl
  by_cases hr : r = l.region
  · subst hr
    rw [Function.update_self, hpart.lookup, hlabel?, h.here_eq]
    simp only [true_and]
  · rw [Function.update_of_ne hr, if_neg fun hboth => hr hboth.1]

/-- A line that is added to a layout is added to the layout of its section. -/
theorem of_placed (h : l.Joins parts) (hnone : Region.ofLine? line.text = none)
    (hline : l.Placed line l')
    (hpart : (parts l.region).Placed (SourceLine.unnumbered line.text) part)
    (hnew : ∀ label, line.label? = some label → ∀ r, (parts r).labels.lookup label = none) :
    l'.Joins (Function.update parts l.region part) where
  region r := by
    by_cases hr : r = l.region
    · subst hr
      rw [Function.update_self, hpart.region, h.region]
      change (Region.ofLine? line.text).getD _ = _
      rw [hnone]
      rfl
    · rw [Function.update_of_ne hr, h.region]
  items := by
    have hcode : (SourceLine.unnumbered line.text).codeTexts = line.codeTexts := rfl
    rw [hline.items, List.map_append, h.items, map_unnumbered_itemsFrom]
    cases hregion : l.region with
    | code =>
      rw [hregion] at hpart
      rw [Function.update_self, hpart.items, h.region, h.size_items, hcode]
      rfl
    | data =>
      rw [Function.update_of_ne (show Region.code ≠ .data by decide)]
      exact List.append_nil _
  data := by
    have hbytes : (SourceLine.unnumbered line.text).bytes = line.bytes := rfl
    rw [hline.data, h.data]
    cases hregion : l.region with
    | code =>
      rw [Function.update_of_ne (show Region.data ≠ .code by decide)]
      exact List.append_nil _
    | data =>
      rw [hregion] at hpart
      rw [Function.update_self, hpart.data, h.region, h.size_data, hbytes]
  labels label addr := by
    simp only [h.lookup_update hpart, hline.lookup]
    by_cases hlabel : line.label? = some label
    · simp [hlabel, hnew label hlabel]
    · simp [hlabel, h.labels]
  apart label r r' addr addr' hr hr' := by
    rw [h.lookup_update hpart] at hr hr'
    by_cases hlabel : line.label? = some label
    · -- A new label is in the section of its line only.
      simp only [hlabel, and_true, hnew label hlabel] at hr hr'
      split_ifs at hr hr' with heq heq'
      exact heq.trans heq'.symm
    · simp only [hlabel, and_false, if_false] at hr hr'
      exact h.apart label r r' addr addr' hr hr'

/-- A line that can be placed can be placed in the layout of its section. -/
theorem place (h : l.Joins parts) (hnone : Region.ofLine? line.text = none)
    (hplace : l.place line = .ok l') :
    ∃ part, (parts l.region).place (SourceLine.unnumbered line.text) = .ok part ∧
      l'.Joins (Function.update parts l.region part) := by
  obtain ⟨hlabel, hfits⟩ := (exists_place_iff hnone).mp ⟨l', hplace⟩
  have hnew : ∀ label, line.label? = some label → ∀ r, (parts r).labels.lookup label = none :=
    fun label hl => h.lookup_eq_none_iff.mp (hlabel label hl).2
  have hnone' : Region.ofLine? (SourceLine.unnumbered line.text).text = none := hnone
  have hpart : ∃ part, (parts l.region).place (SourceLine.unnumbered line.text) = .ok part := by
    rw [exists_place_iff hnone', h.region]
    exact ⟨fun label hl => ⟨(hlabel label hl).1, hnew label hl _⟩, hfits.imp id h.fitsIn_iff.mpr⟩
  obtain ⟨part, hpart⟩ := hpart
  exact ⟨part, hpart, h.of_placed hnone (placed_of_place hplace) (placed_of_place hpart) hnew⟩

/-- A line that can be placed in the layout of its section can be placed if its label is new. -/
theorem exists_place (h : l.Joins parts) (hnone : Region.ofLine? line.text = none)
    (hpart : (parts l.region).place (SourceLine.unnumbered line.text) = .ok part)
    (hnew : ∀ label, line.label? = some label → ∀ r, (parts r).labels.lookup label = none) :
    ∃ l', l.place line = .ok l' ∧ l'.Joins (Function.update parts l.region part) := by
  have hnone' : Region.ofLine? (SourceLine.unnumbered line.text).text = none := hnone
  obtain ⟨hlabel, hfits⟩ := (exists_place_iff hnone').mp ⟨part, hpart⟩
  have hplace : ∃ l', l.place line = .ok l' := by
    rw [h.region] at hfits
    rw [exists_place_iff hnone]
    exact ⟨fun label hl => ⟨(hlabel label hl).1, h.lookup_eq_none_iff.mpr (hnew label hl)⟩,
      hfits.imp id h.fitsIn_iff.mp⟩
  obtain ⟨l', hplace⟩ := hplace
  exact ⟨l', hplace, h.of_placed hnone (placed_of_place hplace) (placed_of_place hpart) hnew⟩

/-- A change of the section changes nothing else. -/
theorem goto (h : l.Joins parts) (next : Region) : { l with region := next }.Joins parts :=
  ⟨h.region, h.items, h.data, h.labels, h.apart⟩

end Joins

/-! ### Interleaved sections -/

/-- The section of some lines is placed on its own, behind what has been placed of it before. -/
def placeSection (part : Layout) (region current : Region) (texts : List Text) :
    Except AssemblyError Layout :=
  part.placeAll ((linesIn region current texts).map SourceLine.unnumbered)

section PlaceSection

variable {parts parts' : Region → Layout} {current : Region} {text : Text} {texts : List Text}

theorem placeSection_cons_of_some {part : Layout} {region next : Region}
    (h : Region.ofLine? text = some next) :
    part.placeSection region current (text :: texts) = part.placeSection region next texts := by
  rw [placeSection, linesIn_cons_of_some h, placeSection]

theorem placeSection_cons_of_ne {part : Layout} {region : Region}
    (h : Region.ofLine? text = none) (hne : current ≠ region) :
    part.placeSection region current (text :: texts) = part.placeSection region current texts := by
  rw [placeSection, linesIn_cons_of_ne h hne, placeSection]

theorem placeSection_cons_self_eq_ok_iff {part part' : Layout} (h : Region.ofLine? text = none) :
    part.placeSection current current (text :: texts) = .ok part' ↔
      ∃ part₁, part.place (SourceLine.unnumbered text) = .ok part₁ ∧
        part₁.placeSection current current texts = .ok part' := by
  rw [placeSection, linesIn_cons_self h, List.map_cons, placeAll_cons_eq_ok_iff]
  rfl

/-- To place both sections is to place the first line in its section, and then the rest of both. -/
theorem placeSection_cons_eq_ok_iff (h : Region.ofLine? text = none) :
    (∀ r, (parts r).placeSection r current (text :: texts) = .ok (parts' r)) ↔
      ∃ part, (parts current).place (SourceLine.unnumbered text) = .ok part ∧
        ∀ r, (Function.update parts current part r).placeSection r current texts =
          .ok (parts' r) := by
  constructor
  · intro hparts
    obtain ⟨part, hpart, hrest⟩ := (placeSection_cons_self_eq_ok_iff h).mp (hparts current)
    refine ⟨part, hpart, fun r => ?_⟩
    by_cases hr : r = current
    · subst hr
      rwa [Function.update_self]
    · rw [Function.update_of_ne hr, ← placeSection_cons_of_ne h (Ne.symm hr)]
      exact hparts r
  · rintro ⟨part, hpart, hrest⟩ r
    have hr' := hrest r
    by_cases hr : r = current
    · subst hr
      rw [Function.update_self] at hr'
      exact (placeSection_cons_self_eq_ok_iff h).mpr ⟨part, hpart, hr'⟩
    · rw [Function.update_of_ne hr] at hr'
      rwa [placeSection_cons_of_ne h (Ne.symm hr)]

/-- If both sections come to labels that are apart, the label of a line is not yet in either. -/
theorem lookup_eq_none_of_apart {line : SourceLine} (h : Region.ofLine? line.text = none)
    (hparts : ∀ r, (parts r).placeSection r current (line.text :: texts) = .ok (parts' r))
    (hapart : Apart parts') {label : Text} (hlabel : line.label? = some label) (r : Region) :
    (parts r).labels.lookup label = none := by
  obtain ⟨part, hpart, hrest⟩ := (placeSection_cons_self_eq_ok_iff h).mp (hparts current)
  have hplaced := placed_of_place hpart
  by_cases hr : r = current
  · subst hr
    exact (hplaced.labels_of_some label hlabel).2.1
  · -- A label of the other section would be in both sections in the end.
    have hown : part.labels.lookup label = some (parts current).here := by
      rw [hplaced.lookup]
      exact if_pos hlabel
    rw [Option.eq_none_iff_forall_ne_some]
    intro addr haddr
    exact hr (hapart label r current addr _
      ((extends_of_placeAll (hparts r)).labels label addr haddr)
      ((extends_of_placeAll hrest).labels label _ hown))

end PlaceSection

theorem place_of_some {l : Layout} {line : SourceLine} {next : Region}
    (h : Region.ofLine? line.text = some next) : l.place line = .ok { l with region := next } := by
  rw [place, h]

theorem region_of_place {l l' : Layout} {line : SourceLine}
    (hnone : Region.ofLine? line.text = none) (h : l.place line = .ok l') :
    l'.region = l.region := by
  rw [(placed_of_place h).region, hnone]
  rfl

namespace Joins

variable {l l' : Layout} {parts parts' : Region → Layout} {lines : List SourceLine}

/-- Lines that can be placed together can be placed section by section. -/
theorem placeAll (h : l.Joins parts) (hplace : l.placeAll lines = .ok l') :
    ∃ parts', (∀ r,
      (parts r).placeSection r l.region (lines.map SourceLine.text) = .ok (parts' r)) ∧
        l'.Joins parts' := by
  induction lines generalizing l parts with
  | nil =>
    cases hplace
    exact ⟨parts, fun _ => rfl, h⟩
  | cons line lines ih =>
    obtain ⟨l₁, hline, hlines⟩ := placeAll_cons_eq_ok_iff.mp hplace
    cases hregion : Region.ofLine? line.text with
    | some next =>
      rw [place_of_some hregion] at hline
      cases hline
      obtain ⟨parts', hparts', h'⟩ := ih (h.goto next) hlines
      refine ⟨parts', fun r => ?_, h'⟩
      rw [List.map_cons, placeSection_cons_of_some hregion]
      exact hparts' r
    | none =>
      obtain ⟨part, hpart, h₁⟩ := h.place hregion hline
      obtain ⟨parts', hparts', h'⟩ := ih h₁ hlines
      rw [region_of_place hregion hline] at hparts'
      exact ⟨parts', (placeSection_cons_eq_ok_iff hregion).mpr ⟨part, hpart, hparts'⟩, h'⟩

/-- Lines that can be placed section by section can be placed together, unless a label is in both
sections. -/
theorem exists_placeAll (h : l.Joins parts)
    (hparts : ∀ r, (parts r).placeSection r l.region (lines.map SourceLine.text) = .ok (parts' r))
    (hapart : Apart parts') : ∃ l', l.placeAll lines = .ok l' ∧ l'.Joins parts' := by
  induction lines generalizing l parts with
  | nil =>
    obtain rfl : parts = parts' := funext fun r => Except.ok.inj (hparts r)
    exact ⟨l, rfl, h⟩
  | cons line lines ih =>
    rw [List.map_cons] at hparts
    cases hregion : Region.ofLine? line.text with
    | some next =>
      simp only [placeSection_cons_of_some hregion] at hparts
      obtain ⟨l', hlines, h'⟩ := ih (h.goto next) hparts
      exact ⟨l', placeAll_cons_eq_ok_iff.mpr ⟨_, place_of_some hregion, hlines⟩, h'⟩
    | none =>
      obtain ⟨part, hpart, hrest⟩ := (placeSection_cons_eq_ok_iff hregion).mp hparts
      obtain ⟨l₁, hline, h₁⟩ := h.exists_place hregion hpart fun label hlabel =>
        lookup_eq_none_of_apart hregion hparts hapart hlabel
      obtain ⟨l', hlines, h'⟩ := ih h₁ (by rwa [region_of_place hregion hline])
      exact ⟨l', placeAll_cons_eq_ok_iff.mpr ⟨l₁, hline, hlines⟩, h'⟩

end Joins

/-- Two layouts differ in no more than the numbers of the lines and the order of the labels. -/
structure Alike (l l' : Layout) : Prop where
  /-- The instructions agree. -/
  items : l.items.toList.map Item.unnumbered = l'.items.toList.map Item.unnumbered
  /-- The data agree. -/
  data : l.data.toList = l'.data.toList
  /-- Every label has the same address. -/
  lookup : ∀ label, l.labels.lookup label = l'.labels.lookup label

theorem Joins.alike {l l' : Layout} {parts : Region → Layout} (h : l.Joins parts)
    (h' : l'.Joins parts) : l.Alike l' where
  items := h.items.trans h'.items.symm
  data := h.data.trans h'.data.symm
  lookup label := Option.ext fun addr => (h.labels label addr).trans (h'.labels label addr).symm

/-- Lines with the same sections are placed alike, in whatever order the sections are visited. -/
theorem exists_alike_of_linesIn_eq {lines lines' : List SourceLine} {l : Layout}
    (hlines : ∀ r, linesIn r .code (lines.map SourceLine.text) =
      linesIn r .code (lines'.map SourceLine.text))
    (h : empty.placeAll lines = .ok l) : ∃ l', empty.placeAll lines' = .ok l' ∧ l.Alike l' := by
  obtain ⟨parts, hparts, hjoins⟩ := joins_empty.placeAll h
  have hparts' : ∀ r, (emptyIn r).placeSection r .code (lines'.map SourceLine.text) =
      .ok (parts r) := by
    intro r
    rw [placeSection, ← hlines r]
    exact hparts r
  obtain ⟨l', h', hjoins'⟩ := joins_empty.exists_placeAll hparts' hjoins.apart
  exact ⟨l', h', hjoins.alike hjoins'⟩

end Layout

end TileCore

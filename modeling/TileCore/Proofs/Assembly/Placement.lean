import TileCore.Proofs.Assembly.Programs

/-!
# Where lines are placed

The first pass walks over the lines and keeps an account of what they have added so far. What a
single line adds depends on nothing but its text, the section it stands in and, because of
alignments, the number of bytes before it; so the place of a line can be said without the first
pass, by counting. The first pass agrees with this count, line by line, and what it has written down
for a line stays as it is while the lines behind it are placed.

## Main definitions

* `SourceLine.label?`, `SourceLine.statement`: the label of a line and what it says besides.
* `SourceLine.codeTexts`, `SourceLine.bytes`: what a line adds to the code and to the data.
* `Position`, `Position.before`: how far the lines before a line have come.
* `Layout.Placed`: everything that placing a line does.
* `Layout.At`, `Layout.Extends`: a layout agrees with a count, and a layout keeps another one.
* `Layout.Consecutive`: the items of a layout stand one behind the other.

## Main results

* `Layout.placed_of_place`: the account of one line.
* `Layout.lookup_label`, `Layout.eq_of_label`: each label has the address of its only line.
* `Layout.getElem?_items`, `Layout.getElem?_data`: the items and the bytes of a line stand where the
  count puts them.
* `exists_word_of_line`: the words of a line in an assembled program.
* `exists_line_of_word`: the line of a word in an assembled program.
-/

namespace TileCore

open Text

/-! ### What a line says -/

namespace SourceLine

/-- The label in front of what a line says. -/
def label? (line : SourceLine) : Option Text :=
  match Region.ofLine? line.text with
  | some _ => none
  | none => (splitFirst? (· == ':') line.text).map fun parts => trim parts.1

/-- What a line says besides its label. A change of the section says nothing else. -/
def statement (line : SourceLine) : Text :=
  match Region.ofLine? line.text with
  | some _ => []
  | none =>
    match splitFirst? (· == ':') line.text with
    | none => line.text
    | some (_, rest) => trim rest

/-- The texts of the instructions that a line adds to the code. -/
def codeTexts (line : SourceLine) : Region → List Text
  | .code => if line.statement = [] then [] else (expand line.statement).toOption.getD []
  | .data => []

/-- The bytes that a line adds to `size` bytes of data. -/
def bytes (line : SourceLine) (size : Nat) : Region → List Byte
  | .code => []
  | .data => if line.statement = [] then [] else (dataBytes size line.statement).toOption.getD []

/-- A line that says something adds what it stands for. -/
theorem codeTexts_of_expand {line : SourceLine} {texts : List Text} (hne : line.statement ≠ [])
    (h : expand line.statement = .ok texts) : line.codeTexts .code = texts := by
  rw [codeTexts, if_neg hne, h]
  rfl

theorem bytes_of_dataBytes {line : SourceLine} {size : Nat} {bytes : List Byte}
    (hne : line.statement ≠ []) (h : dataBytes size line.statement = .ok bytes) :
    line.bytes size .data = bytes := by
  rw [SourceLine.bytes, if_neg hne, h]
  rfl

end SourceLine

/-- How far some lines have come. -/
structure Position where
  /-- The section that the next line stands in. -/
  region : Region
  /-- The number of words of code. -/
  words : Nat
  /-- The number of bytes of data. -/
  bytes : Nat

namespace Position

/-- There have been no lines. -/
def start : Position := ⟨.code, 0, 0⟩

/-- The address of what follows in the section. -/
def address (p : Position) : Word :=
  match p.region with
  | .code => codeAddress p.words
  | .data => dataAddress p.bytes

/-- One line further. -/
def advance (p : Position) (line : SourceLine) : Position where
  region := (Region.ofLine? line.text).getD p.region
  words := p.words + (line.codeTexts p.region).length
  bytes := p.bytes + (line.bytes p.bytes p.region).length

/-- How far the first `j` lines have come. -/
def before (lines : List SourceLine) (j : Nat) : Position := (lines.take j).foldl advance start

theorem before_succ {lines : List SourceLine} {j : Nat} {line : SourceLine}
    (hj : lines[j]? = some line) : before lines (j + 1) = (before lines j).advance line := by
  rw [before, before, List.take_add_one, hj, Option.toList_some, List.foldl_append,
    List.foldl_cons, List.foldl_nil]

/-- Every word that the first lines have become is one of the words of one of these lines. -/
theorem exists_line_of_lt {lines : List SourceLine} {n k : Nat} (hk : k < (before lines n).words) :
    ∃ j line i text, lines[j]? = some line ∧
      (line.codeTexts (before lines j).region)[i]? = some text ∧
        (before lines j).words + i = k := by
  induction n with
  | zero => exact absurd hk (Nat.not_lt_zero k)
  | succ n ih =>
    cases hline : lines[n]? with
    | none =>
      have hsame : before lines (n + 1) = before lines n := by
        rw [before, before, List.take_add_one, hline, Option.toList_none, List.append_nil]
      rw [hsame] at hk
      exact ih hk
    | some line =>
      rw [before_succ hline] at hk
      change k < (before lines n).words + _ at hk
      by_cases hbefore : k < (before lines n).words
      · exact ih hbefore
      · have hi : k - (before lines n).words < (line.codeTexts (before lines n).region).length := by
          omega
        exact ⟨n, line, _, _, hline, List.getElem?_eq_getElem hi, by omega⟩

end Position

/-! ### Placing one line -/

namespace Layout

/-- The items of texts from a place on. -/
def itemsFrom (place number : Nat) : List Text → List Item
  | [] => []
  | text :: texts => ⟨number, codeAddress place, text⟩ :: itemsFrom (place + 1) number texts

theorem length_itemsFrom (place number : Nat) (texts : List Text) :
    (itemsFrom place number texts).length = texts.length := by
  induction texts generalizing place with
  | nil => rfl
  | cons text texts ih => rw [itemsFrom, List.length_cons, List.length_cons, ih]

theorem getElem?_itemsFrom {place number i : Nat} {texts : List Text} {text : Text}
    (h : texts[i]? = some text) :
    (itemsFrom place number texts)[i]? = some ⟨number, codeAddress (place + i), text⟩ := by
  induction texts generalizing place i with
  | nil => cases h
  | cons first texts ih =>
    cases i with
    | zero =>
      cases h
      rfl
    | succ i =>
      rw [List.getElem?_cons_succ] at h
      rw [itemsFrom, List.getElem?_cons_succ, ih h, Nat.add_right_comm, Nat.add_assoc]

theorem address_of_getElem?_itemsFrom {place number k : Nat} {texts : List Text} {item : Item}
    (h : (itemsFrom place number texts)[k]? = some item) :
    item.address = codeAddress (place + k) := by
  induction texts generalizing place k with
  | nil => cases h
  | cons text texts ih =>
    cases k with
    | zero =>
      cases h
      rfl
    | succ k =>
      rw [ih h, Nat.add_right_comm, Nat.add_assoc]

/-- Everything that placing a line does. -/
structure Placed (l : Layout) (line : SourceLine) (l' : Layout) : Prop where
  /-- The section changes only by a line that says so. -/
  region : l'.region = (Region.ofLine? line.text).getD l.region
  /-- The instructions of the line follow those before it. -/
  items : l'.items.toList =
    l.items.toList ++ itemsFrom l.items.size line.number (line.codeTexts l.region)
  /-- The bytes of the line follow those before it. -/
  data : l'.data.toList = l.data.toList ++ line.bytes l.data.size l.region
  /-- Without a label there is no new label. -/
  labels_of_none : line.label? = none → l'.labels = l.labels
  /-- A label is new and gets the address of what follows. -/
  labels_of_some : ∀ label, line.label? = some label → isLabel label = true ∧
    l.labels.lookup label = none ∧ l'.labels = (label, l.here) :: l.labels

theorem append_eq (l : Layout) (number : Nat) (texts : List Text) :
    (l.append number texts).region = l.region ∧ (l.append number texts).data = l.data ∧
      (l.append number texts).labels = l.labels ∧
        (l.append number texts).items.toList =
          l.items.toList ++ itemsFrom l.items.size number texts := by
  induction texts generalizing l with
  | nil => exact ⟨rfl, rfl, rfl, (List.append_nil _).symm⟩
  | cons text texts ih =>
    obtain ⟨hregion, hdata, hlabels, hitems⟩ := ih (l.push number text)
    refine ⟨hregion, hdata, hlabels, hitems.trans ?_⟩
    rw [itemsFrom, push, Array.toList_push, Array.size_push, List.append_assoc]
    rfl

theorem define_eq_ok_iff {l l' : Layout} {label : Text} :
    l.define label = .ok l' ↔ isLabel label = true ∧ l.labels.lookup label = none ∧
      l' = { l with labels := (label, l.here) :: l.labels } := by
  rw [define]
  split_ifs with hlabel hsome
  · refine ⟨nofun, fun ⟨_, hnone, _⟩ => ?_⟩
    rw [hnone] at hsome
    cases hsome
  · have hnone : l.labels.lookup label = none := Option.not_isSome_iff_eq_none.mp hsome
    simp [hlabel, hnone, eq_comm]
  · simp [hlabel]

/-- What a line says is added to its section and changes nothing else. -/
theorem placeStatement_eq_ok {l l' : Layout} {line : SourceLine} (hne : line.statement ≠ [])
    (h : l.placeStatement line.number line.statement = .ok l') :
    l'.region = l.region ∧ l'.labels = l.labels ∧
      l'.items.toList =
        l.items.toList ++ itemsFrom l.items.size line.number (line.codeTexts l.region) ∧
      l'.data.toList = l.data.toList ++ line.bytes l.data.size l.region := by
  rw [placeStatement] at h
  cases hregion : l.region with
  | code =>
    simp only [hregion] at h
    split_ifs at h
    cases htexts : expand line.statement with
    | error cause =>
      rw [htexts] at h
      cases h
    | ok texts =>
      have hcode := SourceLine.codeTexts_of_expand hne htexts
      rw [htexts] at h
      cases h
      obtain ⟨hregion', hdata, hlabels, hitems⟩ := append_eq l line.number texts
      rw [hcode, hregion', hregion, hdata]
      exact ⟨rfl, hlabels, hitems, (List.append_nil _).symm⟩
  | data =>
    simp only [hregion] at h
    cases hbytes : dataBytes l.data.size line.statement with
    | error cause =>
      rw [hbytes] at h
      cases h
    | ok bytes =>
      have hdata := SourceLine.bytes_of_dataBytes hne hbytes
      rw [hbytes] at h
      cases h
      rw [hdata]
      exact ⟨rfl, rfl, (List.append_nil _).symm, by simp⟩

theorem placeLabel_eq_ok {l l' : Layout} {line : SourceLine} {text : Text}
    (hregion : Region.ofLine? line.text = none) (h : l.placeLabel line.text = .ok (l', text)) :
    text = line.statement ∧ l'.region = l.region ∧ l'.items = l.items ∧ l'.data = l.data ∧
      (line.label? = none → l'.labels = l.labels) ∧
        ∀ label, line.label? = some label → isLabel label = true ∧
          l.labels.lookup label = none ∧ l'.labels = (label, l.here) :: l.labels := by
  rw [placeLabel] at h
  rw [SourceLine.statement, SourceLine.label?, hregion]
  cases hsplit : splitFirst? (· == ':') line.text with
  | none =>
    rw [hsplit] at h
    cases h
    exact ⟨rfl, rfl, rfl, rfl, fun _ => rfl, nofun⟩
  | some parts =>
    obtain ⟨label, rest⟩ := parts
    simp only [hsplit, Except.bind_eq_ok_iff] at h
    obtain ⟨l₁, hdefine, h⟩ := h
    cases h
    obtain ⟨hlabel, hlookup, rfl⟩ := define_eq_ok_iff.mp hdefine
    refine ⟨rfl, rfl, rfl, rfl, nofun, ?_⟩
    rintro _ ⟨rfl⟩
    exact ⟨hlabel, hlookup, rfl⟩

/-- What a line adds is no more than what it says. -/
theorem additions_of_statement_eq_nil {line : SourceLine} (h : line.statement = [])
    (region : Region) (size : Nat) :
    line.codeTexts region = [] ∧ line.bytes size region = [] := by
  cases region <;> simp [SourceLine.codeTexts, SourceLine.bytes, h]

/-- The account of one line. -/
theorem placed_of_place {l l' : Layout} {line : SourceLine} (h : l.place line = .ok l') :
    l.Placed line l' := by
  rw [place] at h
  cases hregion : Region.ofLine? line.text with
  | some region =>
    rw [hregion] at h
    cases h
    have hstatement : line.statement = [] := by rw [SourceLine.statement, hregion]
    have hlabel : line.label? = none := by rw [SourceLine.label?, hregion]
    obtain ⟨hcode, hbytes⟩ := additions_of_statement_eq_nil hstatement l.region l.data.size
    constructor
    · rw [hregion]
      rfl
    · rw [hcode]
      exact (List.append_nil _).symm
    · rw [hbytes]
      exact (List.append_nil _).symm
    · exact fun _ => rfl
    · intro label hsome
      rw [hlabel] at hsome
      cases hsome
  | none =>
    simp only [hregion, Except.bind_eq_ok_iff] at h
    obtain ⟨⟨l₁, text⟩, hlabel, h⟩ := h
    obtain ⟨rfl, hregion₁, hitems₁, hdata₁, hnone, hsome⟩ := placeLabel_eq_ok hregion hlabel
    simp only at h
    split_ifs at h with hempty
    · cases h
      obtain ⟨hcode, hbytes⟩ := additions_of_statement_eq_nil hempty l.region l.data.size
      refine ⟨?_, ?_, ?_, hnone, hsome⟩
      · rw [hregion]
        exact hregion₁
      · rw [hcode, hitems₁]
        exact (List.append_nil _).symm
      · rw [hbytes, hdata₁]
        exact (List.append_nil _).symm
    · obtain ⟨hregion', hlabels', hitems', hdata'⟩ := placeStatement_eq_ok hempty h
      rw [hregion₁, hitems₁] at hitems'
      rw [hregion₁, hdata₁] at hdata'
      refine ⟨?_, hitems', hdata', ?_, ?_⟩
      · rw [hregion]
        exact hregion'.trans hregion₁
      · exact fun hl => hlabels'.trans (hnone hl)
      · intro label hl
        rw [hlabels']
        exact hsome label hl

/-! ### Placing all lines -/

theorem placeAll_cons_eq_ok_iff {l l' : Layout} {line : SourceLine} {lines : List SourceLine} :
    l.placeAll (line :: lines) = .ok l' ↔
      ∃ l₁, l.place line = .ok l₁ ∧ l₁.placeAll lines = .ok l' := by
  simp only [placeAll, Except.bind_eq_ok_iff, Except.mapError_eq_ok_iff]

/-- Lines are placed one part after the other. -/
theorem placeAll_append (l : Layout) (lines lines' : List SourceLine) :
    l.placeAll (lines ++ lines') = l.placeAll lines >>= fun l' => l'.placeAll lines' := by
  induction lines generalizing l with
  | nil => rfl
  | cons line lines ih =>
    rw [List.cons_append, placeAll, placeAll]
    cases l.place line with
    | error cause => rfl
    | ok l' => exact ih l'

theorem placeAll_append_eq_ok_iff {l l' : Layout} {lines lines' : List SourceLine} :
    l.placeAll (lines ++ lines') = .ok l' ↔
      ∃ l₁, l.placeAll lines = .ok l₁ ∧ l₁.placeAll lines' = .ok l' := by
  rw [placeAll_append, Except.bind_eq_ok_iff]

/-- A layout has come as far as a count says. -/
structure At (l : Layout) (p : Position) : Prop where
  /-- The sections agree. -/
  region : l.region = p.region
  /-- The words are counted. -/
  words : l.items.size = p.words
  /-- The bytes are counted. -/
  bytes : l.data.size = p.bytes

theorem at_start : empty.At Position.start := ⟨rfl, rfl, rfl⟩

theorem At.here_eq {l : Layout} {p : Position} (h : l.At p) : l.here = p.address := by
  have hregion := h.region
  cases hp : p.region with
  | code =>
    rw [hp] at hregion
    simp only [here, Position.address, hregion, hp, h.words]
  | data =>
    rw [hp] at hregion
    simp only [here, Position.address, hregion, hp, h.bytes]

theorem At.advance {l l' : Layout} {p : Position} {line : SourceLine} (h : l.At p)
    (hplaced : l.Placed line l') : l'.At (p.advance line) where
  region := by rw [hplaced.region, h.region, Position.advance]
  words := by
    have hitems := congrArg List.length hplaced.items
    rw [Array.length_toList, List.length_append, Array.length_toList, length_itemsFrom, h.region,
      h.words] at hitems
    exact hitems
  bytes := by
    have hdata := congrArg List.length hplaced.data
    rw [Array.length_toList, List.length_append, Array.length_toList, h.region, h.bytes] at hdata
    exact hdata

/-- The first pass comes as far as the count says. -/
theorem At.placeAll {l l' : Layout} {p : Position} {lines : List SourceLine} (h : l.At p)
    (hplace : l.placeAll lines = .ok l') : l'.At (lines.foldl Position.advance p) := by
  induction lines generalizing l p with
  | nil =>
    cases hplace
    exact h
  | cons line lines ih =>
    obtain ⟨l₁, hline, hlines⟩ := placeAll_cons_eq_ok_iff.mp hplace
    exact ih (h.advance (placed_of_place hline)) hlines

/-- What has been written down for some lines stays as it is while others are placed. -/
structure Extends (l l' : Layout) : Prop where
  /-- Items are only added at the end. -/
  items : l.items.toList <+: l'.items.toList
  /-- Data are only added at the end. -/
  data : l.data.toList <+: l'.data.toList
  /-- No label changes its address. -/
  labels : ∀ label addr, l.labels.lookup label = some addr → l'.labels.lookup label = some addr

theorem Extends.refl (l : Layout) : l.Extends l :=
  ⟨List.prefix_refl _, List.prefix_refl _, fun _ _ h => h⟩

theorem Extends.trans {l l₁ l' : Layout} (h : l.Extends l₁) (h' : l₁.Extends l') : l.Extends l' :=
  ⟨h.items.trans h'.items, h.data.trans h'.data,
    fun label addr hl => h'.labels label addr (h.labels label addr hl)⟩

theorem Placed.extends {l l' : Layout} {line : SourceLine} (h : l.Placed line l') :
    l.Extends l' := by
  refine ⟨?_, ?_, fun label addr hl => ?_⟩
  · rw [h.items]
    exact List.prefix_append _ _
  · rw [h.data]
    exact List.prefix_append _ _
  · cases hnew : line.label? with
    | none => rwa [h.labels_of_none hnew]
    | some new =>
      obtain ⟨-, hlookup, hlabels⟩ := h.labels_of_some new hnew
      have hne : (label == new) = false := by
        rw [beq_eq_false_iff_ne]
        rintro rfl
        rw [hlookup] at hl
        cases hl
      rwa [hlabels, List.lookup_cons, hne]

theorem extends_of_placeAll {l l' : Layout} {lines : List SourceLine}
    (h : l.placeAll lines = .ok l') : l.Extends l' := by
  induction lines generalizing l with
  | nil =>
    cases h
    exact Extends.refl _
  | cons line lines ih =>
    obtain ⟨l₁, hline, hlines⟩ := placeAll_cons_eq_ok_iff.mp h
    exact (placed_of_place hline).extends.trans (ih hlines)

/-- The items stand one behind the other from address zero on. -/
def Consecutive (l : Layout) : Prop :=
  ∀ k item, l.items.toList[k]? = some item → item.address = codeAddress k

theorem consecutive_empty : empty.Consecutive := nofun

theorem Consecutive.of_placed {l l' : Layout} {line : SourceLine} (h : l.Consecutive)
    (hplaced : l.Placed line l') : l'.Consecutive := by
  intro k item hk
  rw [hplaced.items] at hk
  rcases Nat.lt_or_ge k l.items.toList.length with hlt | hge
  · rw [List.getElem?_append_left hlt] at hk
    exact h k item hk
  · rw [List.getElem?_append_right hge] at hk
    rw [address_of_getElem?_itemsFrom hk, ← Array.length_toList, Nat.add_sub_cancel' hge]

theorem Consecutive.of_placeAll {l l' : Layout} {lines : List SourceLine} (h : l.Consecutive)
    (hplace : l.placeAll lines = .ok l') : l'.Consecutive := by
  induction lines generalizing l with
  | nil =>
    cases hplace
    exact h
  | cons line lines ih =>
    obtain ⟨l₁, hline, hlines⟩ := placeAll_cons_eq_ok_iff.mp hplace
    exact ih (h.of_placed (placed_of_place hline)) hlines

theorem take_append_cons_drop {α : Type} {xs : List α} {j : Nat} {x : α} (hj : xs[j]? = some x) :
    xs.take j ++ x :: xs.drop (j + 1) = xs := by
  obtain ⟨hlt, rfl⟩ := List.getElem?_eq_some_iff.mp hj
  rw [List.getElem_cons_drop, List.take_append_drop]

/-- A line is placed between the lines before it and the lines behind it. -/
theorem exists_place_of_placeAll {l : Layout} {lines : List SourceLine} {j : Nat}
    {line : SourceLine} (h : empty.placeAll lines = .ok l) (hj : lines[j]? = some line) :
    ∃ l₁ l₂, empty.placeAll (lines.take j) = .ok l₁ ∧ l₁.place line = .ok l₂ ∧
      l₂.placeAll (lines.drop (j + 1)) = .ok l := by
  rw [← take_append_cons_drop hj, placeAll_append_eq_ok_iff] at h
  obtain ⟨l₁, hbefore, h⟩ := h
  obtain ⟨l₂, hplace, hafter⟩ := placeAll_cons_eq_ok_iff.mp h
  exact ⟨l₁, l₂, hbefore, hplace, hafter⟩

/-- A line is placed where the lines before it have come, and the lines behind it only add to the
result. -/
theorem exists_placed {l : Layout} {lines : List SourceLine} {j : Nat} {line : SourceLine}
    (h : empty.placeAll lines = .ok l) (hj : lines[j]? = some line) :
    ∃ l₁ l₂, empty.placeAll (lines.take j) = .ok l₁ ∧ l₁.At (Position.before lines j) ∧
      l₁.Placed line l₂ ∧ l₂.Extends l := by
  obtain ⟨l₁, l₂, hbefore, hplace, hafter⟩ := exists_place_of_placeAll h hj
  exact ⟨l₁, l₂, hbefore, at_start.placeAll hbefore, placed_of_place hplace,
    extends_of_placeAll hafter⟩

variable {l : Layout} {lines : List SourceLine} {j : Nat} {line : SourceLine}

/-- All lines have come as far as the whole count says. -/
theorem at_before_length (h : empty.placeAll lines = .ok l) :
    l.At (Position.before lines lines.length) := by
  rw [Position.before, List.take_length]
  exact at_start.placeAll h

/-- The count before a line does not exceed what all lines come to. -/
theorem before_le (h : empty.placeAll lines = .ok l) (hj : lines[j]? = some line) :
    (Position.before lines j).words ≤ l.items.size ∧
      (Position.before lines j).bytes ≤ l.data.size := by
  obtain ⟨l₁, l₂, -, hat, hplaced, hextends⟩ := exists_placed h hj
  have hall := hplaced.extends.trans hextends
  rw [← hat.words, ← hat.bytes]
  exact ⟨hall.items.length_le, hall.data.length_le⟩

/-- A label has the address of what follows it. -/
theorem lookup_label {label : Text} (h : empty.placeAll lines = .ok l) (hj : lines[j]? = some line)
    (hlabel : line.label? = some label) :
    isLabel label = true ∧ l.labels.lookup label = some (Position.before lines j).address := by
  obtain ⟨l₁, l₂, -, hat, hplaced, hextends⟩ := exists_placed h hj
  obtain ⟨hvalid, -, hlabels⟩ := hplaced.labels_of_some label hlabel
  refine ⟨hvalid, hextends.labels label _ ?_⟩
  rw [hlabels, List.lookup_cons_self, hat.here_eq]

/-- No label stands in front of a line if it stands in front of an earlier one. -/
theorem label_ne_of_lt {label : Text} {j' : Nat} {line' : SourceLine}
    (h : empty.placeAll lines = .ok l) (hj : lines[j]? = some line)
    (hj' : lines[j']? = some line') (hlt : j < j') (hlabel : line.label? = some label) :
    line'.label? ≠ some label := by
  intro hlabel'
  obtain ⟨l₁, l₂, hbefore, -, hplaced, -⟩ := exists_placed h hj'
  have hj₁ : (lines.take j')[j]? = some line := by rw [List.getElem?_take_of_lt hlt, hj]
  have hfound := (lookup_label hbefore hj₁ hlabel).2
  rw [(hplaced.labels_of_some label hlabel').2.1] at hfound
  cases hfound

/-- Each label stands in front of a single line. -/
theorem eq_of_label {label : Text} {j' : Nat} {line' : SourceLine}
    (h : empty.placeAll lines = .ok l) (hj : lines[j]? = some line)
    (hj' : lines[j']? = some line') (hlabel : line.label? = some label)
    (hlabel' : line'.label? = some label) : j = j' := by
  rcases Nat.lt_trichotomy j j' with hlt | heq | hgt
  · exact absurd hlabel' (label_ne_of_lt h hj hj' hlt hlabel)
  · exact heq
  · exact absurd hlabel (label_ne_of_lt h hj' hj hgt hlabel')

/-- The items of a line stand where the count puts them. -/
theorem getElem?_items {i : Nat} {text : Text} (h : empty.placeAll lines = .ok l)
    (hj : lines[j]? = some line)
    (hi : (line.codeTexts (Position.before lines j).region)[i]? = some text) :
    l.items.toList[(Position.before lines j).words + i]? =
      some ⟨line.number, codeAddress ((Position.before lines j).words + i), text⟩ := by
  obtain ⟨l₁, l₂, -, hat, hplaced, hextends⟩ := exists_placed h hj
  obtain ⟨later, hlater⟩ := hextends.items
  rw [← hlater, hplaced.items, List.append_assoc, ← hat.words, ← Array.length_toList,
    List.getElem?_append_right (Nat.le_add_right _ _), Nat.add_sub_cancel_left]
  have hitem : (itemsFrom l₁.items.toList.length line.number (line.codeTexts l₁.region))[i]? =
      some ⟨line.number, codeAddress (l₁.items.toList.length + i), text⟩ := by
    rw [← hat.region] at hi
    exact getElem?_itemsFrom hi
  rw [List.getElem?_append_left (List.getElem?_eq_some_iff.mp hitem).1, Array.length_toList]
  rw [Array.length_toList] at hitem
  exact hitem

/-- The bytes of a line stand where the count puts them. -/
theorem getElem?_data {i : Nat} {b : Byte} (h : empty.placeAll lines = .ok l)
    (hj : lines[j]? = some line)
    (hi : (line.bytes (Position.before lines j).bytes (Position.before lines j).region)[i]? =
      some b) :
    l.data.toList[(Position.before lines j).bytes + i]? = some b := by
  obtain ⟨l₁, l₂, -, hat, hplaced, hextends⟩ := exists_placed h hj
  obtain ⟨later, hlater⟩ := hextends.data
  rw [← hat.bytes, ← hat.region] at hi
  rw [← hlater, hplaced.data, List.append_assoc, ← hat.bytes, ← Array.length_toList,
    List.getElem?_append_right (Nat.le_add_right _ _), Nat.add_sub_cancel_left, Array.length_toList,
    List.getElem?_append_left (List.getElem?_eq_some_iff.mp hi).1, hi]

end Layout

/-! ### The words of a line -/

theorem exists_getElem?_of_forall₂ {α β : Type} {R : α → β → Prop} {xs : List α} {ys : List β}
    (h : List.Forall₂ R xs ys) {k : Nat} {x : α} (hk : xs[k]? = some x) :
    ∃ y, ys[k]? = some y ∧ R x y := by
  induction h generalizing k with
  | nil => cases hk
  | cons hxy _ ih =>
    cases k with
    | zero =>
      cases hk
      exact ⟨_, rfl, hxy⟩
    | succ k => exact ih hk

/-- Every word of a program is one of the words of one of its lines. -/
theorem exists_line_of_word {source : Text} {p : Program} {l : Layout} (h : Assembled source l p)
    {k : Nat} (hk : k < p.code.length) :
    ∃ j line i text, (sourceLines source)[j]? = some line ∧
      (line.codeTexts (Position.before (sourceLines source) j).region)[i]? = some text ∧
        (Position.before (sourceLines source) j).words + i = k := by
  rw [← h.size_items, (Layout.at_before_length h.placeAll).words] at hk
  exact Position.exists_line_of_lt hk

/-- The words of a line stand in the program where the count puts them, and each of them is the
word of the instruction that its text spells at its address. -/
theorem exists_word_of_line {source : Text} {p : Program} {l : Layout} (h : Assembled source l p)
    {j i : Nat} {line : SourceLine} {text : Text} (hj : (sourceLines source)[j]? = some line)
    (hi : (line.codeTexts (Position.before (sourceLines source) j).region)[i]? = some text) :
    ∃ w instruction, p.code[(Position.before (sourceLines source) j).words + i]? = some w ∧
      readInstruction l.labels (codeAddress ((Position.before (sourceLines source) j).words + i))
        text = .ok instruction ∧ decode w = .ok instruction := by
  have hitem := Layout.getElem?_items h.placeAll hj hi
  obtain ⟨w, hw, hencode⟩ := exists_getElem?_of_forall₂ h.forall₂_encode hitem
  obtain ⟨instruction, hread, hdecode⟩ := Item.encode_eq_ok_iff.mp hencode
  exact ⟨w, instruction, hw, hread, hdecode⟩

end TileCore

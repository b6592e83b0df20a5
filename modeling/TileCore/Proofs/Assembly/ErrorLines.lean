import TileCore.Proofs.Assembly.Numbering
import TileCore.Proofs.Assembly.Refusals

/-!
# Lines that are to blame

A source that cannot be assembled has a line that is to blame, and which one this is depends on how
far it got. The first pass stops at the first line that cannot be placed; what stands behind this
line has not been looked at, so the source is refused for the same reason without it. Only when all
lines have been placed is it asked whether the code reaches into the place of the data. The second
pass goes over the items in the order of their lines, and it stops at the first one whose text is no
instruction.

## Main definitions

* `lineCount`, `cutBehind`: the number of lines of a source, and the source without its last lines.
* `Item.IsRejected`: the text of an item is no instruction.

## Main results

* `Layout.exists_line_of_error`: an error of the first pass is on one of its lines.
* `Layout.placeAll_cut`: the lines behind it do not matter.
* `Layout.Ordered.of_placeAll`: items stand in the order of their lines.
* `Layout.exists_of_overflow?`: the first item in the place of the data.
* `exists_of_encodeItems_eq_error`: an error of the second pass is that of the first rejected item.
* `errors_name_their_line`: the line of an error.
-/

namespace TileCore

open Text

/-! ### The first pass -/

namespace Layout

variable {l l' : Layout} {lines lines' : List SourceLine} {line : SourceLine} {e : AssemblyError}

/-- An error of the first pass is on one of its lines, and it is one that a line has by itself. -/
theorem exists_line_of_error (h : l.placeAll lines = .error e) :
    (∃ line ∈ lines, line.number = e.line) ∧ e.cause.IsLocal := by
  induction lines generalizing l with
  | nil => cases h
  | cons line lines ih =>
    rw [placeAll] at h
    cases hplace : l.place line with
    | error cause =>
      rw [hplace] at h
      cases h
      exact ⟨⟨line, List.mem_cons_self, rfl⟩, raises_place l line cause hplace⟩
    | ok l' =>
      rw [hplace] at h
      obtain ⟨⟨line', hmem, hnumber⟩, hcause⟩ := ih h
      exact ⟨⟨line', List.mem_cons_of_mem line hmem, hnumber⟩, hcause⟩

/-- The lines behind the one to blame do not matter. -/
theorem placeAll_cut (h : l.placeAll (lines ++ lines') = .error e)
    (hbehind : ∀ line ∈ lines', line.number ≠ e.line) : l.placeAll lines = .error e := by
  rw [placeAll_append] at h
  rcases Except.bind_eq_error_iff.mp h with h | ⟨l', -, h⟩
  · exact h
  · obtain ⟨⟨line, hmem, hnumber⟩, -⟩ := exists_line_of_error h
    exact absurd hnumber (hbehind line hmem)

/-! ### Items and their lines -/

/-- The items stand in the order of their lines, in front of the lines to come. -/
structure Ordered (l : Layout) (lines : List SourceLine) : Prop where
  /-- The items are in order. -/
  items : l.items.toList.Pairwise fun item item' => item.line ≤ item'.line
  /-- The lines to come stand behind them. -/
  behind : ∀ item ∈ l.items.toList, ∀ line ∈ lines, item.line ≤ line.number

theorem line_of_mem_itemsFrom {place number : Nat} {texts : List Text} {item : Item}
    (h : item ∈ itemsFrom place number texts) : item.line = number := by
  induction texts generalizing place with
  | nil => cases h
  | cons text texts ih =>
    rcases List.mem_cons.mp h with rfl | h
    · rfl
    · exact ih h

/-- The items that lines add stand behind the others, and each comes from one of the lines. -/
theorem exists_later_items (h : l.placeAll lines = .ok l') :
    ∃ later, l'.items.toList = l.items.toList ++ later ∧
      ∀ item ∈ later, ∃ line ∈ lines, line.number = item.line := by
  induction lines generalizing l with
  | nil =>
    cases h
    exact ⟨[], (List.append_nil _).symm, List.forall_mem_nil _⟩
  | cons line lines ih =>
    obtain ⟨l₁, hline, hlines⟩ := placeAll_cons_eq_ok_iff.mp h
    obtain ⟨later, hitems, hlater⟩ := ih hlines
    rw [(placed_of_place hline).items, List.append_assoc] at hitems
    refine ⟨_, hitems, fun item hitem => ?_⟩
    rcases List.mem_append.mp hitem with hnew | hitem
    · exact ⟨line, List.mem_cons_self, (line_of_mem_itemsFrom hnew).symm⟩
    · obtain ⟨line', hmem, hnumber⟩ := hlater item hitem
      exact ⟨line', List.mem_cons_of_mem line hmem, hnumber⟩

/-- Every item comes from one of the lines. -/
theorem exists_line_of_item (h : l.placeAll lines = .ok l') {item : Item}
    (hitem : item ∈ l'.items.toList) :
    item ∈ l.items.toList ∨ ∃ line ∈ lines, line.number = item.line := by
  obtain ⟨later, hitems, hlater⟩ := exists_later_items h
  rw [hitems] at hitem
  exact (List.mem_append.mp hitem).imp_right (hlater item)

theorem Ordered.of_place (h : l.Ordered (line :: lines))
    (hline : ∀ line' ∈ lines, line.number < line'.number) (hplace : l.place line = .ok l') :
    l'.Ordered lines := by
  have hadded := (placed_of_place hplace).items
  have hfront : ∀ item ∈ l.items.toList, item.line ≤ line.number :=
    fun item hitem => h.behind item hitem line List.mem_cons_self
  constructor
  · rw [hadded]
    refine List.pairwise_append.mpr ⟨h.items, ?_, fun item hitem item' hitem' => ?_⟩
    · -- The items of a line have the same number.
      refine List.pairwise_of_forall_mem_list fun item hitem item' hitem' => ?_
      exact Nat.le_of_eq ((line_of_mem_itemsFrom hitem).trans (line_of_mem_itemsFrom hitem').symm)
    · rw [line_of_mem_itemsFrom hitem']
      exact hfront item hitem
  · intro item hitem line' hline'
    rw [hadded] at hitem
    rcases List.mem_append.mp hitem with hold | hnew
    · exact h.behind item hold line' (List.mem_cons_of_mem line hline')
    · rw [line_of_mem_itemsFrom hnew]
      exact Nat.le_of_lt (hline line' hline')

theorem Ordered.of_placeAll (h : l.Ordered lines)
    (hlines : lines.Pairwise fun line line' => line.number < line'.number)
    (hplace : l.placeAll lines = .ok l') : l'.Ordered [] := by
  induction lines generalizing l with
  | nil =>
    cases hplace
    exact h
  | cons line lines ih =>
    obtain ⟨hline, hrest⟩ := List.pairwise_cons.mp hlines
    obtain ⟨l₁, hfirst, hothers⟩ := placeAll_cons_eq_ok_iff.mp hplace
    exact ih (h.of_place hline hfirst) hrest hothers

theorem ordered_empty (lines : List SourceLine) : empty.Ordered lines := ⟨.nil, nofun⟩

/-- The items of a source stand in the order of their lines. -/
theorem pairwise_items {source : Text} (h : empty.placeAll (sourceLines source) = .ok l) :
    l.items.toList.Pairwise fun item item' => item.line ≤ item'.line :=
  ((ordered_empty _).of_placeAll pairwise_numberLines h).items

/-! ### Code in the place of the data -/

/-- The first item in the place of the data stands at its beginning, and there are data. -/
theorem exists_of_overflow? {item : Item} (hitems : l.Consecutive) (h : l.overflow? = some item) :
    l.data.size ≠ 0 ∧ item.address = 0x200 ∧ ∃ front back,
      l.items.toList = front ++ item :: back ∧
        ∀ item' ∈ front, item'.address.toNat < dataStart := by
  rw [overflow?] at h
  split_ifs at h with hdata
  rw [← Array.find?_toList, List.find?_eq_some_iff_append] at h
  obtain ⟨hplace, front, back, hsplit, hfront⟩ := h
  replace hplace := of_decide_eq_true hplace
  have hbefore : ∀ item' ∈ front, item'.address.toNat < dataStart := by simpa using hfront
  refine ⟨hdata, ?_, front, back, hsplit, hbefore⟩
  have haddress : item.address = codeAddress front.length :=
    hitems front.length item (by rw [hsplit, List.getElem?_append_right (Nat.le_refl _)]; simp)
  have hle : front.length ≤ 128 := by
    by_contra hlt
    have hin : front[128]? = some front[128] := List.getElem?_eq_getElem (by omega)
    have hstart := hitems 128 front[128] (by rw [hsplit, List.getElem?_append_left (by omega), hin])
    refine absurd (hbefore _ (List.mem_of_getElem? hin)) ?_
    rw [hstart]
    decide
  rw [haddress, toNat_codeAddress (by omega), dataStart] at hplace
  have hlength : front.length = 128 := by omega
  rw [haddress, hlength]
  rfl

/-- The first pass is refused on a line, or it finds code in the place of the data. -/
theorem ofLines_eq_error_iff :
    ofLines lines = .error e ↔ empty.placeAll lines = .error e ∨
      ∃ l item, empty.placeAll lines = .ok l ∧ l.overflow? = some item ∧
        e = ⟨item.line, .codeOverflow⟩ := by
  rw [ofLines, Except.bind_eq_error_iff]
  refine or_congr_right (exists_congr fun l => ?_)
  cases l.overflow? with
  | none => simp [pure, Except.pure]
  | some item => simp [eq_comm]

end Layout

/-! ### The second pass -/

/-- The text of an item is no instruction. -/
def Item.IsRejected (labels : Labels) (item : Item) : Prop :=
  ∃ cause, readInstruction labels item.address item.text = .error cause

section Items

variable {labels : Labels} {item : Item} {items : List Item} {e : AssemblyError}

/-- An item is refused on its own line, because its text is no instruction. -/
theorem Item.encode_eq_error_iff :
    item.encode labels = .error e ↔
      readInstruction labels item.address item.text = .error e.cause ∧ e.line = item.line := by
  rw [Item.encode]
  cases hread : readInstruction labels item.address item.text with
  | error cause =>
    obtain ⟨line, cause'⟩ := e
    simp [eq_comm, and_comm]
  | ok i =>
    obtain ⟨w, hw⟩ := exists_encode_of_readInstruction hread
    simp [hw, Except.mapError]

/-- An error of the second pass is that of the first item that is rejected. -/
theorem exists_of_encodeItems_eq_error (h : encodeItems labels items = .error e) :
    ∃ front item back, items = front ++ item :: back ∧
      (∀ item' ∈ front, ¬item'.IsRejected labels) ∧ item.encode labels = .error e := by
  induction items with
  | nil => cases h
  | cons item items ih =>
    rw [encodeItems] at h
    rcases Except.bind_eq_error_iff.mp h with h | ⟨w, hw, h⟩
    · exact ⟨[], item, items, rfl, List.forall_mem_nil _, h⟩
    · rcases Except.bind_eq_error_iff.mp h with h | ⟨ws, -, h⟩
      · obtain ⟨front, item', back, rfl, hfront, hitem'⟩ := ih h
        refine ⟨item :: front, item', back, rfl, List.forall_mem_cons.mpr ⟨?_, hfront⟩, hitem'⟩
        rintro ⟨cause, hcause⟩
        obtain ⟨i, hi, -⟩ := Item.encode_eq_ok_iff.mp hw
        rw [hi] at hcause
        cases hcause
      · cases h

/-- Among items in the order of their lines, the error of the second pass is on the first line with
an item that is rejected. -/
theorem line_of_encodeItems_eq_error (h : encodeItems labels items = .error e)
    (hitems : items.Pairwise fun item item' => item.line ≤ item'.line) :
    (∃ item ∈ items, item.line = e.line ∧
        readInstruction labels item.address item.text = .error e.cause) ∧
      ∀ item ∈ items, item.IsRejected labels → e.line ≤ item.line := by
  obtain ⟨front, item, back, rfl, hfront, hitem⟩ := exists_of_encodeItems_eq_error h
  obtain ⟨hcause, hline⟩ := Item.encode_eq_error_iff.mp hitem
  refine ⟨⟨item, by simp, hline.symm, hcause⟩, fun item' hitem' hrejected => ?_⟩
  rcases List.mem_append.mp hitem' with hmem | hmem
  · exact absurd hrejected (hfront item' hmem)
  · rw [hline]
    rcases List.mem_cons.mp hmem with rfl | hmem
    · exact Nat.le_refl _
    · exact (List.pairwise_cons.mp (List.pairwise_append.mp hitems).2.1).1 item' hmem

end Items

/-! ### The line of an error -/

/-- The number of lines of a source. A line break at the end begins no line. -/
def lineCount (source : Text) : Nat :=
  if (writtenLines source).getLast? = some [] then (writtenLines source).length - 1
  else (writtenLines source).length

/-- The first `n` lines of a source. -/
def cutBehind (n : Nat) (source : Text) : Text := ofWrittenLines ((writtenLines source).take n)

section Source

variable {source : Text} {e : AssemblyError} {l : Layout}

/-- The line of a statement is one of the lines of the source, and it says something. -/
theorem exists_writtenLine {line : SourceLine} (h : line ∈ sourceLines source) :
    1 ≤ line.number ∧ line.number ≤ lineCount source ∧
      ∃ text, (writtenLines source)[line.number - 1]? = some text ∧ remainder text ≠ [] := by
  obtain ⟨i, text, hi, hnumber, -, hne⟩ := exists_getElem?_of_mem_numberLines h
  have hlt := (List.getElem?_eq_some_iff.mp hi).1
  obtain rfl : i = line.number - 1 := by omega
  refine ⟨by omega, ?_, text, hi, hne⟩
  rw [lineCount]
  split_ifs with hlast
  · -- The last line says nothing, so it is another one.
    have hother : line.number - 1 ≠ (writtenLines source).length - 1 := by
      intro heq
      rw [List.getLast?_eq_getElem?, ← heq] at hlast
      cases hi.symm.trans hlast
      exact hne rfl
    rw [← writtenLines] at hlt
    omega
  · rw [← writtenLines] at hlt
    omega

/-- The statements of the first lines of a source are the first statements. -/
theorem exists_sourceLines_cutBehind (n : Nat) (source : Text) (hn : 1 ≤ n) :
    ∃ others, sourceLines source = sourceLines (cutBehind n source) ++ others ∧
      ∀ line ∈ others, n < line.number := by
  have hne : (writtenLines source).take n ≠ [] := by
    rw [Ne, List.take_eq_nil_iff, not_or]
    exact ⟨by omega, writtenLines_ne_nil source⟩
  have hbreak : ∀ line ∈ (writtenLines source).take n, '\n' ∉ line :=
    fun line h => notMem_of_mem_writtenLines (List.mem_of_mem_take h)
  refine ⟨numberLines (1 + ((writtenLines source).take n).length) ((writtenLines source).drop n),
    ?_, fun line hline => ?_⟩
  · rw [cutBehind, sourceLines_ofWrittenLines hbreak hne, ← numberLines_append,
      List.take_append_drop]
    rfl
  · obtain ⟨i, text, hi, hnumber, -⟩ := exists_getElem?_of_mem_numberLines hline
    have hlt := (List.getElem?_eq_some_iff.mp hi).1
    rw [List.length_drop] at hlt
    rw [List.length_take] at hnumber
    omega

/-- An error of the first pass on a line is that of the source up to this line. -/
theorem assemble_cutBehind (h : Layout.empty.placeAll (sourceLines source) = .error e) :
    assemble (cutBehind e.line source) = .error e := by
  obtain ⟨⟨line, hline, hnumber⟩, -⟩ := Layout.exists_line_of_error h
  obtain ⟨others, hsplit, hbehind⟩ := exists_sourceLines_cutBehind e.line source
    (hnumber ▸ (exists_writtenLine hline).1)
  rw [hsplit] at h
  have hcut := Layout.placeAll_cut h fun line hline => (Nat.ne_of_lt (hbehind line hline)).symm
  rw [assemble, Layout.ofLines_eq_error_iff.mpr (.inl hcut)]
  rfl

theorem assemble_eq_error_iff :
    assemble source = .error e ↔ Layout.ofLines (sourceLines source) = .error e ∨
      ∃ l, Layout.ofLines (sourceLines source) = .ok l ∧
        encodeItems l.labels l.items.toList = .error e := by
  rw [assemble, Except.bind_eq_error_iff]
  refine or_congr_right (exists_congr fun l => and_congr_right fun _ => ?_)
  rw [Except.bind_eq_error_iff]
  -- Once all words are there, nothing can fail.
  refine or_iff_left ?_
  rintro ⟨ws, -, h⟩
  cases h

/-- An error is on one of the lines that say something. -/
theorem exists_line_of_assemble_eq_error (h : assemble source = .error e) :
    ∃ line ∈ sourceLines source, line.number = e.line := by
  have hitem {l : Layout} {item : Item}
      (hplace : Layout.empty.placeAll (sourceLines source) = .ok l)
      (hmem : item ∈ l.items.toList) : ∃ line ∈ sourceLines source, line.number = item.line :=
    (Layout.exists_line_of_item hplace hmem).resolve_left List.not_mem_nil
  rcases assemble_eq_error_iff.mp h with h | ⟨l, hl, h⟩
  · rcases Layout.ofLines_eq_error_iff.mp h with h | ⟨l, item, hplace, hover, rfl⟩
    · exact (Layout.exists_line_of_error h).1
    · have hconsecutive := Layout.Consecutive.of_placeAll Layout.consecutive_empty hplace
      obtain ⟨-, -, front, back, hsplit, -⟩ := Layout.exists_of_overflow? hconsecutive hover
      exact hitem hplace (by rw [hsplit]; simp)
  · obtain ⟨front, item, back, hsplit, -, hencode⟩ := exists_of_encodeItems_eq_error h
    rw [(Item.encode_eq_error_iff.mp hencode).2]
    exact hitem (Layout.ofLines_eq_ok_iff.mp hl).1 (by rw [hsplit]; simp)

end Source

/-- The error of a source is on one of its lines, and this line says something. If the first pass
succeeds, it is the first line with an item whose text is no instruction. If the first pass fails on
a line, the source fails in the same way without the lines behind it; and if it finds code in the
place of the data, the error is on the line of the item at the start of the data, which is the first
one there. -/
theorem errors_name_their_line {source : Text} {e : AssemblyError}
    (h : assemble source = .error e) :
    (1 ≤ e.line ∧ e.line ≤ lineCount source ∧
      ∃ text, (writtenLines source)[e.line - 1]? = some text ∧ remainder text ≠ []) ∧
    (∀ l, Layout.ofLines (sourceLines source) = .ok l →
      (∃ item ∈ l.items.toList, item.line = e.line ∧
        readInstruction l.labels item.address item.text = .error e.cause) ∧
      ∀ item ∈ l.items.toList, item.IsRejected l.labels → e.line ≤ item.line) ∧
    ∀ e', Layout.ofLines (sourceLines source) = .error e' → e' = e ∧
      (e.cause ≠ .codeOverflow → assemble (cutBehind e.line source) = .error e) ∧
      (e.cause = .codeOverflow → ∃ l item front back,
        Layout.empty.placeAll (sourceLines source) = .ok l ∧ l.data.size ≠ 0 ∧
        l.items.toList = front ++ item :: back ∧ item.line = e.line ∧ item.address = 0x200 ∧
        ∀ item' ∈ front, item'.address.toNat < 0x200) := by
  obtain ⟨line, hline, hnumber⟩ := exists_line_of_assemble_eq_error h
  refine ⟨hnumber ▸ exists_writtenLine hline, fun l hl => ?_, fun e' he' => ?_⟩
  · rcases assemble_eq_error_iff.mp h with h | ⟨l', hl', h⟩
    · rw [hl] at h
      cases h
    · obtain rfl : l = l' := Except.ok.inj (hl.symm.trans hl')
      exact line_of_encodeItems_eq_error h
        (Layout.pairwise_items (Layout.ofLines_eq_ok_iff.mp hl).1)
  · obtain rfl : e' = e :=
      Except.error.inj ((assemble_eq_error_iff.mpr (.inl he')).symm.trans h)
    rcases Layout.ofLines_eq_error_iff.mp he' with hfirst | ⟨l, item, hplace, hover, rfl⟩
    · refine ⟨rfl, fun _ => assemble_cutBehind hfirst, fun hcause => ?_⟩
      have hlocal := (Layout.exists_line_of_error hfirst).2
      rw [hcause] at hlocal
      exact hlocal.elim
    · refine ⟨rfl, fun hne => absurd rfl hne, fun _ => ?_⟩
      have hconsecutive := Layout.Consecutive.of_placeAll Layout.consecutive_empty hplace
      obtain ⟨hdata, haddress, front, back, hsplit, hfront⟩ :=
        Layout.exists_of_overflow? hconsecutive hover
      exact ⟨l, item, front, back, hplace, hdata, hsplit, rfl, haddress, hfront⟩

/-- A branch without a target, in front of a line that cannot be placed. -/
def twoFaultsSource : Text := "bnez x1, out\n# data\n.data\n.half 70000\n.word".toList

/-- A comment, a shorthand for two words and two lines that are no instructions. -/
def twoRejectedSource : Text := "// start\nla x1, v\nv: bnez x1, out\naddi x1\n".toList

/-- Code that is one instruction too long for its data. -/
def longSource : Text := List.flatten (List.replicate 129 "nop\n".toList) ++ ".data\n.half 1".toList

theorem errors_name_their_line_of_three :
    assemble twoFaultsSource = .error ⟨4, .halfRange 70000⟩ ∧
      assemble "bnez x1, out\n# data\n.data\n.half 70000".toList = .error ⟨4, .halfRange 70000⟩ ∧
      assemble twoRejectedSource = .error ⟨3, .labelNotFound "out".toList⟩ ∧
      lineCount twoRejectedSource = 4 ∧
      (∃ l, Layout.ofLines (sourceLines twoRejectedSource) = .ok l ∧
        ∀ item ∈ l.items.toList, item.IsRejected l.labels → 3 ≤ item.line) ∧
      assemble longSource = .error ⟨129, .codeOverflow⟩ ∧
      ∃ l item front back, Layout.empty.placeAll (sourceLines longSource) = .ok l ∧
        l.items.toList = front ++ item :: back ∧ item.line = 129 ∧ item.address = 0x200 := by
  have hfirst : Layout.ofLines (sourceLines twoFaultsSource) = .error ⟨4, .halfRange 70000⟩ := by
    decide +kernel
  have hfull : Layout.ofLines (sourceLines longSource) = .error ⟨129, .codeOverflow⟩ := by
    decide +kernel
  have hfaults := assemble_eq_error_iff.mpr (.inl hfirst)
  have hlong := assemble_eq_error_iff.mpr (.inl hfull)
  have hrejected : assemble twoRejectedSource = .error ⟨3, .labelNotFound "out".toList⟩ := by
    decide +kernel
  have hcut : cutBehind 4 twoFaultsSource = "bnez x1, out\n# data\n.data\n.half 70000".toList := by
    decide +kernel
  obtain ⟨l, hl, -⟩ := (assemble_eq_error_iff.mp hrejected).resolve_left (by decide +kernel)
  obtain ⟨-, hitems⟩ := (errors_name_their_line hrejected).2.1 l hl
  obtain ⟨-, hsame, -⟩ := (errors_name_their_line hfaults).2.2 _ hfirst
  obtain ⟨-, -, hover⟩ := (errors_name_their_line hlong).2.2 _ hfull
  obtain ⟨l', item, front, back, hplace, -, hsplit, hline, haddress, -⟩ := hover rfl
  rw [← hcut]
  exact ⟨hfaults, hsame nofun, hrejected, by decide +kernel, ⟨l, hl, hitems⟩, hlong, l', item,
    front, back, hplace, hsplit, hline, haddress⟩

end TileCore

import TileCore.Proofs.Assembly.Numbering
import TileCore.Proofs.Assembly.Programs

/-!
# What a source looks like

How a source is laid out does not matter. Blanks around a line and comments behind it are taken off
before anything else is done, so they change neither the program nor the error; a carriage return
in front of a line break is such a blank. A line more that says nothing leaves the program alone
too. It counts, however, so an error that was found behind it is reported one line further down:
apart from this the line numbers are nowhere looked at while a source is assembled.

## Main definitions

* `IsSpacing`, `IsIdle`: blanks within a line, and lines that say nothing.
* `StartsComment`: where comments start.
* `editLine`, `insertLine`, `withReturns`: what is done to a source.
* `makeRoom`: the number of a line behind an inserted one.

## Main results

* `remainder_append`, `remainder_blanks_append`, `IsIdle.remainder_eq`: what lines say.
* `assemble_congr`: sources whose lines say the same.
* `assemble_of_renumber`: line numbers are handed through.
* `layout_is_irrelevant`: what blanks, comments and idle lines do to a source.
-/

namespace TileCore

open Text

/-! ### Blanks and comments -/

/-- Blanks that do not end a line, such as spaces and tabs. -/
def IsSpacing (s : Text) : Prop := ∀ c ∈ s, isBlank c = true ∧ c ≠ '\n'

instance (s : Text) : Decidable (IsSpacing s) :=
  inferInstanceAs (Decidable (∀ c ∈ s, isBlank c = true ∧ c ≠ '\n'))

/-- The two ways to start a comment. -/
def commentMarks : List Text := ["//".toList, "#".toList]

/-- A line that is blank up to its end or up to a comment. -/
inductive IsIdle : Text → Prop
  /-- There is nothing else. -/
  | blank {spacing : Text} (h : IsSpacing spacing) : IsIdle spacing
  /-- There is a comment. -/
  | comment {spacing mark text : Text} (h : IsSpacing spacing) (hmark : mark ∈ commentMarks)
      (htext : '\n' ∉ text) : IsIdle (spacing ++ mark ++ text)

section Comments

variable {c : Char} {s t : Text}

/-- A comment starts at a character. -/
def StartsComment (c : Char) (s : Text) : Prop := c = '#' ∨ (c = '/' ∧ s.head? = some '/')

theorem stripComment_cons_eq_nil (h : StartsComment c s) : stripComment (c :: s) = [] := by
  rcases h with rfl | ⟨rfl, hhead⟩
  · rfl
  · obtain ⟨rest, rfl⟩ := List.head?_eq_some_iff.mp hhead
    rfl

theorem stripComment_cons (h : ¬StartsComment c s) :
    stripComment (c :: s) = c :: stripComment s := by
  rw [stripComment.eq_def]
  split
  · next heq => cases heq
  · next heq => exact absurd (.inl (List.cons.inj heq).1) h
  · next heq =>
    obtain ⟨rfl, rfl⟩ := List.cons.inj heq
    exact absurd (.inr ⟨rfl, rfl⟩) h
  · next heq =>
    cases heq
    rfl

theorem not_startsComment_of_isBlank (h : isBlank c = true) : ¬StartsComment c s := by
  rintro (rfl | ⟨rfl, -⟩) <;> revert h <;> decide

/-- No comment starts among blanks. -/
theorem stripComment_blanks_append (hs : ∀ c ∈ s, isBlank c = true) (t : Text) :
    stripComment (s ++ t) = s ++ stripComment t := by
  induction s with
  | nil => rfl
  | cons c s ih =>
    obtain ⟨hc, hs⟩ := List.forall_mem_cons.mp hs
    rw [List.cons_append, stripComment_cons (not_startsComment_of_isBlank hc), ih hs,
      List.cons_append]

/-- A text that does not begin with a slash starts no comment together with what stands in front
of it. So a comment starts in front of the text, or only in the text itself. -/
theorem stripComment_append (s : Text) (ht : t.head? ≠ some '/') :
    stripComment (s ++ t) = stripComment s ∨
      stripComment s = s ∧ stripComment (s ++ t) = s ++ stripComment t := by
  induction s with
  | nil => exact .inr ⟨rfl, rfl⟩
  | cons c s ih =>
    have hiff : StartsComment c (s ++ t) ↔ StartsComment c s := by
      rw [StartsComment, StartsComment]
      cases s with
      | nil => simp [ht]
      | cons d s => rfl
    by_cases hc : StartsComment c s
    · rw [List.cons_append, stripComment_cons_eq_nil hc, stripComment_cons_eq_nil (hiff.mpr hc)]
      exact .inl rfl
    · rw [List.cons_append, stripComment_cons hc, stripComment_cons (mt hiff.mp hc)]
      exact ih.imp (congrArg (c :: ·)) fun h => ⟨congrArg (c :: ·) h.1, congrArg (c :: ·) h.2⟩

end Comments

section Remainder

variable {a b line : Text}

/-- Blanks in front of a line do not count. -/
theorem remainder_blanks_append (ha : ∀ c ∈ a, isBlank c = true) (line : Text) :
    remainder (a ++ line) = remainder line := by
  rw [remainder, stripComment_blanks_append ha, trim_blanks_append ha, remainder]

/-- What is blank but for a comment does not count behind a line. -/
theorem remainder_append (line : Text) (hhead : b.head? ≠ some '/')
    (hb : ∀ c ∈ stripComment b, isBlank c = true) : remainder (line ++ b) = remainder line := by
  rw [remainder, remainder]
  rcases stripComment_append line hhead with h | ⟨hline, h⟩
  · rw [h]
  · rw [h, trim_append_blanks hb, hline]

/-- Nor do blanks alone. -/
theorem remainder_append_blanks (line : Text) (hb : ∀ c ∈ b, isBlank c = true) :
    remainder (line ++ b) = remainder line := by
  have hstrip : stripComment b = b := by
    have happend := stripComment_blanks_append hb []
    rwa [List.append_nil, stripComment, List.append_nil] at happend
  refine remainder_append line (fun hhead => ?_) (hstrip.symm ▸ hb)
  exact absurd (hb '/' (List.mem_of_head? hhead)) (by decide)

theorem stripComment_mark {mark : Text} (h : mark ∈ commentMarks) (text : Text) :
    stripComment (mark ++ text) = [] := by
  simp only [commentMarks, List.mem_cons, List.not_mem_nil, or_false] at h
  rcases h with rfl | rfl <;> rfl

/-- A comment behind a blank does not count. -/
theorem remainder_append_comment {mark : Text} (line : Text) (h : mark ∈ commentMarks)
    (text : Text) : remainder (line ++ ' ' :: mark ++ text) = remainder line := by
  have hblank : ∀ c ∈ [' '], isBlank c = true := by decide
  have hstrip : stripComment (' ' :: mark ++ text) = [' '] := by
    rw [← List.singleton_append, List.append_assoc, stripComment_blanks_append hblank,
      stripComment_mark h, List.append_nil]
  rw [List.append_assoc]
  exact remainder_append line (by simp) (hstrip.symm ▸ hblank)

/-- An idle line says nothing. -/
theorem IsIdle.remainder_eq (h : IsIdle line) : remainder line = [] := by
  cases h with
  | blank h =>
    have hnil := remainder_blanks_append (fun c hc => (h c hc).1) []
    rwa [List.append_nil] at hnil
  | comment h hmark =>
    rw [List.append_assoc, remainder_blanks_append fun c hc => (h c hc).1, remainder,
      stripComment_mark hmark]
    rfl

theorem IsIdle.noBreak (h : IsIdle line) : '\n' ∉ line := by
  cases h with
  | blank h => exact fun hmem => (h '\n' hmem).2 rfl
  | comment h hmark htext =>
    have hmark₀ : ∀ mark ∈ commentMarks, '\n' ∉ mark := by decide
    simp only [List.mem_append, not_or]
    exact ⟨⟨fun hmem => (h '\n' hmem).2 rfl, hmark₀ _ hmark⟩, htext⟩

end Remainder

/-! ### Sources whose lines say the same -/

/-- Sources whose lines say the same, one by one, are assembled alike. -/
theorem assemble_congr {source source' : Text}
    (h : (writtenLines source).map remainder = (writtenLines source').map remainder) :
    assemble source = assemble source' := by
  rw [assemble, assemble, sourceLines, sourceLines, ← writtenLines, ← writtenLines,
    numberLines_congr h]

/-- A source in which line `j`, counted from zero, is replaced. -/
def editLine (j : Nat) (f : Text → Text) (source : Text) : Text :=
  ofWrittenLines ((writtenLines source).modify j f)

/-- Replacing a line by one that says the same changes nothing. -/
theorem assemble_editLine (j : Nat) {f : Text → Text} (source : Text)
    (hbreak : ∀ line, '\n' ∉ line → '\n' ∉ f line)
    (hf : ∀ line, remainder (f line) = remainder line) :
    assemble (editLine j f source) = assemble source := by
  refine assemble_congr ?_
  rw [editLine, writtenLines_ofWrittenLines]
  · refine List.ext_getElem? fun i => ?_
    rw [List.getElem?_map, List.getElem?_map, List.getElem?_modify, Option.map_eq_map,
      Option.map_map]
    congr 1
    funext line
    rw [Function.comp_apply]
    split_ifs
    · exact hf line
    · rfl
  · intro line hline
    obtain ⟨i, hi⟩ := List.mem_iff_getElem?.mp hline
    rw [List.getElem?_modify] at hi
    obtain ⟨line', hline', rfl⟩ := Option.map_eq_some_iff.mp hi
    have hold := notMem_of_mem_writtenLines (List.mem_of_getElem? hline')
    split_ifs
    · exact hbreak _ hold
    · exact hold
  · exact fun hnil => writtenLines_ne_nil source (List.modify_eq_nil_iff.mp hnil)

/-- A source with a carriage return in front of each line break. -/
def withReturns (source : Text) : Text :=
  source.flatMap fun c => if c = '\n' then ['\r', '\n'] else [c]

theorem splitEach_cons_of_ne {sep c : Char} {s piece : Text} {pieces : List Text} (h : c ≠ sep)
    (hs : splitEach sep s = piece :: pieces) : splitEach sep (c :: s) = (c :: piece) :: pieces := by
  rw [splitEach, if_neg h, hs]

/-- Each line of the source with carriage returns ends in one, unless it is the last line. -/
theorem forall₂_writtenLines_withReturns (source : Text) :
    List.Forall₂ (fun line line' => line = line' ∨ line = line' ++ ['\r'])
      (writtenLines (withReturns source)) (writtenLines source) := by
  induction source with
  | nil => exact .cons (.inl rfl) .nil
  | cons c source ih =>
    rw [withReturns, List.flatMap_cons, ← withReturns]
    by_cases hc : c = '\n'
    · subst hc
      exact .cons (.inr rfl) ih
    · rw [if_neg hc, List.singleton_append]
      obtain ⟨line', lines', hlines'⟩ := List.exists_cons_of_ne_nil (writtenLines_ne_nil source)
      rw [hlines'] at ih
      obtain ⟨line, lines, hline, hrest, hlines⟩ := List.forall₂_cons_right_iff.mp ih
      rw [writtenLines, splitEach_cons_of_ne hc hlines, writtenLines,
        splitEach_cons_of_ne hc hlines']
      exact .cons (hline.imp (congrArg (c :: ·)) (congrArg (c :: ·))) hrest

theorem assemble_withReturns (source : Text) : assemble (withReturns source) = assemble source := by
  refine assemble_congr (List.forall₂_eq_eq_eq ▸ ?_)
  rw [List.forall₂_map_left_iff, List.forall₂_map_right_iff]
  refine (forall₂_writtenLines_withReturns source).imp fun line line' hline => ?_
  rcases hline with rfl | rfl
  · rfl
  · exact remainder_append_blanks line' (by decide)

/-! ### Line numbers -/

/-- A statement with another number. -/
def SourceLine.renumber (f : Nat → Nat) (line : SourceLine) : SourceLine :=
  { line with number := f line.number }

/-- An item with another line number. -/
def Item.renumber (f : Nat → Nat) (item : Item) : Item := { item with line := f item.line }

/-- An error with another line number. -/
def AssemblyError.renumber (f : Nat → Nat) (e : AssemblyError) : AssemblyError :=
  { e with line := f e.line }

namespace Layout

/-- A layout whose items have other line numbers. -/
def renumber (f : Nat → Nat) (l : Layout) : Layout :=
  { l with items := l.items.map (Item.renumber f) }

variable (f : Nat → Nat)

theorem renumber_push (l : Layout) (number : Nat) (text : Text) :
    (l.renumber f).push (f number) text = (l.push number text).renumber f := by
  simp only [push, renumber, Array.map_push, Array.size_map, Item.renumber]

theorem renumber_append (l : Layout) (number : Nat) (texts : List Text) :
    (l.renumber f).append (f number) texts = (l.append number texts).renumber f := by
  induction texts generalizing l with
  | nil => rfl
  | cons text texts ih =>
    rw [append, append, List.foldl_cons, List.foldl_cons, renumber_push]
    exact ih (l.push number text)

theorem renumber_here (l : Layout) : (l.renumber f).here = l.here := by
  simp only [here, renumber, Array.size_map]

theorem renumber_define (l : Layout) (label : Text) :
    (l.renumber f).define label = (l.define label).map (renumber f) := by
  have hlabels : (l.renumber f).labels = l.labels := rfl
  rw [define, define, renumber_here, hlabels]
  split_ifs <;> rfl

theorem renumber_placeStatement (l : Layout) (number : Nat) (text : Text) :
    (l.renumber f).placeStatement (f number) text =
      (l.placeStatement number text).map (renumber f) := by
  have hregion : (l.renumber f).region = l.region := rfl
  rw [placeStatement, placeStatement, hregion]
  cases l.region with
  | code =>
    dsimp only
    split_ifs
    · rfl
    · cases expand text with
      | error cause => rfl
      | ok texts => exact congrArg Except.ok (renumber_append f l number texts)
  | data =>
    have hsize : (l.renumber f).data.size = l.data.size := rfl
    dsimp only
    rw [hsize]
    cases dataBytes l.data.size text <;> rfl

/-- Placing a line hands its number through. -/
theorem renumber_place (l : Layout) (line : SourceLine) :
    (l.renumber f).place (line.renumber f) = (l.place line).map (renumber f) := by
  have htext : (line.renumber f).text = line.text := rfl
  have hlabel : (l.renumber f).placeLabel line.text =
      (l.placeLabel line.text).map fun parts => (parts.1.renumber f, parts.2) := by
    rw [placeLabel, placeLabel]
    cases splitFirst? (· == ':') line.text with
    | none => rfl
    | some parts =>
      simp only [renumber_define]
      cases l.define (trim parts.1) <;> rfl
  rw [place, place, htext]
  cases Region.ofLine? line.text with
  | some region => rfl
  | none =>
    simp only [hlabel, Except.bind_map_left, Except.map_bind_right]
    congr 1
    funext parts
    split_ifs
    · rfl
    · exact renumber_placeStatement f parts.1 line.number parts.2

/-- Placing lines hands their numbers through, to the items and to the error. -/
theorem renumber_placeAll (l : Layout) (lines : List SourceLine) :
    (l.renumber f).placeAll (lines.map (SourceLine.renumber f)) =
      ((l.placeAll lines).map (renumber f)).mapError (AssemblyError.renumber f) := by
  induction lines generalizing l with
  | nil => rfl
  | cons line lines ih =>
    rw [List.map_cons, placeAll, placeAll, renumber_place]
    cases l.place line with
    | error cause => rfl
    | ok l' => exact ih l'

theorem renumber_overflow? (l : Layout) :
    (l.renumber f).overflow? = l.overflow?.map (Item.renumber f) := by
  simp only [overflow?, renumber, Array.find?_map]
  split_ifs
  · rfl
  · rfl

theorem renumber_ofLines (lines : List SourceLine) :
    ofLines (lines.map (SourceLine.renumber f)) =
      ((ofLines lines).map (renumber f)).mapError (AssemblyError.renumber f) := by
  have hempty : empty.renumber f = empty := by rw [renumber, empty, Array.map_empty]
  have hplace := renumber_placeAll f empty lines
  rw [hempty] at hplace
  rw [ofLines, ofLines, hplace]
  cases empty.placeAll lines with
  | error e => rfl
  | ok l =>
    simp only [Except.map, Except.mapError, bind, Except.bind, renumber_overflow?]
    cases l.overflow? <;> rfl

end Layout

section Sources

variable (f : Nat → Nat)

theorem Item.renumber_encode (labels : Labels) (item : Item) :
    (item.renumber f).encode labels =
      (item.encode labels).mapError (AssemblyError.renumber f) := by
  have hread : readInstruction labels (item.renumber f).address (item.renumber f).text =
      readInstruction labels item.address item.text := rfl
  rw [encode, encode, hread]
  cases readInstruction labels item.address item.text with
  | error cause => rfl
  | ok i =>
    dsimp only
    cases i.encode <;> rfl

/-- The words of items do not depend on their line numbers. -/
theorem encodeItems_renumber (labels : Labels) (items : List Item) :
    encodeItems labels (items.map (Item.renumber f)) =
      (encodeItems labels items).mapError (AssemblyError.renumber f) := by
  induction items with
  | nil => rfl
  | cons item items ih =>
    rw [List.map_cons, encodeItems, encodeItems, Item.renumber_encode, ih]
    cases item.encode labels with
    | error e => rfl
    | ok w => cases encodeItems labels items <;> rfl

/-- The program of a source does not depend on the numbers of its lines, and its error only in the
number that is reported. -/
theorem assemble_of_renumber {source source' : Text}
    (h : sourceLines source' = (sourceLines source).map (SourceLine.renumber f)) :
    assemble source' = (assemble source).mapError (AssemblyError.renumber f) := by
  rw [assemble, assemble, h, Layout.renumber_ofLines]
  cases Layout.ofLines (sourceLines source) with
  | error e => rfl
  | ok l =>
    have hitems : (l.renumber f).items.toList = l.items.toList.map (Item.renumber f) :=
      Array.toList_map
    change (encodeItems l.labels (l.renumber f).items.toList >>= _) =
      (encodeItems l.labels l.items.toList >>= _).mapError _
    rw [hitems, encodeItems_renumber]
    cases encodeItems l.labels l.items.toList <;> rfl

/-! ### A line more -/

/-- A source with one more line behind its first `j` lines. -/
def insertLine (j : Nat) (line source : Text) : Text :=
  ofWrittenLines ((writtenLines source).take j ++ line :: (writtenLines source).drop j)

/-- The number that a line has once another one stands behind the first `j` lines. -/
def makeRoom (j number : Nat) : Nat := if number ≤ j then number else number + 1

theorem numberLines_add_one (number : Nat) (lines : List Text) :
    numberLines (number + 1) lines =
      (numberLines number lines).map (SourceLine.renumber (· + 1)) := by
  induction lines generalizing number with
  | nil => rfl
  | cons line lines ih =>
    by_cases hnil : remainder line = []
    · rw [numberLines_cons_of_eq_nil hnil, numberLines_cons_of_eq_nil hnil, ih]
    · rw [numberLines_cons_of_ne_nil hnil, numberLines_cons_of_ne_nil hnil, ih]
      rfl

/-- An idle line only moves the lines behind it. -/
theorem sourceLines_insertLine {j : Nat} {line source : Text}
    (hj : j ≤ (writtenLines source).length) (hidle : IsIdle line) :
    sourceLines (insertLine j line source) =
      (sourceLines source).map (SourceLine.renumber (makeRoom j)) := by
  have hbreak : ∀ line' ∈ (writtenLines source).take j ++ line :: (writtenLines source).drop j,
      '\n' ∉ line' := by
    have hold : ∀ line' ∈ writtenLines source, '\n' ∉ line' := fun _ => notMem_of_mem_writtenLines
    refine List.forall_mem_append.mpr ⟨fun line' h => hold line' (List.mem_of_mem_take h), ?_⟩
    refine List.forall_mem_cons.mpr ⟨hidle.noBreak, fun line' h => ?_⟩
    exact hold line' (List.mem_of_mem_drop h)
  have hsplit : sourceLines source = numberLines 1 ((writtenLines source).take j) ++
      numberLines (1 + j) ((writtenLines source).drop j) := by
    have happend : numberLines 1 ((writtenLines source).take j ++ (writtenLines source).drop j) =
        numberLines 1 ((writtenLines source).take j) ++
          numberLines (1 + ((writtenLines source).take j).length)
            ((writtenLines source).drop j) := numberLines_append _ _
    rwa [List.take_append_drop, List.length_take_of_le hj] at happend
  rw [insertLine, sourceLines_ofWrittenLines hbreak (by simp), hsplit, numberLines_append,
    numberLines_cons_of_eq_nil hidle.remainder_eq, List.length_take_of_le hj,
    numberLines_add_one (1 + j), List.map_append]
  congr 1
  · -- The numbers of the lines in front stay as they are.
    refine ((List.map_congr_left fun l hl => ?_).trans (List.map_id _)).symm
    obtain ⟨i, line', hi, hnumber, -⟩ := exists_getElem?_of_mem_numberLines hl
    have hlt := (List.getElem?_eq_some_iff.mp hi).1
    rw [List.length_take_of_le hj] at hlt
    rw [SourceLine.renumber, makeRoom, if_pos (by omega)]
    rfl
  · refine List.map_congr_left fun l hl => ?_
    obtain ⟨i, line', -, hnumber, -⟩ := exists_getElem?_of_mem_numberLines hl
    rw [SourceLine.renumber, SourceLine.renumber, makeRoom, if_neg (by omega)]

end Sources

/-- How a source is laid out does not matter, neither for its program nor for its error. Carriage
returns in front of the line breaks, blanks around a line and a comment behind one change nothing. A
line more that is blank or only a comment changes nothing but the number of an error in the lines
behind it, which is one more. -/
theorem layout_is_irrelevant (source : Text) :
    assemble (withReturns source) = assemble source ∧
      (∀ j front back, IsSpacing front → IsSpacing back →
        assemble (editLine j (fun line => front ++ line ++ back) source) = assemble source) ∧
      (∀ j, ∀ mark ∈ commentMarks, ∀ text, '\n' ∉ text →
        assemble (editLine j (fun line => line ++ ' ' :: mark ++ text) source) =
          assemble source) ∧
      ∀ j line, j ≤ (writtenLines source).length → IsIdle line →
        assemble (insertLine j line source) =
          (assemble source).mapError (AssemblyError.renumber (makeRoom j)) := by
  refine ⟨assemble_withReturns source, ?blanks, ?comment, ?idle⟩
  case blanks =>
    intro j front back hfront hback
    refine assemble_editLine j source (fun line hline => ?_) fun line => ?_
    · simp only [List.mem_append, not_or]
      exact ⟨⟨fun hmem => (hfront _ hmem).2 rfl, hline⟩, fun hmem => (hback _ hmem).2 rfl⟩
    · rw [remainder_append_blanks _ fun c hc => (hback c hc).1,
        remainder_blanks_append fun c hc => (hfront c hc).1]
  case comment =>
    intro j mark hmark text htext
    have hmarks : ∀ mark ∈ commentMarks, '\n' ∉ ' ' :: mark := by decide
    refine assemble_editLine j source (fun line hline => ?_) fun line => ?_
    · simp only [List.mem_append, not_or]
      exact ⟨⟨hline, hmarks mark hmark⟩, htext⟩
    · exact remainder_append_comment line hmark text
  case idle =>
    intro j line hj hidle
    exact assemble_of_renumber (makeRoom j) (sourceLines_insertLine hj hidle)

/-- A load without an address, behind a comment and a line that says nothing. -/
def unfinishedSource : Text := "start: addi x1, x0, 7 # set\n\nlw x2 // where".toList

/-- Its error, on the line with the given number. -/
def unfinishedError (line : Nat) : AssemblyError := ⟨line, .usageOf "lw".toList "rd, imm(rs1)"⟩

theorem layout_is_irrelevant_of_unfinished :
    assemble unfinishedSource = .error (unfinishedError 3) ∧
      assemble "start: addi x1, x0, 7 # set\r\n\r\nlw x2 // where".toList =
        .error (unfinishedError 3) ∧
      assemble "start: addi x1, x0, 7 # set\n\n\t lw x2 // where \t".toList =
        .error (unfinishedError 3) ∧
      assemble "start: addi x1, x0, 7 # set // a # b\n\nlw x2 // where".toList =
        .error (unfinishedError 3) ∧
      assemble "start: addi x1, x0, 7 # set\n\t# c // d\n\nlw x2 // where".toList =
        .error (unfinishedError 4) := by
  have he : assemble unfinishedSource = .error (unfinishedError 3) := by decide +kernel
  have hreturned : withReturns unfinishedSource =
      "start: addi x1, x0, 7 # set\r\n\r\nlw x2 // where".toList := by decide +kernel
  have hspaced : editLine 2 (fun line => "\t ".toList ++ line ++ " \t".toList) unfinishedSource =
      "start: addi x1, x0, 7 # set\n\n\t lw x2 // where \t".toList := by decide +kernel
  have hremarked : editLine 0 (fun line => line ++ ' ' :: "//".toList ++ " a # b".toList)
      unfinishedSource = "start: addi x1, x0, 7 # set // a # b\n\nlw x2 // where".toList := by
    decide +kernel
  have hmoved : insertLine 1 "\t# c // d".toList unfinishedSource =
      "start: addi x1, x0, 7 # set\n\t# c // d\n\nlw x2 // where".toList := by decide +kernel
  have hline : IsIdle "\t# c // d".toList :=
    @IsIdle.comment ['\t'] ['#'] " c // d".toList (by decide) (by decide) (by decide)
  obtain ⟨hreturns, hblanks, hcomment, hidle⟩ := layout_is_irrelevant unfinishedSource
  rw [he] at hreturns hblanks hcomment hidle
  rw [← hreturned, ← hspaced, ← hremarked, ← hmoved]
  refine ⟨he, hreturns, ?_, ?_, ?_⟩
  · exact hblanks 2 "\t ".toList " \t".toList (by decide) (by decide)
  · exact hcomment 0 "//".toList (by decide) " a # b".toList (by decide)
  · exact hidle 1 _ (by decide +kernel) hline

end TileCore

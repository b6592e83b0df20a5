import TileCore.Proofs.Assembly.ErrorLines
import TileCore.Proofs.Assembly.ReadBack
import TileCore.Proofs.Assembly.Sections

/-!
# Rewriting statements to the end

A shorthand stands for one or two written instructions, and what its operands were does not matter
for this: an operand has no comma and no blanks at its ends, so a text that is put together from
operands is taken apart into the same operands again, and its mnemonic is the one it was given. No
such mnemonic is a shorthand. So a statement that is rewritten until nothing in it is a shorthand
has been rewritten once, and what it becomes is left alone by rewriting it again. The first pass
therefore makes as much room for a line as the second pass fills with words.

## Main definitions

* `IsWritten`, `IsExpansion`: a written instruction, and one or two of them.
* `expandWithin`: a statement rewritten again and again, to some depth.
* `Layout.itemsOf`, `IsFilled`: the items of a line, and the room for a line with its words.

## Main results

* `isExpansion_of_expand`: a shorthand stands for one or two written instructions.
* `expandWithin_add_two`: two levels of rewriting are enough.
* `itemsOf_of_place`: the items of a line are those that placing the line has added.
* `isFilled_of_place`: the room for a line is filled.
* `statements_expand_once`: what rewriting a statement comes to.
-/

namespace TileCore

open Text

/-! ### Written instructions -/

/-- The text of an instruction is written with a mnemonic of the instruction set and with
operands. -/
inductive IsWritten : Text → Prop
  /-- The mnemonic selects an instruction, and there are operands. -/
  | intro {name : String} {m : Mnemonic} {ops : List Text} (hm : IsMnemonic name m)
    (hops : ∀ op ∈ ops, IsOperand op) (hne : ops ≠ []) : IsWritten (instructionText name ops)

namespace IsWritten

variable {text rd rs rt op : Text}

/-- The mnemonic of a written instruction is no shorthand. -/
theorem noShorthand (h : IsWritten text) :
    Shorthand.ofName? (Statement.ofText text).mnemonic = none := by
  obtain ⟨hm, hops, hne⟩ := h
  rw [Statement.ofText_instructionText hm.ne_nil hm.isBlank_eq_false hops hne, hm.folded]
  exact hm.noShorthand

/-- A written instruction stands for itself. -/
theorem expand_eq (h : IsWritten text) : expand text = .ok [text] := by
  obtain ⟨hm, hops, hne⟩ := h
  exact expand_instructionText hm hops hne

theorem trim_eq (h : IsWritten text) : trim text = text := by
  obtain ⟨hm, hops, hne⟩ := h
  exact (isTrimmed_instructionText hm hops hne).trim_eq

theorem of_keyword {name : String} {m : Mnemonic} {ops : List Text}
    (hm : (name, m) ∈ Mnemonic.keywords) (hop : IsOperand op) (hops : ∀ op ∈ ops, IsOperand op) :
    IsWritten (instructionText name (op :: ops)) :=
  .intro (isMnemonic_of_mem_keywords hm) (List.forall_mem_cons.mpr ⟨hop, hops⟩)
    (List.cons_ne_nil _ _)

theorem add (hrd : IsOperand rd) (hrs : IsOperand rs) (hrt : IsOperand rt) :
    IsWritten (instructionText "add" [rd, rs, rt]) :=
  .intro (isMnemonic_alu .add) (by simp [hrd, hrs, hrt]) (List.cons_ne_nil _ _)

theorem addi (hrd : IsOperand rd) (hrs : IsOperand rs) (hop : IsOperand op) :
    IsWritten (instructionText "addi" [rd, rs, op]) := by
  have hform : AluOp.add.immediateFunct?.isSome = true := rfl
  exact .intro (isMnemonic_immediate hform) (by simp [hrd, hrs, hop]) (List.cons_ne_nil _ _)

theorem branch (cond : Condition) (hrs : IsOperand rs) (hrt : IsOperand rt) (hop : IsOperand op) :
    IsWritten (instructionText cond.name [rs, rt, op]) :=
  .intro (isMnemonic_branch cond) (by simp [hrs, hrt, hop]) (List.cons_ne_nil _ _)

theorem lui (hrd : IsOperand rd) (hop : IsOperand op) :
    IsWritten (instructionText "lui" [rd, op]) :=
  of_keyword (m := .lui) (by decide) hrd (by simp [hop])

theorem jal (hrd : IsOperand rd) (hop : IsOperand op) :
    IsWritten (instructionText "jal" [rd, op]) :=
  of_keyword (m := .jal) (by decide) hrd (by simp [hop])

theorem jalr (hrd : IsOperand rd) (hrs : IsOperand rs) (hop : IsOperand op) :
    IsWritten (instructionText "jalr" [rd, rs, op]) :=
  of_keyword (m := .jalr) (by decide) hrd (by simp [hrs, hop])

end IsWritten

/-- One or two written instructions. -/
inductive IsExpansion : List Text → Prop
  /-- One instruction. -/
  | one {text : Text} (h : IsWritten text) : IsExpansion [text]
  /-- Two instructions. -/
  | two {text text' : Text} (h : IsWritten text) (h' : IsWritten text') : IsExpansion [text, text']

namespace IsExpansion

variable {texts : List Text}

theorem length (h : IsExpansion texts) : texts.length = 1 ∨ texts.length = 2 := by
  cases h with
  | one => exact .inl rfl
  | two => exact .inr rfl

theorem isWritten (h : IsExpansion texts) : ∀ text ∈ texts, IsWritten text := by
  cases h with
  | one h => exact List.forall_mem_singleton.mpr h
  | two h h' => exact List.forall_mem_cons.mpr ⟨h, List.forall_mem_singleton.mpr h'⟩

end IsExpansion

/-! ### Shorthands stand for written instructions -/

section Shorthands

variable {rd imm : Text} {ops texts : List Text}

theorem isExpansion_of_expandLiteral (hrd : IsOperand rd) (h : expandLiteral rd imm = .ok texts) :
    IsExpansion texts := by
  have hzero : IsOperand "x0".toList := IsPlain.isOperand (by decide)
  have hint (z : Int) : IsOperand (integerText z) := (isPlain_integerText z).isOperand
  rw [expandLiteral] at h
  split at h
  · cases h
  · simp only at h
    split_ifs at h <;> cases h
    · exact .one (.addi hrd hzero (hint _))
    · exact .two (.lui hrd (hint _)) (.addi hrd hrd (hint _))

/-- A shorthand stands for one or two written instructions, whatever its operands are. -/
theorem isExpansion_of_expand {p : Shorthand} (hops : ∀ op ∈ ops, IsOperand op)
    (h : p.expand ops = .ok texts) : IsExpansion texts := by
  have hzero : IsOperand "x0".toList := IsPlain.isOperand (by decide)
  have hlink : IsOperand "ra".toList := IsPlain.isOperand (by decide)
  have hstack : IsOperand "sp".toList := IsPlain.isOperand (by decide)
  have htop : IsOperand "0(sp)".toList := IsPlain.isOperand (by decide)
  have hdown : IsOperand "-4".toList := IsPlain.isOperand (by decide)
  have hup : IsOperand "4".toList := IsPlain.isOperand (by decide)
  have hnone : IsOperand "0".toList := IsPlain.isOperand (by decide)
  unfold Shorthand.expand at h
  split at h
  case h_1 =>
    obtain ⟨hrd, -⟩ := List.forall_mem_cons.mp hops
    exact isExpansion_of_expandLiteral hrd h
  all_goals cases h
  all_goals try simp only [List.forall_mem_cons] at hops
  case h_3 =>
    obtain ⟨hrd, hlabel, -⟩ := hops
    exact .two (.lui hrd (hlabel.marked (by decide)))
      (.addi hrd hrd (hlabel.marked (by decide)))
  case h_5 =>
    obtain ⟨hrs, -⟩ := hops
    exact .two (.addi hstack hstack hdown)
      (.of_keyword (m := .store) (by decide) hrs (List.forall_mem_singleton.mpr htop))
  case h_7 =>
    obtain ⟨hrd, -⟩ := hops
    exact .two (.of_keyword (m := .load) (by decide) hrd (List.forall_mem_singleton.mpr htop))
      (.addi hstack hstack hup)
  case h_9 => exact .one (.addi hzero hzero hnone)
  case h_11 | h_14 =>
    obtain ⟨hrd, hrs, -⟩ := hops
    exact .one (.add hrd hrs hzero)
  case h_12 =>
    obtain ⟨hrd, hrs, hrt, -⟩ := hops
    exact .one (.add hrd hrs hrt)
  case h_16 =>
    obtain ⟨hlabel, -⟩ := hops
    exact .one (.jal hzero hlabel)
  case h_18 =>
    obtain ⟨hlabel, -⟩ := hops
    exact .one (.jal hlink hlabel)
  case h_20 => exact .one (.jalr hzero hlink hnone)
  case h_22 =>
    obtain ⟨hrs, -⟩ := hops
    exact .one (.jalr hzero hrs hnone)
  case h_24 =>
    obtain ⟨hrs, hlabel, -⟩ := hops
    exact .one (.branch .beq hrs hzero hlabel)
  case h_26 =>
    obtain ⟨hrs, hlabel, -⟩ := hops
    exact .one (.branch .bne hrs hzero hlabel)
  case h_28 =>
    obtain ⟨hrs, hrt, hlabel, -⟩ := hops
    exact .one (.branch .blt hrt hrs hlabel)
  case h_30 =>
    obtain ⟨hrs, hrt, hlabel, -⟩ := hops
    exact .one (.branch .bge hrt hrs hlabel)

/-- A shorthand stands for texts that stand for themselves. -/
theorem isExpansion_of_expand_text {text : Text} {p : Shorthand}
    (hp : Shorthand.ofName? (Statement.ofText text).mnemonic = some p)
    (h : expand text = .ok texts) : IsExpansion texts := by
  simp only [expand, hp] at h
  exact isExpansion_of_expand (isOperand_of_ofText rfl) h

end Shorthands

/-! ### Rewriting to the end -/

/-- A statement rewritten until nothing in it is a shorthand, with so many levels of rewriting to
spend. There is no result if more are needed. -/
def expandWithin : (depth : Nat) → Text → ExceptT AssemblyCause Option (List Text)
  | 0, _ => ExceptT.mk none
  | depth + 1, text =>
    match Shorthand.ofName? (Statement.ofText text).mnemonic with
    | none => pure [trim text]
    | some p => do
      let texts ← ExceptT.mk (some (p.expand (Statement.ofText text).operands))
      let parts ← texts.mapM (expandWithin depth)
      return parts.flatten

theorem expandWithin_of_isWritten {text : Text} (h : IsWritten text) (depth : Nat) :
    expandWithin (depth + 1) text = pure [text] := by
  simp only [expandWithin, h.noShorthand, h.trim_eq]

theorem mapM_expandWithin {texts : List Text} (h : IsExpansion texts) (depth : Nat) :
    texts.mapM (expandWithin (depth + 1)) = pure (texts.map fun text => [text]) := by
  cases h with
  | one h => simp [expandWithin_of_isWritten h]
  | two h h' => simp [expandWithin_of_isWritten h, expandWithin_of_isWritten h']

/-- Two levels of rewriting are enough for any statement: on the second one nothing changes. -/
theorem expandWithin_add_two (depth : Nat) (text : Text) :
    (expandWithin (depth + 2) text).run = some (expand text) := by
  rw [expandWithin, expand]
  cases hp : Shorthand.ofName? (Statement.ofText text).mnemonic with
  | none => rfl
  | some p =>
    cases htexts : p.expand (Statement.ofText text).operands with
    | error cause =>
      simp only [htexts]
      rfl
    | ok texts =>
      have hmap := mapM_expandWithin (isExpansion_of_expand (isOperand_of_ofText rfl) htexts) depth
      have hflat : (texts.map fun text => [text]).flatten = texts := List.flatMap_singleton' texts
      simp only [htexts]
      calc (texts.mapM (expandWithin (depth + 1)) >>= fun parts => pure parts.flatten).run
          = (pure (texts.map fun text => [text]).flatten : ExceptT AssemblyCause Option _).run := by
            rw [hmap, pure_bind]
        _ = some (.ok texts) := by rw [hflat]; rfl

/-- What a statement becomes has no shorthands left and stays as it is. -/
theorem length_of_expand {text : Text} {texts : List Text} (h : expand text = .ok texts) :
    (texts.length = 1 ∨ texts.length = 2) ∧ ∀ t ∈ texts,
      Shorthand.ofName? (Statement.ofText t).mnemonic = none ∧ expand t = .ok [t] := by
  cases hp : Shorthand.ofName? (Statement.ofText text).mnemonic with
  | some p =>
    have hexpansion := isExpansion_of_expand_text hp h
    refine ⟨hexpansion.length, fun t ht => ?_⟩
    have hwritten := hexpansion.isWritten t ht
    exact ⟨hwritten.noShorthand, hwritten.expand_eq⟩
  | none =>
    simp only [expand, hp] at h
    cases h
    refine ⟨.inl rfl, List.forall_mem_singleton.mpr ⟨?_, ?_⟩⟩
    · rw [Statement.ofText_trim, hp]
    · simp only [expand, Statement.ofText_trim, hp, trim_trim]

/-! ### Room for a line and its words -/

/-- The items of a line. -/
def Layout.itemsOf (l : Layout) (number : Nat) : List Item :=
  l.items.toList.filter (·.line = number)

/-- The first pass makes room for a line on its way from `l₁` to `l₂`, and the second pass, which
has all items of `l`, fills it with `words`. -/
structure IsFilled (l l₁ l₂ : Layout) (code words : List Word) (line : SourceLine) : Prop where
  /-- The first pass counts as many words as there are. -/
  room : l₂.items.size = l₁.items.size + words.length
  /-- They are what the second pass gives for the items of the line. -/
  encode : encodeItems l.labels (l.itemsOf line.number) = .ok words
  /-- They stand in the code where the line has been placed. -/
  code : (code.drop l₁.items.size).take words.length = words
  /-- There is one for each text that the statement stands for. -/
  expand : l₁.region = .code → line.statement ≠ [] →
    ∃ texts, TileCore.expand line.statement = .ok texts ∧ words.length = texts.length
  /-- Nothing else has words. -/
  empty : l₁.region = .data ∨ line.statement = [] → words = []

section Passes

variable {l l₁ l₂ : Layout} {front back : List SourceLine} {line : SourceLine}

/-- The items of a line are those that placing the line has added, in the middle of the others. -/
theorem itemsOf_of_place
    (hlines : (front ++ line :: back).Pairwise fun line line' => line.number < line'.number)
    (hfront : Layout.empty.placeAll front = .ok l₁) (hline : l₁.place line = .ok l₂)
    (hback : l₂.placeAll back = .ok l) :
    ∃ later, l.items.toList = l₁.items.toList ++ (l.itemsOf line.number ++ later) ∧
      l₂.items.toList = l₁.items.toList ++ l.itemsOf line.number ∧
        (l.itemsOf line.number).length = (line.codeTexts l₁.region).length := by
  obtain ⟨-, hrest, hcross⟩ := List.pairwise_append.mp hlines
  obtain ⟨hbehind, -⟩ := List.pairwise_cons.mp hrest
  have hadded := (Layout.placed_of_place hline).items
  obtain ⟨later, hitems, hlater⟩ := Layout.exists_later_items hback
  obtain ⟨earlier, hitems₁, hearlier⟩ := Layout.exists_later_items hfront
  rw [hadded, List.append_assoc] at hitems
  generalize hnew : Layout.itemsFrom l₁.items.size line.number (line.codeTexts l₁.region) = new
    at hadded hitems
  have hout₁ : l₁.items.toList.filter (·.line = line.number) = [] := by
    refine List.filter_eq_nil_iff.mpr fun item hitem => ?_
    rw [hitems₁] at hitem
    obtain ⟨line', hmem, hnumber⟩ := hearlier item hitem
    have hlt := hcross line' hmem line List.mem_cons_self
    simp only [decide_eq_true_eq]
    omega
  have hout : later.filter (·.line = line.number) = [] := by
    refine List.filter_eq_nil_iff.mpr fun item hitem => ?_
    obtain ⟨line', hmem, hnumber⟩ := hlater item hitem
    have hlt := hbehind line' hmem
    simp only [decide_eq_true_eq]
    omega
  have hin : new.filter (·.line = line.number) = new := by
    refine List.filter_eq_self.mpr fun item hitem => ?_
    rw [← hnew] at hitem
    exact decide_eq_true (Layout.line_of_mem_itemsFrom hitem)
  have hof : l.itemsOf line.number = new := by
    rw [Layout.itemsOf, hitems, List.filter_append, List.filter_append, hout₁, hin, hout,
      List.nil_append, List.append_nil]
  rw [hof]
  exact ⟨later, hitems, hadded, by rw [← hnew, Layout.length_itemsFrom]⟩

/-- The room for a line is filled with the words of its items. -/
theorem isFilled_of_place {source : Text} {p : Program} (h : Assembled source l p)
    (hlines : sourceLines source = front ++ line :: back)
    (hfront : Layout.empty.placeAll front = .ok l₁) (hline : l₁.place line = .ok l₂)
    (hback : l₂.placeAll back = .ok l) : ∃ words, IsFilled l l₁ l₂ p.code words line := by
  have hordered : (sourceLines source).Pairwise fun line line' => line.number < line'.number :=
    pairwise_numberLines
  rw [hlines] at hordered
  obtain ⟨later, hitems, hadded, hlength⟩ := itemsOf_of_place hordered hfront hline hback
  have hall := h.forall₂_encode
  rw [hitems] at hall
  have hwords : List.Forall₂ (fun item w => item.encode l.labels = .ok w) (l.itemsOf line.number)
      ((p.code.drop l₁.items.size).take (l.itemsOf line.number).length) := by
    have hdrop := List.forall₂_drop l₁.items.toList.length hall
    rw [List.drop_left] at hdrop
    have htake := List.forall₂_take (l.itemsOf line.number).length hdrop
    rwa [List.take_left, Array.length_toList] at htake
  have hcount := hwords.length_eq
  have hroom := congrArg List.length hadded
  rw [List.length_append, Array.length_toList, Array.length_toList] at hroom
  refine ⟨_, ?_, encodeItems_eq_ok_iff.mpr hwords, ?_, ?_, ?_⟩
  · rw [← hcount, hroom]
  · rw [← hcount]
  · intro hregion hne
    obtain ⟨-, hfits⟩ := (Layout.exists_place_iff (SourceLine.ofLine?_eq_none hne)).mp ⟨l₂, hline⟩
    replace hfits := hfits.resolve_left hne
    rw [hregion] at hfits
    obtain ⟨-, texts, htexts⟩ := hfits
    refine ⟨texts, htexts, ?_⟩
    rw [← hcount, hlength, hregion, SourceLine.codeTexts_of_expand hne htexts]
  · intro hnothing
    have hnone : line.codeTexts l₁.region = [] := by
      rcases hnothing with hregion | hnil
      · rw [hregion]
        rfl
      · exact (Layout.additions_of_statement_eq_nil hnil _ 0).1
    rw [hnone] at hlength
    exact List.eq_nil_of_length_eq_zero (hcount.symm.trans hlength)

end Passes

/-- Rewriting a statement until nothing in it is a shorthand comes to an end after two levels. What
it comes to is one or two texts, none of which has the mnemonic of a shorthand and each of which
stays as it is; a statement that is no shorthand only loses the blanks at its ends. Since the same
statement always becomes the same texts, the second pass fills the room that the first pass has made
for a line, in every program. -/
theorem statements_expand_once :
    (∀ depth text, (expandWithin (depth + 2) text).run = some (expand text)) ∧
      (∀ text texts, expand text = .ok texts →
        (texts.length = 1 ∨ texts.length = 2) ∧ ∀ t ∈ texts,
          Shorthand.ofName? (Statement.ofText t).mnemonic = none ∧ expand t = .ok [t]) ∧
      (∀ text, Shorthand.ofName? (Statement.ofText text).mnemonic = none →
        expand text = .ok [trim text]) ∧
      ∀ source p, assemble source = .ok p →
        ∃ l, Layout.ofLines (sourceLines source) = .ok l ∧
          ∀ j line, (sourceLines source)[j]? = some line →
            ∃ l₁ l₂ words, Layout.empty.placeAll ((sourceLines source).take j) = .ok l₁ ∧
              l₁.place line = .ok l₂ ∧ IsFilled l l₁ l₂ p.code words line := by
  refine ⟨expandWithin_add_two, fun _ _ => length_of_expand, fun text hp => ?_, ?_⟩
  · simp only [expand, hp]
  · intro source p h
    obtain ⟨l, hassembled⟩ := assemble_eq_ok_iff.mp h
    refine ⟨l, hassembled.layout, fun j line hj => ?_⟩
    obtain ⟨l₁, l₂, hfront, hline, hback⟩ := Layout.exists_place_of_placeAll hassembled.placeAll hj
    have hsplit := (Layout.take_append_cons_drop hj).symm
    obtain ⟨words, hfilled⟩ := isFilled_of_place hassembled hsplit hfront hline hback
    exact ⟨l₁, l₂, words, hfront, hline, hfilled⟩

/-- A number that takes two instructions, behind one that takes a single one and a blank line. -/
def twoWordSource : Text := "nop\n\nli t0, 70000".toList

/-- An operand may look like a shorthand, and a line may take two words. -/
theorem statements_expand_once_of_nested :
    (expandWithin 2 "call push (ra".toList).run = some (.ok ["jal ra, push (ra".toList]) ∧
      expand "jal ra, push (ra".toList = .ok ["jal ra, push (ra".toList] ∧
      assemble twoWordSource = .ok ⟨[0x00000013, 0x000112B7, 0x17028293], [], 0x200⟩ ∧
      ∃ l l₁ l₂ words, words.length = 2 ∧ l₂.items.size = l₁.items.size + 2 ∧
        IsFilled l l₁ l₂ [0x00000013, 0x000112B7, 0x17028293] words
          ⟨3, "li t0, 70000".toList⟩ := by
  obtain ⟨hwithin, honce, -, hrooms⟩ := statements_expand_once
  have hcall : expand "call push (ra".toList = .ok ["jal ra, push (ra".toList] := by
    decide +kernel
  have hp : assemble twoWordSource = .ok ⟨[0x00000013, 0x000112B7, 0x17028293], [], 0x200⟩ := by
    decide +kernel
  have hline : (sourceLines twoWordSource)[1]? = some ⟨3, "li t0, 70000".toList⟩ := by
    decide +kernel
  obtain ⟨l, -, hroom⟩ := hrooms _ _ hp
  obtain ⟨l₁, l₂, words, hfront, -, hfilled⟩ := hroom 1 _ hline
  have hregion : l₁.region = .code :=
    (Layout.at_start.placeAll hfront).region.trans (by decide +kernel)
  have htwo : expand "li t0, 70000".toList =
      .ok ["lui t0, 17".toList, "addi t0, t0, 368".toList] := by decide +kernel
  obtain ⟨texts, htexts, hlength⟩ := hfilled.expand hregion (by decide +kernel)
  change expand "li t0, 70000".toList = .ok texts at htexts
  cases htwo.symm.trans htexts
  have hnested := ((honce _ _ hcall).2 _ List.mem_cons_self).2
  refine ⟨(hwithin 0 _).trans (congrArg some hcall), hnested, hp, l, l₁, l₂, words, hlength, ?_,
    hfilled⟩
  rw [hfilled.room, hlength]
  rfl

end TileCore

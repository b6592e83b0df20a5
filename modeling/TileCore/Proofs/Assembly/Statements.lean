import Mathlib.Tactic.SplitIfs
import TileCore.Assembly.Shorthand
import TileCore.Proofs.Text.Pieces

/-!
# Taking written statements apart

The text of an instruction is its mnemonic and its operands between commas. Taking it apart gives
back the mnemonic and the operands, whatever the operands are, as long as each of them could have
been an operand: it is not empty, has no blanks at its ends and holds no comma. The operands of any
statement are of this kind, so the text that a shorthand stands for is read as it was written.

## Main definitions

* `IsOperand`: what a single operand looks like.

## Main results

* `isOperand_of_mem_splitOperands`: every operand of a statement is of this kind.
* `splitOperands_intercalate`: operands between commas are cut apart again.
* `Statement.ofText_instructionText`: the parts of a written instruction.
* `Statement.mnemonic_ofText_append`: its mnemonic, whatever its operands are.
-/

namespace TileCore

open Text

/-- What an operand looks like: there is one, with no blanks at its ends and no comma. -/
structure IsOperand (s : Text) : Prop where
  /-- It is not empty. -/
  ne_nil : s ≠ []
  /-- There is no blank at its ends. -/
  trimmed : IsTrimmed s
  /-- It holds no comma. -/
  noComma : ',' ∉ s

/-- An operand between a mark and a closing parenthesis is an operand. -/
theorem IsOperand.marked {mark s : Text} (h : IsOperand s)
    (hmark : mark ≠ [] ∧ ∀ c ∈ mark, isBlank c = false ∧ c ≠ ',') :
    IsOperand (mark ++ s ++ [')']) where
  ne_nil := List.append_ne_nil_of_right_ne_nil _ (List.cons_ne_nil _ _)
  trimmed := (isTrimmed_of_forall fun c hc => (hmark.2 c hc).1).append
    (isTrimmed_singleton (by decide)) hmark.1 (List.cons_ne_nil _ _) s
  noComma := by
    simp only [List.mem_append, List.mem_singleton, not_or]
    exact ⟨⟨fun hc => (hmark.2 _ hc).2 rfl, h.noComma⟩, by decide⟩

theorem notMem_of_mem_splitEach {sep : Char} {s piece : Text} (h : piece ∈ splitEach sep s) :
    sep ∉ piece := by
  induction s generalizing piece with
  | nil =>
    rw [List.mem_singleton.mp h]
    exact List.not_mem_nil
  | cons c s ih =>
    rw [splitEach] at h
    split_ifs at h with hc
    · rcases List.mem_cons.mp h with rfl | h
      · exact List.not_mem_nil
      · exact ih h
    · cases hs : splitEach sep s with
      | nil =>
        rw [splitEach_eq_splitOn] at hs
        exact absurd hs (List.splitOn_ne_nil sep s)
      | cons first others =>
        rw [hs] at h ih
        rcases List.mem_cons.mp h with rfl | h
        · rw [List.mem_cons, not_or]
          exact ⟨fun e => hc e.symm, ih List.mem_cons_self⟩
        · exact ih (List.mem_cons_of_mem first h)

theorem mem_of_mem_trim {c : Char} {s : Text} (h : c ∈ trim s) : c ∈ s :=
  (isInfix_trim s).subset h

theorem isOperand_of_mem_splitOperands {s op : Text} (h : op ∈ splitOperands s) :
    IsOperand op := by
  obtain ⟨hmem, hne⟩ := List.mem_filter.mp h
  obtain ⟨piece, hpiece, rfl⟩ := List.mem_map.mp hmem
  exact ⟨of_decide_eq_true hne, isTrimmed_trim piece,
    fun hc => notMem_of_mem_splitEach hpiece (mem_of_mem_trim hc)⟩

theorem isOperand_of_ofText {text : Text} {s : Statement} (h : Statement.ofText text = s) :
    ∀ op ∈ s.operands, IsOperand op := by
  subst h
  exact fun op hop => isOperand_of_mem_splitOperands hop

/-- A blank in front of a text changes none of its pieces once they are trimmed. -/
theorem map_trim_splitEach_cons {sep c : Char} (hc : isBlank c = true) (hsep : c ≠ sep)
    (s : Text) : (splitEach sep (c :: s)).map trim = (splitEach sep s).map trim := by
  rw [splitEach, if_neg hsep]
  cases hs : splitEach sep s with
  | nil =>
    rw [splitEach_eq_splitOn] at hs
    exact absurd hs (List.splitOn_ne_nil sep s)
  | cons piece pieces => rw [List.map_cons, List.map_cons, trim_cons_of_isBlank hc]

theorem map_trim_splitEach_intercalate {ops : List Text} (hops : ∀ op ∈ ops, IsOperand op)
    (hne : ops ≠ []) :
    (splitEach ',' (List.intercalate ", ".toList ops)).map trim = ops := by
  induction ops with
  | nil => exact absurd rfl hne
  | cons op ops ih =>
    obtain ⟨hop, hops⟩ := List.forall_mem_cons.mp hops
    cases ops with
    | nil =>
      rw [List.intercalate_singleton, splitEach_eq_splitOn, List.splitOn_eq_singleton hop.noComma,
        List.map_singleton, hop.trimmed.trim_eq]
    | cons op' ops =>
      have hsep : ", ".toList = [',', ' '] := rfl
      rw [List.intercalate_cons_cons, splitEach_eq_splitOn, hsep, List.append_assoc,
        List.cons_append, List.splitOn_append_cons_self_of_not_mem hop.noComma,
        ← splitEach_eq_splitOn, List.map_cons, hop.trimmed.trim_eq, List.cons_append,
        map_trim_splitEach_cons (by decide) (by decide), List.nil_append, ← hsep,
        ih hops (List.cons_ne_nil _ _)]

/-- Operands between commas are cut apart again. -/
theorem splitOperands_intercalate {ops : List Text} (hops : ∀ op ∈ ops, IsOperand op)
    (hne : ops ≠ []) : splitOperands (List.intercalate ", ".toList ops) = ops := by
  rw [splitOperands, map_trim_splitEach_intercalate hops hne, List.filter_eq_self]
  exact fun op hop => decide_eq_true (hops op hop).ne_nil

/-- Operands between commas have no blanks at their ends. -/
theorem isTrimmed_intercalate {ops : List Text} (hops : ∀ op ∈ ops, IsOperand op)
    (hne : ops ≠ []) :
    IsTrimmed (List.intercalate ", ".toList ops) ∧ List.intercalate ", ".toList ops ≠ [] := by
  induction ops with
  | nil => exact absurd rfl hne
  | cons op ops ih =>
    obtain ⟨hop, hops⟩ := List.forall_mem_cons.mp hops
    cases ops with
    | nil =>
      rw [List.intercalate_singleton]
      exact ⟨hop.trimmed, hop.ne_nil⟩
    | cons op' ops =>
      obtain ⟨htrim, hne'⟩ := ih hops (List.cons_ne_nil _ _)
      rw [List.intercalate_cons_cons]
      exact ⟨hop.trimmed.append htrim hop.ne_nil hne' _, List.append_ne_nil_of_right_ne_nil _ hne'⟩

theorem Statement.ofText_trim (text : Text) :
    Statement.ofText (trim text) = Statement.ofText text := by
  rw [Statement.ofText, Statement.ofText, trim_trim]

/-- The mnemonic of a statement ends at the first blank, whatever follows. -/
theorem Statement.mnemonic_ofText_append {name : Text} (hname : name ≠ [])
    (hblank : ∀ c ∈ name, isBlank c = false) (rest : Text) :
    (Statement.ofText (name ++ ' ' :: rest)).mnemonic = foldEnding (lowercase name) := by
  have hhead : (splitHead (trim (name ++ ' ' :: rest))).1 = name := by
    obtain htrim | ⟨rest', htrim⟩ := trim_append_cons hname hblank (c := ' ') (by decide) rest
    · rw [htrim, splitHead, splitFirst?_eq_none hblank]
      rfl
    · rw [htrim, splitHead, splitFirst?_append hblank (by decide)]
      rfl
  exact congrArg (fun head => foldEnding (lowercase head)) hhead

/-- The parts of a written instruction are its mnemonic and its operands. -/
theorem Statement.ofText_instructionText {mnemonic : String} {ops : List Text}
    (hm : mnemonic.toList ≠ []) (hblank : ∀ c ∈ mnemonic.toList, isBlank c = false)
    (hops : ∀ op ∈ ops, IsOperand op) (hne : ops ≠ []) :
    Statement.ofText (instructionText mnemonic ops) =
      ⟨foldEnding (lowercase mnemonic.toList), ops⟩ := by
  obtain ⟨hrest, hrest₀⟩ := isTrimmed_intercalate hops hne
  have htrim : trim (instructionText mnemonic ops) = instructionText mnemonic ops := by
    rw [instructionText, List.append_cons]
    exact ((isTrimmed_of_forall hblank).append hrest hm hrest₀ [' ']).trim_eq
  have hhead : splitHead (instructionText mnemonic ops) =
      (mnemonic.toList, List.intercalate ", ".toList ops) := by
    rw [splitHead, instructionText, splitFirst?_append hblank (by decide)]
    rfl
  rw [Statement.ofText, htrim, hhead]
  simp only [splitOperands_intercalate hops hne]

end TileCore

import TileCore.Proofs.Assembly.Targets
import TileCore.Proofs.Machine.Confinement

/-!
# Control flow of assembled programs

A branch or jump in an assembled program comes from a statement with a target: no other instruction
has an offset, and no shorthand without a target stands for one that has. If the target is a label
in the code, the offset leads to a word of the program or right behind the last one, since labels in
the code have the addresses of words. So a program all of whose targets are such labels is closed,
and a machine that runs it stays in it.

## Main definitions

* `IsReadWithoutTarget`: a text that is read as an instruction without a target.
* `HasCodeTargets`: every branch and jump of a source has a label in the code for its target.

## Main results

* `Statement.isReadWithoutTarget`: a statement without a target becomes instructions without one.
* `Assembled.isClosed`: the program of a source with such targets is closed.
* `control_stays_in_code`: a step and a run of such a program stay in it.
-/

namespace TileCore

open Text

/-! ### Instructions without a target -/

/-- Without a target an instruction has no offset. -/
theorem Mnemonic.jumpOffset?_of_target? {m : Mnemonic} {labels : Labels} {pc : Word} {name : Text}
    {ops : List Text} {i : Instruction} (htarget : m.target? ops = none)
    (h : m.read labels pc name ops = .ok i) : i.jumpOffset? = none := by
  unfold Mnemonic.read at h
  split at h
  all_goals simp only [Except.bind_eq_ok_iff, pure, Except.pure, Except.ok.injEq, reduceCtorEq] at h
  case h_5 | h_15 | h_16 => cases htarget
  all_goals grind [Instruction.jumpOffset?]

/-- A text that is read as an instruction without a target. -/
def IsReadWithoutTarget (text : Text) : Prop :=
  ∀ m, Mnemonic.ofText? (Statement.ofText text).mnemonic = some m →
    m.target? (Statement.ofText text).operands = none

theorem IsReadWithoutTarget.jumpOffset? {labels : Labels} {pc : Word} {text : Text}
    {i : Instruction} (htarget : IsReadWithoutTarget text)
    (h : readInstruction labels pc text = .ok i) : i.jumpOffset? = none := by
  rw [readInstruction] at h
  cases hm : Mnemonic.ofText? (Statement.ofText text).mnemonic with
  | none =>
    simp only [hm] at h
    cases h
  | some m =>
    simp only [hm] at h
    exact Mnemonic.jumpOffset?_of_target? (htarget m hm) h

/-- The texts of shorthands without a target begin with a mnemonic that never takes one. What
follows does not matter. -/
theorem isReadWithoutTarget_append (name : String)
    (hname : name ∈ ["add", "addi", "lui", "lw", "sw", "jalr"]) (rest : Text) :
    IsReadWithoutTarget (name.toList ++ ' ' :: rest) := by
  have hread {m : Mnemonic} (hm : IsMnemonic name m) (htarget : ∀ ops, m.target? ops = none) :
      IsReadWithoutTarget (name.toList ++ ' ' :: rest) := by
    intro m' hm'
    rw [Statement.mnemonic_ofText_append hm.ne_nil hm.isBlank_eq_false, hm.folded,
      hm.selects] at hm'
    cases hm'
    exact htarget _
  have hform : AluOp.add.immediateFunct?.isSome = true := rfl
  simp only [List.mem_cons, List.not_mem_nil, or_false] at hname
  obtain rfl | rfl | rfl | rfl | rfl | rfl := hname
  · exact hread (isMnemonic_alu .add) fun _ => rfl
  · exact hread (isMnemonic_immediate hform) fun _ => rfl
  · exact hread (m := .lui) (isMnemonic_of_mem_keywords (by decide)) fun _ => rfl
  · exact hread (m := .load) (isMnemonic_of_mem_keywords (by decide)) fun _ => rfl
  · exact hread (m := .store) (isMnemonic_of_mem_keywords (by decide)) fun _ => rfl
  · exact hread (m := .jalr) (isMnemonic_of_mem_keywords (by decide)) fun _ => rfl

theorem isReadWithoutTarget_of_expandLiteral {rd operand : Text} {texts : List Text}
    (h : expandLiteral rd operand = .ok texts) : ∀ text ∈ texts, IsReadWithoutTarget text := by
  rw [expandLiteral] at h
  split at h
  · cases h
  · simp only at h
    split_ifs at h <;> cases h
    · exact List.forall_mem_singleton.mpr (isReadWithoutTarget_append "addi" (by decide) _)
    · exact List.forall_mem_cons.mpr ⟨isReadWithoutTarget_append "lui" (by decide) _,
        List.forall_mem_singleton.mpr (isReadWithoutTarget_append "addi" (by decide) _)⟩

/-- A shorthand without a target stands for instructions without one. -/
theorem isReadWithoutTarget_of_expand {p : Shorthand} {ops texts : List Text}
    (htarget : p.target? ops = none) (h : p.expand ops = .ok texts) :
    ∀ text ∈ texts, IsReadWithoutTarget text := by
  unfold Shorthand.expand at h
  split at h
  case h_1 => exact isReadWithoutTarget_of_expandLiteral h
  all_goals cases h
  case h_3 =>
    exact List.forall_mem_cons.mpr ⟨isReadWithoutTarget_append "lui" (by decide) _,
      List.forall_mem_singleton.mpr (isReadWithoutTarget_append "addi" (by decide) _)⟩
  case h_5 =>
    exact List.forall_mem_cons.mpr
      ⟨isReadWithoutTarget_append "addi" (by decide) "sp, sp, -4".toList,
        List.forall_mem_singleton.mpr (isReadWithoutTarget_append "sw" (by decide) _)⟩
  case h_7 =>
    exact List.forall_mem_cons.mpr ⟨isReadWithoutTarget_append "lw" (by decide) _,
      List.forall_mem_singleton.mpr
        (isReadWithoutTarget_append "addi" (by decide) "sp, sp, 4".toList)⟩
  case h_9 =>
    exact List.forall_mem_singleton.mpr
      (isReadWithoutTarget_append "addi" (by decide) "x0, x0, 0".toList)
  case h_11 | h_12 | h_14 =>
    exact List.forall_mem_singleton.mpr (isReadWithoutTarget_append "add" (by decide) _)
  case h_20 =>
    exact List.forall_mem_singleton.mpr
      (isReadWithoutTarget_append "jalr" (by decide) "x0, ra, 0".toList)
  case h_22 =>
    exact List.forall_mem_singleton.mpr (isReadWithoutTarget_append "jalr" (by decide) _)
  all_goals cases htarget

/-- A statement without a target becomes instructions without one. -/
theorem Statement.isReadWithoutTarget {text : Text} {texts : List Text}
    (htarget : (Statement.ofText text).target? = none) (h : TileCore.expand text = .ok texts) :
    ∀ text' ∈ texts, IsReadWithoutTarget text' := by
  rw [Statement.target?] at htarget
  simp only [TileCore.expand] at h
  cases hshort : Shorthand.ofName? (Statement.ofText text).mnemonic with
  | some p =>
    simp only [hshort] at htarget h
    exact isReadWithoutTarget_of_expand htarget h
  | none =>
    simp only [hshort, Option.bind_eq_none_iff] at htarget h
    cases h
    refine List.forall_mem_singleton.mpr fun m hm => ?_
    rw [Statement.ofText_trim] at hm ⊢
    exact htarget m hm

/-! ### Programs whose targets are in the code -/

/-- Every branch and jump of a source has a label for its target that stands in the code. -/
def HasCodeTargets (source : Text) : Prop :=
  ∀ (j : Nat) (line : SourceLine) (target : Text), (sourceLines source)[j]? = some line →
    (Position.before (sourceLines source) j).region = .code →
    (Statement.ofText line.statement).target? = some target →
      ∃ j' line', (sourceLines source)[j']? = some line' ∧ line'.label? = some target ∧
        (Position.before (sourceLines source) j').region = .code

/-- Instructions come from statements in the code. -/
theorem SourceLine.exists_expand_of_mem_codeTexts {line : SourceLine} {region : Region}
    {text : Text} (h : text ∈ line.codeTexts region) :
    region = .code ∧ ∃ texts, expand line.statement = .ok texts ∧ text ∈ texts := by
  cases region with
  | data => cases h
  | code =>
    rw [codeTexts] at h
    split_ifs at h
    · cases h
    · cases hexpand : expand line.statement with
      | error cause =>
        rw [hexpand] at h
        cases h
      | ok texts =>
        rw [hexpand] at h
        exact ⟨rfl, texts, rfl, h⟩

/-- The program of a source with targets in the code is closed. -/
theorem Assembled.isClosed {source : Text} {l : Layout} {p : Program} (h : Assembled source l p)
    (hwords : p.code.length < 0x40000000) (htargets : HasCodeTargets source) :
    IsClosed p.code where
  length_lt := hwords
  instructions k w hk := by
    have hlt := (List.getElem?_eq_some_iff.mp hk).1
    obtain ⟨j, line, i, text, hj, hi, rfl⟩ := exists_line_of_word h hlt
    obtain ⟨w', instruction, hw', hread, hdecode⟩ := exists_word_of_line h hj hi
    obtain rfl : w = w' := Option.some.inj (hk.symm.trans hw')
    refine ⟨instruction, hdecode, fun imm himm => ?_⟩
    obtain ⟨hregion, texts, hexpand, hmem⟩ :=
      SourceLine.exists_expand_of_mem_codeTexts (List.mem_of_getElem? hi)
    cases htarget : (Statement.ofText line.statement).target? with
    | none =>
      rw [(Statement.isReadWithoutTarget htarget hexpand text hmem).jumpOffset? hread] at himm
      cases himm
    | some target =>
      obtain ⟨text', hexpand', hreads⟩ := exists_reading_of_target htarget
      rw [hexpand] at hexpand'
      cases hexpand'
      obtain rfl := List.mem_singleton.mp hmem
      obtain ⟨j', line', hj', hlabel, hregion'⟩ := htargets j line target hj hregion htarget
      obtain ⟨hvalid, hlookup⟩ := Layout.lookup_label h.placeAll hj' hlabel
      obtain ⟨imm', himm', hway⟩ := exists_offset_of_target hreads hvalid hlookup hread
      obtain rfl : imm = imm' := Option.some.inj (himm.symm.trans himm')
      have hle := (Layout.before_le h.placeAll hj').1
      rw [h.size_items] at hle
      rw [Position.address, hregion', toNat_codeAddress (Nat.lt_trans hlt hwords),
        toNat_codeAddress (Nat.lt_of_le_of_lt hle hwords)] at hway
      exact ⟨_, hle, by push_cast at hway ⊢; exact hway⟩

/-- Let all targets of an assembled program be labels in its code, and let a machine have the code
in memory and stand in front of one of its words. If the word is no jump to a register, a step fails
or ends the program or leaves the machine in front of a word or behind the last one. So a run that
does not get behind the last word, jumps to no register and stores nothing over the code stays in
front of words with the code in memory. In front of a word the word is fetched, and a step that
fails or ends the program there leaves the machine where it stands. -/
theorem control_stays_in_code {source : Text} {p : Program} (h : assemble source = .ok p)
    (hwords : p.code.length < 0x40000000) (htargets : HasCodeTargets source) :
    (∀ (s : Machine) (k : Nat) (hk : k < p.code.length), s.memory.Holds p.code →
      s.registers.pc.toNat = 4 * k →
      (∀ rd rs1 imm, decode p.code[k] ≠ .ok (.jalr rd rs1 imm)) →
        (∃ fault, s.step.2 = .error fault) ∨ s.step.2 = .ok .halted ∨
          s.step.2 = .ok .running ∧
            ∃ j ≤ p.code.length, s.step.1.registers.pc.toNat = 4 * j) ∧
    ∀ (s : Machine) (k : Nat), k < p.code.length → s.memory.Holds p.code →
      s.registers.pc.toNat = 4 * k →
      ∀ n s', Machine.after n s = some s' →
        (∀ i < n, ∀ t, Machine.after i s = some t → t.IsConfined p.code) →
          s'.memory.Holds p.code ∧
          (∃ j ≤ p.code.length, s'.registers.pc.toNat = 4 * j ∧
            ∀ hj : j < p.code.length, ∃ i, decode p.code[j] = .ok i ∧
              Machine.fetch s'.registers s'.memory = .ok i) ∧
          (s'.step.2 ≠ .ok .running → s'.step.1.registers = s'.registers) := by
  obtain ⟨l, hl⟩ := assemble_eq_ok_iff.mp h
  have hclosed := hl.isClosed hwords htargets
  refine ⟨fun s k hk hm hpc hreturn => ?_, fun s k hk hm hpc n s' hafter hconfined => ?_⟩
  · rcases hstep : s.step with ⟨s', fault | _ | _⟩
    · exact .inl ⟨fault, rfl⟩
    · exact .inr (.inr ⟨rfl, Machine.pc_of_step_of_isClosed hclosed hm hk hpc hreturn hstep⟩)
    · exact .inr (.inl rfl)
  · have hstart : s.StandsIn p.code := ⟨hm, k, Nat.le_of_lt hk, hpc⟩
    obtain ⟨hm', j, hj, hpc'⟩ := hstart.after hclosed hconfined hafter
    refine ⟨hm', ⟨j, hj, hpc', fun hlt => ?_⟩, Machine.registers_of_stopped_step⟩
    obtain ⟨i, hdecode, -⟩ := hclosed.instructions j _ (List.getElem?_eq_getElem hlt)
    exact ⟨i, hdecode, Machine.fetch_of_holds hm' hlt hpc' hdecode⟩

/-- A store behind the code that is repeated for ever, and a return that is never reached. -/
def repeatSource : Text := "again: sw x0, 16(x0)\nj again\nret".toList

/-- The program of the repeated store. -/
def repeatProgram : Program where
  code := [0x00002823, 0xFFDFF06F, 0x00008067]
  data := []
  dataBase := 0x200

/-- A machine that runs it, in front of the given word. -/
def repeatMachine (k : Nat) : Machine where
  registers := Registers.cleared.goto (BitVec.ofNat 32 (4 * k))
  memory := Memory.ofImage repeatProgram.image 20

theorem hasCodeTargets_repeatSource : HasCodeTargets repeatSource := by
  have htargets : ((sourceLines repeatSource).map fun line =>
      (Statement.ofText line.statement).target?) = [none, some "again".toList, none] := by
    decide +kernel
  intro j line target hj _ htarget
  have hplace := congrArg (fun targets => targets[j]?) htargets
  simp only [List.getElem?_map, hj, Option.map_some, htarget] at hplace
  -- Only the jump on the second line has a target, and that stands in front of the first one.
  match j, hplace with
  | 0, hplace | 2, hplace => cases hplace
  | 1, hplace =>
    cases hplace
    exact ⟨0, ⟨1, "again: sw x0, 16(x0)".toList⟩, by decide +kernel, by decide +kernel,
      by decide +kernel⟩
  | j + 3, hplace => cases hplace

theorem isConfined_repeatMachine :
    (repeatMachine 0).IsConfined repeatProgram.code ∧
      (repeatMachine 1).IsConfined repeatProgram.code := by
  constructor
  · have hfetch : Machine.fetch (repeatMachine 0).registers (repeatMachine 0).memory =
        .ok (.store 0 0 16) := by rfl
    have heffect : Machine.nextEffect (repeatMachine 0).registers (repeatMachine 0).memory =
        .ok (.write [(16, 0)]) := by rfl
    refine ⟨by decide, fun rd rs1 imm hjalr => ?_, fun words hwrite => ?_⟩
    · rw [hfetch] at hjalr
      cases hjalr
    · rw [heffect] at hwrite
      cases hwrite
      exact List.forall_mem_singleton.mpr (by decide)
  · have hfetch : Machine.fetch (repeatMachine 1).registers (repeatMachine 1).memory =
        .ok (.jal 0 (-4)) := by rfl
    refine ⟨by decide, fun rd rs1 imm hjalr => ?_, fun words hwrite => ?_⟩
    · rw [hfetch] at hjalr
      cases hjalr
    · obtain ⟨i, hi, heffect⟩ := Machine.nextEffect_eq_ok_iff.mp hwrite
      rw [hfetch] at hi
      cases hi
      nomatch heffect

theorem control_stays_in_code_of_repeated_store :
    assemble repeatSource = .ok repeatProgram ∧ repeatProgram.code.length < 0x40000000 ∧
      HasCodeTargets repeatSource ∧
      (∃ j ≤ 3, (repeatMachine 1).step.1.registers.pc.toNat = 4 * j) ∧
      Machine.after 2 (repeatMachine 0) = some (repeatMachine 0) ∧
        (repeatMachine 0).IsConfined repeatProgram.code ∧
        (repeatMachine 1).IsConfined repeatProgram.code ∧
        (repeatMachine 0).memory.Holds repeatProgram.code := by
  have hp : assemble repeatSource = .ok repeatProgram := by decide +kernel
  have hwords : repeatProgram.code.length < 0x40000000 := by decide
  have hm : (repeatMachine 0).memory.Holds repeatProgram.code :=
    Memory.holds_iff.mpr (by decide +kernel)
  have hstore : (repeatMachine 0).step = (repeatMachine 1, .ok .running) := by rfl
  have hjump : (repeatMachine 1).step = (repeatMachine 0, .ok .running) := by rfl
  have htwo : Machine.after 2 (repeatMachine 0) = some (repeatMachine 0) := by
    rw [Machine.after_succ _ hstore, Machine.after_succ _ hjump, Machine.after]
  obtain ⟨hconfined₀, hconfined₁⟩ := isConfined_repeatMachine
  have hconfined : ∀ i < 2, ∀ t, Machine.after i (repeatMachine 0) = some t →
      t.IsConfined repeatProgram.code := by
    intro i hi t ht
    obtain rfl | rfl : i = 0 ∨ i = 1 := by omega
    · exact Option.some.inj ht ▸ hconfined₀
    · rw [Machine.after_succ _ hstore] at ht
      exact Option.some.inj ht ▸ hconfined₁
  have hreturn : ∀ rd rs1 imm, decode 0xFFDFF06F ≠ .ok (.jalr rd rs1 imm) := by
    intro rd rs1 imm hjalr
    have hdecode : decode 0xFFDFF06F = .ok (.jal 0 (-4)) := by rfl
    rw [hdecode] at hjalr
    cases hjalr
  obtain ⟨hstep, hrun⟩ := control_stays_in_code hp hwords hasCodeTargets_repeatSource
  refine ⟨hp, hwords, hasCodeTargets_repeatSource, ?_, htwo, hconfined₀, hconfined₁,
    (hrun _ 0 (by decide) hm rfl 2 _ htwo hconfined).1⟩
  have hone := hstep (repeatMachine 1) 1 (by decide) hm rfl hreturn
  rw [hjump] at hone ⊢
  obtain ⟨fault, hfault⟩ | hhalted | ⟨-, hpc⟩ := hone
  · cases hfault
  · cases hhalted
  · exact hpc

end TileCore

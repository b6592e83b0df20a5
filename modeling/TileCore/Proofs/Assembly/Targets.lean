import TileCore.Proofs.Assembly.Placement
import TileCore.Proofs.Assembly.ReadBack
import TileCore.Proofs.Machine.Steps

/-!
# Branches and jumps to labels

The first pass gives a label the address of what follows it, long before the second pass needs the
way from a branch to that address. Both count the same words, so the offset in a branch or jump
leads exactly to its label, in both directions and across shorthands and changes of the section.

## Main definitions

* `Statement.target?`: the operand that names the target of a branch or jump.
* `Program.JumpsTo`: an instruction of a program goes to an address.

## Main results

* `exists_reading_of_target`: a statement with a target becomes one instruction with that target.
* `exists_offset_of_target`: the offset of that instruction is the way to the label.
* `labels_and_targets`: where labels are, and that branches and jumps go there.
-/

namespace TileCore

open Text

/-! ### Statements with a target -/

/-- The operand that names the target, in a shorthand for a branch or a jump. -/
def Shorthand.target? : Shorthand → List Text → Option Text
  | j, [target] => some target
  | call, [target] => some target
  | beqz, [_, target] => some target
  | bnez, [_, target] => some target
  | bgt, [_, _, target] => some target
  | ble, [_, _, target] => some target
  | _, _ => none

/-- The operand that names the target, in a branch or a jump. -/
def Mnemonic.target? : Mnemonic → List Text → Option Text
  | branch _, [_, _, target] => some target
  | jal, [target] => some target
  | jal, [_, target] => some target
  | _, _ => none

/-- The operand that names the target, in a statement that is or stands for a branch or a jump. -/
def Statement.target? (s : Statement) : Option Text :=
  match Shorthand.ofName? s.mnemonic with
  | some p => p.target? s.operands
  | none => (Mnemonic.ofText? s.mnemonic).bind fun m => m.target? s.operands

/-- A text that is read as a branch or a jump with the given operand for its target. -/
def IsReadWithTarget (target text : Text) : Prop :=
  ∃ (name : Text) (m : Mnemonic) (ops : List Text), m.target? ops = some target ∧
    ∀ labels pc, readInstruction labels pc text = m.read labels pc name ops

section Written

variable {target : Text}

theorem isReadWithTarget_jal {rd : Text} (hrd : IsOperand rd) (htarget : IsOperand target) :
    IsReadWithTarget target (instructionText "jal" [rd, target]) := by
  have hops : ∀ op ∈ [rd, target], IsOperand op := by simp [hrd, htarget]
  exact ⟨_, .jal, _, rfl, readInstruction_instructionText
    (isMnemonic_of_mem_keywords (by decide)) hops (List.cons_ne_nil _ _)⟩

theorem isReadWithTarget_branch {rs1 rs2 : Text} (cond : Condition) (h1 : IsOperand rs1)
    (h2 : IsOperand rs2) (htarget : IsOperand target) :
    IsReadWithTarget target (instructionText cond.name [rs1, rs2, target]) := by
  have hops : ∀ op ∈ [rs1, rs2, target], IsOperand op := by simp [h1, h2, htarget]
  exact ⟨_, .branch cond, _, rfl, readInstruction_instructionText (isMnemonic_branch cond) hops
    (List.cons_ne_nil _ _)⟩

/-- A shorthand with a target stands for one instruction with the same target. -/
theorem exists_expand_of_target {p : Shorthand} {ops : List Text}
    (hops : ∀ op ∈ ops, IsOperand op) (h : p.target? ops = some target) :
    ∃ text, p.expand ops = .ok [text] ∧ IsReadWithTarget target text := by
  have hzero : IsOperand "x0".toList := IsPlain.isOperand (by decide)
  have hlink : IsOperand "ra".toList := IsPlain.isOperand (by decide)
  unfold Shorthand.target? at h
  split at h <;> cases h <;> simp only [List.forall_mem_cons] at hops
  case h_1 =>
    obtain ⟨htarget, -⟩ := hops
    exact ⟨_, rfl, isReadWithTarget_jal hzero htarget⟩
  case h_2 =>
    obtain ⟨htarget, -⟩ := hops
    exact ⟨_, rfl, isReadWithTarget_jal hlink htarget⟩
  case h_3 =>
    obtain ⟨hrs, htarget, -⟩ := hops
    exact ⟨_, rfl, isReadWithTarget_branch .beq hrs hzero htarget⟩
  case h_4 =>
    obtain ⟨hrs, htarget, -⟩ := hops
    exact ⟨_, rfl, isReadWithTarget_branch .bne hrs hzero htarget⟩
  case h_5 =>
    obtain ⟨hrs, hrt, htarget, -⟩ := hops
    exact ⟨_, rfl, isReadWithTarget_branch .blt hrt hrs htarget⟩
  case h_6 =>
    obtain ⟨hrs, hrt, htarget, -⟩ := hops
    exact ⟨_, rfl, isReadWithTarget_branch .bge hrt hrs htarget⟩

end Written

/-- A statement with a target becomes a single instruction with that target. -/
theorem exists_reading_of_target {text target : Text}
    (h : (Statement.ofText text).target? = some target) :
    ∃ text', expand text = .ok [text'] ∧ IsReadWithTarget target text' := by
  rw [Statement.target?] at h
  cases hshort : Shorthand.ofName? (Statement.ofText text).mnemonic with
  | some p =>
    simp only [hshort] at h
    obtain ⟨text', hexpand, hread⟩ := exists_expand_of_target (isOperand_of_ofText rfl) h
    refine ⟨text', ?_, hread⟩
    simp only [expand, hshort, hexpand]
  | none =>
    simp only [hshort, Option.bind_eq_some_iff] at h
    obtain ⟨m, hm, htarget⟩ := h
    refine ⟨trim text, ?_, (Statement.ofText text).mnemonic, m, _, htarget, fun labels pc => ?_⟩
    · simp only [expand, hshort]
    · rw [readInstruction, Statement.ofText_trim]
      simp only [hm]

/-! ### The way to a label -/

/-- The offset that is read for a label is the way from the instruction to its address. -/
theorem offset_eq_of_resolveTarget {labels : Labels} {pc addr : Word} {bits : Nat}
    {name target : Text} {imm : Int} (hlabel : isLabel target = true)
    (haddr : labels.lookup target = some addr)
    (h : resolveTarget labels pc name bits target = .ok imm) :
    (pc.toNat : Int) + imm = addr.toNat := by
  rw [resolveTarget, readImmediate?_of_isLabel hlabel, lookupLabel_of_isLabel hlabel haddr,
    Except.bind_eq_ok_iff] at h
  obtain ⟨z, hz, h⟩ := h
  cases hz
  simp only at h
  split_ifs at h with heven
  rw [checkSigned] at h
  split_ifs at h with hfits
  cases h
  omega

/-- A branch or jump with a label for its target is read with the way to that label. -/
theorem exists_offset_of_target {labels : Labels} {pc addr : Word} {target text : Text}
    {i : Instruction} (htarget : IsReadWithTarget target text) (hlabel : isLabel target = true)
    (haddr : labels.lookup target = some addr) (h : readInstruction labels pc text = .ok i) :
    ∃ imm, i.jumpOffset? = some imm ∧ (pc.toNat : Int) + imm = addr.toNat := by
  obtain ⟨name, m, ops, hops, hread⟩ := htarget
  rw [hread] at h
  unfold Mnemonic.target? at hops
  split at hops <;> cases hops
  case h_1 =>
    simp only [Mnemonic.read, Except.bind_eq_ok_iff] at h
    obtain ⟨rs1, -, rs2, -, imm, himm, h⟩ := h
    cases h
    exact ⟨imm, rfl, offset_eq_of_resolveTarget hlabel haddr himm⟩
  case h_2 =>
    simp only [Mnemonic.read, Except.bind_eq_ok_iff] at h
    obtain ⟨imm, himm, h⟩ := h
    cases h
    exact ⟨imm, rfl, offset_eq_of_resolveTarget hlabel haddr himm⟩
  case h_3 =>
    simp only [Mnemonic.read, Except.bind_eq_ok_iff] at h
    obtain ⟨rd, -, imm, himm, h⟩ := h
    cases h
    exact ⟨imm, rfl, offset_eq_of_resolveTarget hlabel haddr himm⟩

/-! ### Programs -/

/-- The instruction at place `k` is a branch or a jump with the address `addr` for its target: its
offset is the way there, and if it is taken the machine goes there. -/
def Program.JumpsTo (p : Program) (k addr : Nat) : Prop :=
  ∃ w i imm, p.code[k]? = some w ∧ decode w = .ok i ∧ i.jumpOffset? = some imm ∧
    (4 * k : Int) + imm = addr ∧
      ∀ r m, r.pc.toNat = 4 * k → m.loadWord r.pc = .ok w → i.Jumps r →
        ∃ r', Machine.step ⟨r, m⟩ = (⟨r', m⟩, .ok .running) ∧ r'.pc.toNat = addr

theorem ofInt_toNat (w : Word) : BitVec.ofInt 32 w.toNat = w := by
  rw [BitVec.ofInt_natCast, BitVec.ofNat_toNat, BitVec.setWidth_eq]

/-- The way from one address to another leads there. -/
theorem add_ofInt_of_toNat {a b : Word} {z : Int} (h : (a.toNat : Int) + z = b.toNat) :
    a + BitVec.ofInt 32 z = b := by
  rw [← ofInt_toNat b, ← h, BitVec.ofInt_add, ofInt_toNat]

/-- A statement with a label for its target gives a single word, which goes to the label. -/
theorem jumpsTo_of_target {source : Text} {p : Program} {l : Layout} (h : Assembled source l p)
    {j : Nat} {line : SourceLine} (hj : (sourceLines source)[j]? = some line)
    (hregion : (Position.before (sourceLines source) j).region = .code) {label : Text} {addr : Word}
    (htarget : (Statement.ofText line.statement).target? = some label)
    (hlabel : isLabel label = true) (haddr : l.labels.lookup label = some addr)
    (hwords : p.code.length < 0x40000000) :
    p.JumpsTo (Position.before (sourceLines source) j).words addr.toNat := by
  have hne : line.statement ≠ [] := by
    intro hnil
    rw [hnil] at htarget
    cases htarget
  obtain ⟨text, hexpand, hread⟩ := exists_reading_of_target htarget
  have hi : (line.codeTexts (Position.before (sourceLines source) j).region)[0]? = some text := by
    rw [hregion, SourceLine.codeTexts_of_expand hne hexpand]
    rfl
  obtain ⟨w, i, hw, hinstruction, hdecode⟩ := exists_word_of_line h hj hi
  rw [Nat.add_zero] at hw hinstruction
  obtain ⟨imm, himm, hway⟩ := exists_offset_of_target hread hlabel haddr hinstruction
  have hplace := (List.getElem?_eq_some_iff.mp hw).1
  rw [toNat_codeAddress (by omega)] at hway
  refine ⟨w, i, imm, hw, hdecode, himm, by omega, fun r m hpc hload hjumps => ?_⟩
  obtain ⟨r', hstep, hpc'⟩ := Machine.step_of_jumps hload hdecode himm hjumps
  have hsum : r.pc + BitVec.ofInt 32 imm = addr := add_ofInt_of_toNat (by rw [hpc]; exact hway)
  exact ⟨r', hstep, by rw [hpc', hsum]⟩

/-- In an assembled source each label stands in front of a single line. Its address is the address
of what follows: four times the number of words that the lines before it have become, or the start
of the data and the number of bytes before it, by a count that arrives at the words and bytes of the
program. Every branch and jump to a label, also one that a shorthand stands for, goes to that
address. -/
theorem labels_and_targets {source : Text} {p : Program} (h : assemble source = .ok p)
    (hwords : p.code.length < 0x40000000) (hbytes : p.data.length < 0x100000000 - 0x200) :
    ∃ l, Layout.ofLines (sourceLines source) = .ok l ∧
      Position.before (sourceLines source) (sourceLines source).length =
        ⟨l.region, p.code.length, p.data.length⟩ ∧
      ∀ j line label, (sourceLines source)[j]? = some line → line.label? = some label →
        (∀ j' line', (sourceLines source)[j']? = some line' → line'.label? = some label →
          j' = j) ∧
        ∃ addr, l.labels.lookup label = some addr ∧
          ((Position.before (sourceLines source) j).region = .code →
            addr.toNat = 4 * (Position.before (sourceLines source) j).words) ∧
          ((Position.before (sourceLines source) j).region = .data →
            addr.toNat = 0x200 + (Position.before (sourceLines source) j).bytes) ∧
          ∀ j' line', (sourceLines source)[j']? = some line' →
            (Position.before (sourceLines source) j').region = .code →
            (Statement.ofText line'.statement).target? = some label →
            p.JumpsTo (Position.before (sourceLines source) j').words addr.toNat := by
  obtain ⟨l, hl⟩ := assemble_eq_ok_iff.mp h
  have hplace := hl.placeAll
  have hcount : Position.before (sourceLines source) (sourceLines source).length =
      ⟨l.region, p.code.length, p.data.length⟩ := by
    have hat := Layout.at_before_length hplace
    rw [← hl.size_items, ← hl.size_data, hat.region, hat.words, hat.bytes]
  refine ⟨l, hl.layout, hcount, fun j line label hj hlabel => ⟨fun j' line' hj' hlabel' => ?_, ?_⟩⟩
  · exact Layout.eq_of_label hplace hj' hj hlabel' hlabel
  · obtain ⟨hvalid, hlookup⟩ := Layout.lookup_label hplace hj hlabel
    obtain ⟨hw, hb⟩ := Layout.before_le hplace hj
    rw [hl.size_items] at hw
    rw [hl.size_data] at hb
    refine ⟨_, hlookup, fun hregion => ?_, fun hregion => ?_,
      fun j' line' hj' hregion' htarget => ?_⟩
    · rw [Position.address, hregion]
      exact toNat_codeAddress (by omega)
    · rw [Position.address, hregion]
      exact toNat_dataAddress (by omega)
    · exact jumpsTo_of_target hl hj' hregion' htarget hvalid hlookup hwords

/-- A loop, and a jump over data that interrupt the code. -/
def loopSource : Text :=
  "li x5, 3\nloop: addi x5, x5, -1\nbnez x5, loop\nj end\n.data\n.half 1\n.text\nend: halt".toList

/-- The program of the loop. -/
def loopProgram : Program where
  code := [0x00300293, 0xFFF28293, 0xFE029EE3, 0x0040006F, 0xFFFFFFFF]
  data := [1, 0]
  dataBase := 0x200

theorem labels_and_targets_of_loop :
    assemble loopSource = .ok loopProgram ∧ loopProgram.code.length < 0x40000000 ∧
      loopProgram.data.length < 0x100000000 - 0x200 ∧ loopProgram.JumpsTo 2 4 ∧
        loopProgram.JumpsTo 3 16 := by
  have hp : assemble loopSource = .ok loopProgram := by decide +kernel
  have hwords : loopProgram.code.length < 0x40000000 := by decide
  have hbytes : loopProgram.data.length < 0x100000000 - 0x200 := by decide
  have hlines : sourceLines loopSource =
      [⟨1, "li x5, 3".toList⟩, ⟨2, "loop: addi x5, x5, -1".toList⟩, ⟨3, "bnez x5, loop".toList⟩,
        ⟨4, "j end".toList⟩, ⟨5, ".data".toList⟩, ⟨6, ".half 1".toList⟩,
        ⟨7, ".text".toList⟩, ⟨8, "end: halt".toList⟩] := by decide +kernel
  obtain ⟨l, -, -, hlabels⟩ := labels_and_targets hp hwords hbytes
  rw [hlines] at hlabels
  refine ⟨hp, hwords, hbytes, ?_, ?_⟩
  · obtain ⟨-, addr, -, haddr, -, hjumps⟩ := hlabels 1 _ "loop".toList rfl (by decide +kernel)
    have hjump := hjumps 2 _ rfl (by decide +kernel) (by decide +kernel)
    rwa [haddr (by decide +kernel)] at hjump
  · obtain ⟨-, addr, -, haddr, -, hjumps⟩ := hlabels 7 _ "end".toList rfl (by decide +kernel)
    have hjump := hjumps 3 _ rfl (by decide +kernel) (by decide +kernel)
    rwa [haddr (by decide +kernel)] at hjump

end TileCore

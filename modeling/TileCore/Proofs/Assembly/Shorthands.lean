import TileCore.Proofs.Assembly.Literals
import TileCore.Proofs.Machine.Arithmetic

/-!
# Shorthands for branches and jumps

A shorthand of the control flow becomes a single word. Some of them exchange their registers, some
bring in register zero or the return register, and all of them name their target by a label, whose
address was given out before there were any offsets. What remains is what the shorthand says: the
word goes to the label or to the content of a register, under a condition on signed numbers, and
leaves nothing behind but the link of a call.

## Main definitions

* `StatementAt`: the words of a statement begin at a place of the code.
* `LabelAt`: a label stands at an address.
* `Program.StepsTo`: what the word at a place makes of the registers.

## Main results

* `exists_word_of_shorthand`: the words of a shorthand.
* `stepsTo_of_branch`, `stepsTo_of_jal`, `stepsTo_of_jalr`: shorthands that become a branch or a
  jump.
* `shorthands_of_control_flow`: what all of these shorthands do, and that a return ends a call.
-/

namespace TileCore

open Text

/-! ### Statements and labels in a source -/

/-- A statement with the given mnemonic and operands is in the code, and its words begin at place
`k`. -/
def StatementAt (source : Text) (k : Nat) (mnemonic : String) (ops : List Text) : Prop :=
  ∃ j line, (sourceLines source)[j]? = some line ∧
    (Position.before (sourceLines source) j).region = .code ∧
    (Position.before (sourceLines source) j).words = k ∧
    Statement.ofText line.statement = ⟨mnemonic.toList, ops⟩

/-- A line defines the label, and what follows the label has the given address. -/
def LabelAt (source label : Text) (addr : Word) : Prop :=
  ∃ j line, (sourceLines source)[j]? = some line ∧ line.label? = some label ∧
    (Position.before (sourceLines source) j).address = addr

theorem StatementAt.isOperand {source : Text} {k : Nat} {mnemonic : String} {ops : List Text}
    (h : StatementAt source k mnemonic ops) : ∀ op ∈ ops, IsOperand op := by
  obtain ⟨j, line, -, -, -, hs⟩ := h
  exact isOperand_of_ofText hs

theorem LabelAt.lookup {source label : Text} {addr : Word} {l : Layout} {p : Program}
    (h : LabelAt source label addr) (hl : Assembled source l p) :
    isLabel label = true ∧ l.labels.lookup label = some addr := by
  obtain ⟨j, line, hj, hlabel, rfl⟩ := h
  exact Layout.lookup_label hl.placeAll hj hlabel

theorem Shorthand.ofName?_name (sh : Shorthand) : Shorthand.ofName? sh.name.toList = some sh := by
  cases sh <;> rfl

theorem Shorthand.name_ne_nil (sh : Shorthand) : sh.name.toList ≠ [] := by
  cases sh <;> decide

section Words

variable {source : Text} {l : Layout} {p : Program} {k : Nat} {sh : Shorthand} {ops : List Text}

/-- The words of a shorthand are those of the instructions that it stands for. -/
theorem exists_word_of_shorthand {texts : List Text} {i : Nat} {text : Text}
    (h : Assembled source l p) (hat : StatementAt source k sh.name ops)
    (hexpand : sh.expand ops = .ok texts) (hi : texts[i]? = some text) :
    ∃ w instruction, p.code[k + i]? = some w ∧
      readInstruction l.labels (codeAddress (k + i)) text = .ok instruction ∧
        decode w = .ok instruction := by
  obtain ⟨j, line, hj, hregion, rfl, hs⟩ := hat
  have hexpand' : expand line.statement = .ok texts := by
    simp only [expand, hs, Shorthand.ofName?_name, hexpand]
  have htexts := SourceLine.codeTexts_of_expand (ne_nil_of_ofText hs sh.name_ne_nil) hexpand'
  rw [← hregion] at htexts
  exact exists_word_of_line h hj (by rw [htexts, hi])

/-! ### Words that go elsewhere -/

variable (sh)

/-- A machine with the program in memory that stands in front of the word at place `k` makes a step
that gives it the registers `f` and leaves its memory as it is. -/
def Program.StepsTo (p : Program) (k : Nat) (f : Registers → Registers) : Prop :=
  ∀ r m, m.Holds p.code → r.pc = BitVec.ofNat 32 (4 * k) →
    Machine.step ⟨r, m⟩ = (⟨f r, m⟩, .ok .running)

/-- A shorthand that becomes a branch to a label, which is taken exactly if `c` holds. -/
theorem stepsTo_of_branch (cond : Condition) {rs1 rs2 label : Text} {a b : Nat} {addr : Word}
    {c : Registers → Prop} [DecidablePred c]
    (h : Assembled source l p) (hat : StatementAt source k sh.name ops)
    (hexpand : sh.expand ops = .ok [instructionText cond.name [rs1, rs2, label]])
    (hops : ∀ op ∈ [rs1, rs2, label], IsOperand op) (ha : readRegister? rs1 = some a)
    (hb : readRegister? rs2 = some b) (hlabel : LabelAt source label addr)
    (hc : ∀ r : Registers, cond.holds (difference (r.value a) (r.value b)) = true ↔ c r) :
    p.StepsTo k fun r => r.goto (if c r then addr else BitVec.ofNat 32 (4 * (k + 1))) := by
  obtain ⟨w, i, hw, hread, hdecode⟩ := exists_word_of_shorthand (i := 0) h hat hexpand rfl
  obtain ⟨hvalid, hlookup⟩ := hlabel.lookup h
  rw [readInstruction_instructionText (isMnemonic_branch cond) hops (List.cons_ne_nil _ _),
    Mnemonic.read, scalarOperand, ha, Except.ok_bind, scalarOperand, hb, Except.ok_bind,
    Except.bind_eq_ok_iff] at hread
  obtain ⟨imm, himm, hread⟩ := hread
  cases hread
  have hway := offset_eq_of_resolveTarget hvalid hlookup himm
  intro r m hm hpc
  have hsum : r.pc + BitVec.ofInt 32 imm = addr := add_ofInt_of_toNat (by rw [hpc]; exact hway)
  rw [Machine.step_of_branch (by rw [hpc, hm k w hw]) hdecode, hsum,
    Registers.nextAddress_eq_ofNat hpc, if_congr (hc r) rfl rfl]

/-- A shorthand that becomes a jump to a label. -/
theorem stepsTo_of_jal {rd label : Text} {d : Nat} {addr : Word}
    (h : Assembled source l p) (hat : StatementAt source k sh.name ops)
    (hexpand : sh.expand ops = .ok [instructionText "jal" [rd, label]])
    (hops : ∀ op ∈ [rd, label], IsOperand op) (hd : readRegister? rd = some d)
    (hlabel : LabelAt source label addr) :
    p.StepsTo k fun r => (r.put d (BitVec.ofNat 32 (4 * (k + 1)))).goto addr := by
  obtain ⟨w, i, hw, hread, hdecode⟩ := exists_word_of_shorthand (i := 0) h hat hexpand rfl
  obtain ⟨hvalid, hlookup⟩ := hlabel.lookup h
  rw [readInstruction_instructionText (m := .jal) (isMnemonic_of_mem_keywords (by decide)) hops
    (List.cons_ne_nil _ _), Mnemonic.read, scalarOperand, hd, Except.ok_bind,
    Except.bind_eq_ok_iff] at hread
  obtain ⟨imm, himm, hread⟩ := hread
  cases hread
  have hway := offset_eq_of_resolveTarget hvalid hlookup himm
  intro r m hm hpc
  have hsum : r.pc + BitVec.ofInt 32 imm = addr := add_ofInt_of_toNat (by rw [hpc]; exact hway)
  rw [Machine.step_of_jal (by rw [hpc, hm k w hw]) hdecode, hsum,
    Registers.nextAddress_eq_ofNat hpc]

/-- A shorthand that becomes a jump to a register and leaves no link. -/
theorem stepsTo_of_jalr {rs : Text} {s : Nat}
    (h : Assembled source l p) (hat : StatementAt source k sh.name ops)
    (hexpand : sh.expand ops = .ok [instructionText "jalr" ["x0".toList, rs, "0".toList]])
    (hops : ∀ op ∈ ["x0".toList, rs, "0".toList], IsOperand op) (hs : readRegister? rs = some s) :
    p.StepsTo k fun r => r.goto (r.value s) := by
  obtain ⟨w, i, hw, hread, hdecode⟩ := exists_word_of_shorthand (i := 0) h hat hexpand rfl
  have hzero : scalarOperand "x0".toList = .ok 0 := rfl
  have himm : resolveImmediate l.labels "0".toList = .ok 0 := rfl
  rw [readInstruction_instructionText (m := .jalr) (isMnemonic_of_mem_keywords (by decide)) hops
    (List.cons_ne_nil _ _), Mnemonic.read, hzero, Except.ok_bind, scalarOperand, hs,
    Except.ok_bind, himm] at hread
  cases hread
  intro r m hm hpc
  have hsum : r.value s + BitVec.ofInt 32 0 = r.value s := BitVec.add_zero _
  rw [Machine.step_of_jalr (by rw [hpc, hm k w hw]) hdecode, hsum]
  rfl

end Words

/-- The shorthands of the control flow do what they say. The two comparisons go to their label
exactly if the signed numbers in their registers compare that way, the two tests exactly if their
register is zero or is not, and all four otherwise go on behind themselves. The jumps go to their
label or to the content of their register, and only the call leaves something, the address behind
it in the return register. A return from anywhere that finds this link resumes behind the call. -/
theorem shorthands_of_control_flow {source : Text} {p : Program} (h : assemble source = .ok p) :
    (∀ k rs rt label s t addr, StatementAt source k "bgt" [rs, rt, label] →
      readRegister? rs = some s → readRegister? rt = some t → LabelAt source label addr →
      p.StepsTo k fun r => r.goto
        (if (r.value s).toInt > (r.value t).toInt then addr else BitVec.ofNat 32 (4 * (k + 1)))) ∧
    (∀ k rs rt label s t addr, StatementAt source k "ble" [rs, rt, label] →
      readRegister? rs = some s → readRegister? rt = some t → LabelAt source label addr →
      p.StepsTo k fun r => r.goto
        (if (r.value s).toInt ≤ (r.value t).toInt then addr else BitVec.ofNat 32 (4 * (k + 1)))) ∧
    (∀ k rs label s addr, StatementAt source k "beqz" [rs, label] →
      readRegister? rs = some s → LabelAt source label addr →
      p.StepsTo k fun r => r.goto
        (if r.value s = 0 then addr else BitVec.ofNat 32 (4 * (k + 1)))) ∧
    (∀ k rs label s addr, StatementAt source k "bnez" [rs, label] →
      readRegister? rs = some s → LabelAt source label addr →
      p.StepsTo k fun r => r.goto
        (if r.value s ≠ 0 then addr else BitVec.ofNat 32 (4 * (k + 1)))) ∧
    (∀ k label addr, StatementAt source k "j" [label] → LabelAt source label addr →
      p.StepsTo k fun r => r.goto addr) ∧
    (∀ k label addr, StatementAt source k "call" [label] → LabelAt source label addr →
      p.StepsTo k fun r =>
        (r.poke returnRegister (BitVec.ofNat 32 (4 * (k + 1)))).goto addr) ∧
    (∀ k, StatementAt source k "ret" [] → p.StepsTo k fun r => r.goto (r.value returnRegister)) ∧
    (∀ k rs s, StatementAt source k "jr" [rs] → readRegister? rs = some s →
      p.StepsTo k fun r => r.goto (r.value s)) ∧
    (∀ k label addr k', StatementAt source k "call" [label] → LabelAt source label addr →
      StatementAt source k' "ret" [] →
      ∀ r m called r' m', m.Holds p.code → r.pc = BitVec.ofNat 32 (4 * k) →
        Machine.step ⟨r, m⟩ = (called, .ok .running) →
        m'.Holds p.code → r'.pc = BitVec.ofNat 32 (4 * k') →
        r'.value returnRegister = called.registers.value returnRegister →
        Machine.step ⟨r', m'⟩ =
          (⟨r'.goto (BitVec.ofNat 32 (4 * (k + 1))), m'⟩, .ok .running)) := by
  obtain ⟨l, hl⟩ := assemble_eq_ok_iff.mp h
  have hzero : IsOperand "x0".toList := IsPlain.isOperand (by decide)
  have hlink : IsOperand "ra".toList := IsPlain.isOperand (by decide)
  have hnone : IsOperand "0".toList := IsPlain.isOperand (by decide)
  have hcall : ∀ k label addr, StatementAt source k "call" [label] → LabelAt source label addr →
      p.StepsTo k fun r =>
        (r.poke returnRegister (BitVec.ofNat 32 (4 * (k + 1)))).goto addr := by
    intro k label addr hat hlabel
    have hops := hat.isOperand
    exact stepsTo_of_jal .call (d := returnRegister) hl hat rfl (by simp_all) rfl hlabel
  have hret : ∀ k, StatementAt source k "ret" [] →
      p.StepsTo k fun r => r.goto (r.value returnRegister) := by
    intro k hat
    have hexpand : Shorthand.ret.expand [] =
        .ok [instructionText "jalr" ["x0".toList, "ra".toList, "0".toList]] := rfl
    exact stepsTo_of_jalr .ret hl hat hexpand (by simp_all) rfl
  refine ⟨?bgt, ?ble, ?beqz, ?bnez, ?j, hcall, hret, ?jr, ?resume⟩
  case bgt =>
    intro k rs rt label s t addr hat hs ht hlabel
    have hops := hat.isOperand
    refine stepsTo_of_branch .bgt .blt hl hat rfl ?_ ht hs hlabel fun r => ?_
    · simp_all
    · rw [Condition.holds_blt_iff, AluOp.slt_eq_one_iff, gt_iff_lt]
  case ble =>
    intro k rs rt label s t addr hat hs ht hlabel
    have hops := hat.isOperand
    refine stepsTo_of_branch .ble .bge hl hat rfl ?_ ht hs hlabel fun r => ?_
    · simp_all
    · rw [Condition.holds_bge_iff, AluOp.slt_eq_zero_iff]
  case beqz =>
    intro k rs label s addr hat hs hlabel
    have hops := hat.isOperand
    refine stepsTo_of_branch .beqz .beq (b := 0) hl hat rfl ?_ hs rfl hlabel
      fun r => ?_
    · simp_all
    · rw [Condition.holds_beq_iff, AluOp.sub_eq_zero_iff]
      rfl
  case bnez =>
    intro k rs label s addr hat hs hlabel
    have hops := hat.isOperand
    refine stepsTo_of_branch .bnez .bne (b := 0) hl hat rfl ?_ hs rfl hlabel
      fun r => ?_
    · simp_all
    · rw [Condition.holds_bne_iff, Ne, AluOp.sub_eq_zero_iff]
      rfl
  case j =>
    intro k label addr hat hlabel
    have hops := hat.isOperand
    exact stepsTo_of_jal .j (d := 0) hl hat rfl (by simp_all) rfl hlabel
  case jr =>
    intro k rs s hat hs
    have hops := hat.isOperand
    exact stepsTo_of_jalr .jr hl hat rfl (by simp_all) hs
  case resume =>
    intro k label addr k' hat hlabel hat' r m called r' m' hm hpc hstep hm' hpc' hvalue
    rw [hcall k label addr hat hlabel r m hm hpc] at hstep
    cases hstep
    have hkept : r'.value returnRegister = BitVec.ofNat 32 (4 * (k + 1)) :=
      hvalue.trans (Registers.value_poke_self (by decide) (by decide) r _)
    rw [← hkept]
    exact hret k' hat' r' m' hm' hpc'

/-- A comparison with register zero, and a call of what returns at once. -/
def controlSource : Text := "bgt x0, t0, sub\ncall sub\nhalt\nsub: ret".toList

/-- The program of the two. -/
def controlProgram : Program where
  code := [0x0002C663, 0x008000EF, 0xFFFFFFFF, 0x00008067]
  data := []
  dataBase := 0x200

theorem shorthands_of_control_flow_of_values :
    assemble controlSource = .ok controlProgram ∧
      (Memory.ofImage controlProgram.image 0).Holds controlProgram.code ∧
      (controlProgram.StepsTo 0 fun r => r.goto
        (if (r.value 0).toInt > (r.value 5).toInt then 12 else 4)) ∧
      (controlProgram.StepsTo 1 fun r => (r.poke returnRegister 8).goto 12) ∧
      controlProgram.StepsTo 3 fun r => r.goto (r.value returnRegister) := by
  have hp : assemble controlSource = .ok controlProgram := by decide +kernel
  have hlabel : LabelAt controlSource "sub".toList 12 :=
    ⟨3, ⟨4, "sub: ret".toList⟩, by decide +kernel, by decide +kernel, by decide +kernel⟩
  obtain ⟨hbgt, -, -, -, -, hcall, hret, -, -⟩ := shorthands_of_control_flow hp
  refine ⟨hp, Memory.holds_iff.mpr (by decide +kernel), ?_, ?_, ?_⟩
  · exact hbgt 0 "x0".toList "t0".toList _ 0 5 12
      ⟨0, ⟨1, "bgt x0, t0, sub".toList⟩, by decide +kernel, rfl, rfl, by decide +kernel⟩
      (by decide +kernel) (by decide +kernel) hlabel
  · exact hcall 1 _ 12 ⟨1, ⟨2, "call sub".toList⟩, by decide +kernel, by decide +kernel,
      by decide +kernel, by decide +kernel⟩ hlabel
  · exact hret 3 ⟨3, ⟨4, "sub: ret".toList⟩, by decide +kernel, by decide +kernel,
      by decide +kernel, by decide +kernel⟩

end TileCore

import TileCore.Proofs.Machine.Steps

/-!
# What steps come to

A step asks for an effect and carries it out. Which effects an instruction can ask for is said once
here, constructor by constructor: only the halt word ends a program, and only the two stores write
words. From this follow what a machine looks like behind a step that ends the program and behind
one that fails, without a look at the other instructions.

## Main definitions

* `Machine.carryOut`: what an effect does to a machine.
* `Instruction.MayAsk`: the effects that an instruction can ask for.

## Main results

* `Instruction.mayAsk_of_effect`: an instruction asks for no other effect.
* `Machine.step_eq_halted_iff`: a step ends the program at the halt word only.
* `Machine.step_eq_error`: a step that fails asks for nothing, or for words that cannot all be
  stored.
* `Machine.step_eq_running`: a step that keeps running gives new registers, or stores words.
* `Machine.registers_of_stopped_step`: any other step leaves the registers as they are.
-/

namespace TileCore

/-- What an effect does to a machine, and what the step comes to. -/
def Machine.carryOut (s : Machine) : Except Fault Effect → Machine × Except Fault StepOutcome
  | .error fault => (s, .error fault)
  | .ok .halt => (s, .ok .halted)
  | .ok (.update r) => (⟨r, s.memory⟩, .ok .running)
  | .ok (.write words) =>
    match s.memory.storeWords words with
    | (m, .ok ()) => (⟨s.registers.next, m⟩, .ok .running)
    | (m, .error fault) => (⟨s.registers, m⟩, .error fault)

theorem Machine.step_eq_carryOut (s : Machine) :
    s.step = s.carryOut (nextEffect s.registers s.memory) :=
  rfl

/-! ### The effects of an instruction -/

namespace Instruction

/-- The effects that an instruction can ask for. -/
inductive MayAsk (r : Registers) : Instruction → Effect → Prop
  /-- Only the halt instruction ends the program. -/
  | halt : MayAsk r .halt .halt
  /-- New registers; which instructions give which ones is left open here. -/
  | update {i : Instruction} (r' : Registers) : MayAsk r i (.update r')
  /-- A store writes one word. -/
  | store {rs1 rs2 : Nat} {imm : Int} {base w : Word} (hbase : r.read rs1 = .ok base)
      (hw : r.read rs2 = .ok w) :
      MayAsk r (.store rs1 rs2 imm) (.write [(base + BitVec.ofInt 32 imm, w)])
  /-- A tile store writes the words of its tile. -/
  | tileStore {rd rs1 stride : Nat} {imm : Int} {base pitch : Word} {t : Tile}
      (hbase : r.read rs1 = .ok base) (hpitch : r.read stride = .ok pitch)
      (ht : r.tile rd = .ok t) :
      MayAsk r (.tileStore rd rs1 stride imm)
        (.write (tileWrites (base + BitVec.ofInt 32 imm) pitch t))

variable {i : Instruction} {r : Registers} {m : Memory}

/-- An instruction asks for no other effect. -/
theorem mayAsk_of_effect {e : Effect} (h : i.effect r m = .ok e) : MayAsk r i e := by
  cases i with
  | halt =>
    cases h
    exact .halt
  | store rs1 rs2 imm =>
    simp only [effect, Except.bind_eq_ok_iff] at h
    obtain ⟨base, hbase, w, hw, h⟩ := h
    cases h
    exact .store hbase hw
  | tileStore rd rs1 stride imm =>
    simp only [effect, Except.bind_eq_ok_iff] at h
    obtain ⟨base, hbase, pitch, hpitch, t, ht, h⟩ := h
    cases h
    exact .tileStore hbase hpitch ht
  | branch cond rs1 rs2 imm =>
    simp only [effect, Except.bind_eq_ok_iff] at h
    obtain ⟨a, -, b, -, h⟩ := h
    split_ifs at h <;> cases h <;> exact .update _
  | _ =>
    simp only [effect, Except.bind_eq_ok_iff, pure, Except.pure, Except.ok.injEq] at h
    have hupdate : ∃ r', e = .update r' := by grind
    obtain ⟨r', rfl⟩ := hupdate
    exact .update r'

theorem effect_eq_halt_iff : i.effect r m = .ok .halt ↔ i = .halt := by
  constructor
  · intro h
    cases mayAsk_of_effect h
    rfl
  · rintro rfl
    rfl

end Instruction

/-! ### Steps -/

theorem decode_eq_halt_iff {w : Word} : decode w = .ok .halt ↔ w = haltWord := by
  rw [← encode_halt_iff]
  constructor
  · rintro ⟨⟩
    rfl
  · rintro rfl
    rfl

namespace Machine

variable {r : Registers} {m : Memory}

theorem fetch_eq_ok_iff {i : Instruction} :
    fetch r m = .ok i ↔ ∃ w, m.loadWord r.pc = .ok w ∧ decode w = .ok i := by
  simp only [fetch, Except.bind_eq_ok_iff, Except.mapError_eq_ok_iff]

theorem nextEffect_eq_ok_iff {e : Effect} :
    nextEffect r m = .ok e ↔ ∃ i, fetch r m = .ok i ∧ i.effect r m = .ok e := by
  rw [nextEffect, Except.bind_eq_ok_iff]

/-- A step ends the program at the halt word only, and leaves everything as it is. -/
theorem step_eq_halted_iff {s s' : Machine} :
    s.step = (s', .ok .halted) ↔
      s' = s ∧ s.memory.loadWord s.registers.pc = .ok haltWord := by
  have hhalt : nextEffect s.registers s.memory = .ok .halt ↔
      s.memory.loadWord s.registers.pc = .ok haltWord := by
    simp only [nextEffect_eq_ok_iff, Instruction.effect_eq_halt_iff, fetch_eq_ok_iff,
      exists_eq_right, decode_eq_halt_iff]
  rw [← hhalt, step_eq_carryOut]
  rcases nextEffect s.registers s.memory with fault | _ | r' | words
  · simp [carryOut]
  · simp [carryOut, eq_comm]
  · simp [carryOut]
  · rw [carryOut]
    rcases s.memory.storeWords words with ⟨m, fault | _⟩ <;> simp

/-- A step that fails asks for nothing, or for words that cannot all be stored. -/
theorem step_eq_error {s s' : Machine} {fault : Fault} (h : s.step = (s', .error fault)) :
    (nextEffect s.registers s.memory = .error fault ∧ s' = s) ∨
      ∃ words m, nextEffect s.registers s.memory = .ok (.write words) ∧
        s.memory.storeWords words = (m, .error fault) ∧ s' = ⟨s.registers, m⟩ := by
  rw [step_eq_carryOut] at h
  cases heffect : nextEffect s.registers s.memory with
  | error fault' =>
    rw [heffect, carryOut] at h
    cases h
    exact .inl ⟨rfl, rfl⟩
  | ok e =>
    rw [heffect] at h
    cases e with
    | halt => cases h
    | update r' => cases h
    | write words =>
      rw [carryOut] at h
      rcases hstore : s.memory.storeWords words with ⟨m, fault' | _⟩
      · rw [hstore] at h
        cases h
        exact .inr ⟨words, m, rfl, hstore, rfl⟩
      · rw [hstore] at h
        cases h

/-- A step that keeps running gives new registers, or stores words and moves on. -/
theorem step_eq_running {s s' : Machine} (h : s.step = (s', .ok .running)) :
    (nextEffect s.registers s.memory = .ok (.update s'.registers) ∧ s'.memory = s.memory) ∨
      ∃ words, nextEffect s.registers s.memory = .ok (.write words) ∧
        s.memory.storeWords words = (s'.memory, .ok ()) ∧ s'.registers = s.registers.next := by
  rw [step_eq_carryOut] at h
  rcases heffect : nextEffect s.registers s.memory with fault | _ | r' | words
  · rw [heffect] at h
    cases h
  · rw [heffect] at h
    cases h
  · rw [heffect] at h
    cases h
    exact .inl ⟨rfl, rfl⟩
  · rw [heffect, carryOut] at h
    rcases hstore : s.memory.storeWords words with ⟨m, fault | _⟩
    · rw [hstore] at h
      cases h
    · rw [hstore] at h
      cases h
      exact .inr ⟨words, rfl, hstore, rfl⟩

theorem registers_of_failed_step {s s' : Machine} {fault : Fault}
    (h : s.step = (s', .error fault)) : s'.registers = s.registers := by
  obtain ⟨-, rfl⟩ | ⟨words, m, -, -, rfl⟩ := step_eq_error h <;> rfl

/-- A step that does not keep running leaves the registers as they are. -/
theorem registers_of_stopped_step {s : Machine} (h : s.step.2 ≠ .ok .running) :
    s.step.1.registers = s.registers := by
  rcases hstep : s.step with ⟨s', fault | _ | _⟩
  · exact registers_of_failed_step hstep
  · exact absurd (congrArg Prod.snd hstep) h
  · rw [(step_eq_halted_iff.mp hstep).1]

end Machine

end TileCore

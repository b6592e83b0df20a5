import TileCore.Proofs.Machine.Frames

/-!
# Staying in the code

A step at any instruction but a jump to a register goes on behind the instruction, or as far away as
its offset says. If every offset in some code leads to one of its words or right behind the last
one, a machine does not get out of the code in any other place, as long as it jumps to no register
and stores nothing over the code; and in the code every fetch succeeds.

## Main definitions

* `IsClosed`: every word is an instruction, and every offset leads to a word or behind the last one.
* `Machine.StandsIn`: a machine stands in front of a word or behind the last one.
* `Machine.IsConfined`: the next step stands in the code, jumps to no register and stores nothing
  over the code.

## Main results

* `Instruction.jumpOffset?_of_successor`: where an instruction goes on.
* `Memory.Holds.storeWords`: words that are stored behind some code leave it as it is.
* `Machine.StandsIn.step`: a step in closed code goes on in it.
* `Machine.StandsIn.after`: so does a run.
-/

namespace TileCore

/-! ### Where an instruction goes on -/

/-- An instruction that does not end the program goes on behind itself or as far away as its offset
says, unless it jumps to a register. -/
theorem Instruction.jumpOffset?_of_successor {i : Instruction} {r : Registers} {addr : Word}
    (h : i.successor r = .ok addr) (hhalt : i ≠ .halt)
    (hreturn : ∀ rd rs1 imm, i ≠ .jalr rd rs1 imm) :
    addr = r.nextAddress ∨
      ∃ imm, i.jumpOffset? = some imm ∧ addr = r.pc + BitVec.ofInt 32 imm := by
  cases i with
  | branch cond rs1 rs2 imm =>
    simp only [successor, Except.bind_eq_ok_iff] at h
    obtain ⟨a, -, b, -, h⟩ := h
    obtain rfl := Except.ok.inj h
    split_ifs
    · exact .inr ⟨imm, rfl, rfl⟩
    · exact .inl rfl
  | jal rd imm =>
    cases h
    exact .inr ⟨imm, rfl, rfl⟩
  | jalr rd rs1 imm => exact absurd rfl (hreturn rd rs1 imm)
  | halt => exact absurd rfl hhalt
  | _ =>
    cases h
    exact .inl rfl

/-- A step that keeps running goes on behind its instruction or as far away as the offset says,
unless the instruction jumps to a register. -/
theorem Machine.pc_of_step {s s' : Machine} {i : Instruction}
    (hfetch : fetch s.registers s.memory = .ok i) (hreturn : ∀ rd rs1 imm, i ≠ .jalr rd rs1 imm)
    (h : s.step = (s', .ok .running)) :
    s'.registers.pc = s.registers.nextAddress ∨
      ∃ imm, i.jumpOffset? = some imm ∧
        s'.registers.pc = s.registers.pc + BitVec.ofInt 32 imm := by
  obtain ⟨heffect, -⟩ | ⟨words, -, -, hnext⟩ := step_eq_running h
  · rw [nextEffect, hfetch, Except.ok_bind] at heffect
    refine Instruction.jumpOffset?_of_successor (Instruction.changesOnly_of_effect heffect).2 ?_
      hreturn
    rintro rfl
    cases heffect
  · rw [hnext]
    exact .inl rfl

/-! ### Code that is not stored over -/

namespace Memory

/-- Words that are stored behind some code leave it as it is. -/
theorem Holds.storeWords {m : Memory} {code : List Word} (hm : m.Holds code)
    (hlength : code.length < 0x40000000) {writes : List (Word × Word)}
    (hwrites : ∀ write ∈ writes, 4 * code.length ≤ write.1.toNat) :
    (m.storeWords writes).1.Holds code := by
  induction writes generalizing m with
  | nil => exact hm
  | cons write writes ih =>
    obtain ⟨addr, w⟩ := write
    obtain ⟨haddr, hwrites⟩ := List.forall_mem_cons.mp hwrites
    have hfirst : (m.storeWord addr w).1.Holds code := fun k w' hk => by
      have hlt := (List.getElem?_eq_some_iff.mp hk).1
      rw [loadWord_storeWord_of_outside w, hm k w' hk]
      rw [BitVec.toNat_ofNat]
      simp only at haddr
      omega
    rw [Memory.storeWords]
    rcases hstore : m.storeWord addr w with ⟨m₁, fault | _⟩
    · rwa [hstore] at hfirst
    · rw [hstore] at hfirst
      exact ih hfirst hwrites

end Memory

/-! ### Closed code -/

/-- Code that no offset leads out of, except right behind the last word. -/
structure IsClosed (code : List Word) : Prop where
  /-- All words have addresses. -/
  length_lt : code.length < 0x40000000
  /-- Every word is an instruction, and an offset leads to a word or behind the last one. -/
  instructions : ∀ (k : Nat) (w : Word), code[k]? = some w → ∃ i, decode w = .ok i ∧
    ∀ imm, i.jumpOffset? = some imm → ∃ j ≤ code.length, (4 * k : Int) + imm = 4 * j

namespace Machine

/-- The machine has some code in memory and stands in front of one of its words, or behind the last
one. -/
def StandsIn (code : List Word) (s : Machine) : Prop :=
  s.memory.Holds code ∧ ∃ j ≤ code.length, s.registers.pc.toNat = 4 * j

/-- The machine has not come behind some code, and the next step neither jumps to a register nor
stores over the code. -/
structure IsConfined (code : List Word) (s : Machine) : Prop where
  /-- The end of the code has not been reached. -/
  pc_ne : s.registers.pc.toNat ≠ 4 * code.length
  /-- The instruction does not jump to a register. -/
  noReturn : ∀ rd rs1 imm, fetch s.registers s.memory ≠ .ok (.jalr rd rs1 imm)
  /-- Words are stored behind the code only. -/
  storesBehind : ∀ words, nextEffect s.registers s.memory = .ok (.write words) →
    ∀ write ∈ words, 4 * code.length ≤ write.1.toNat

variable {code : List Word} {s s' : Machine}

/-- In front of a word the word is fetched. -/
theorem fetch_of_holds (hm : s.memory.Holds code) {k : Nat} (hk : k < code.length)
    (hpc : s.registers.pc.toNat = 4 * k) {i : Instruction} (hdecode : decode code[k] = .ok i) :
    fetch s.registers s.memory = .ok i := by
  have hpc' : s.registers.pc = BitVec.ofNat 32 (4 * k) := by
    rw [← hpc, BitVec.ofNat_toNat, BitVec.setWidth_eq]
  rw [fetch, hpc', hm k _ (List.getElem?_eq_getElem hk), Except.ok_bind, hdecode]
  rfl

/-- A step in closed code goes on in it, unless it jumps to a register. -/
theorem pc_of_step_of_isClosed (hcode : IsClosed code) (hm : s.memory.Holds code) {k : Nat}
    (hk : k < code.length) (hpc : s.registers.pc.toNat = 4 * k)
    (hreturn : ∀ rd rs1 imm, decode code[k] ≠ .ok (.jalr rd rs1 imm))
    (h : s.step = (s', .ok .running)) : ∃ j ≤ code.length, s'.registers.pc.toNat = 4 * j := by
  have hlength := hcode.length_lt
  obtain ⟨i, hdecode, hjumps⟩ := hcode.instructions k _ (List.getElem?_eq_getElem hk)
  have hreturn' : ∀ rd rs1 imm, i ≠ .jalr rd rs1 imm := by
    rintro rd rs1 imm rfl
    exact hreturn rd rs1 imm hdecode
  obtain hnext | ⟨imm, himm, hjump⟩ := pc_of_step (fetch_of_holds hm hk hpc hdecode) hreturn' h
  · refine ⟨k + 1, hk, ?_⟩
    have hfour : (4 : Word).toNat = 4 := rfl
    rw [hnext, Registers.nextAddress, BitVec.toNat_add, hpc, hfour]
    exact Nat.mod_eq_of_lt (by omega)
  · obtain ⟨j, hj, hway⟩ := hjumps imm himm
    refine ⟨j, hj, ?_⟩
    rw [hjump, BitVec.toNat_add, BitVec.toNat_ofInt, hpc]
    omega

/-- A step that stores nothing over the code leaves it in memory. -/
theorem holds_of_step (hlength : code.length < 0x40000000) (hm : s.memory.Holds code)
    (hstores : ∀ words, nextEffect s.registers s.memory = .ok (.write words) →
      ∀ write ∈ words, 4 * code.length ≤ write.1.toNat)
    (h : s.step = (s', .ok .running)) : s'.memory.Holds code := by
  obtain ⟨-, hmemory⟩ | ⟨words, heffect, hstore, -⟩ := step_eq_running h
  · rwa [hmemory]
  · have hholds := hm.storeWords hlength (hstores words heffect)
    rwa [hstore] at hholds

/-- In front of the end of closed code a word of it is fetched. -/
theorem StandsIn.exists_fetch (hcode : IsClosed code) (h : s.StandsIn code)
    (hend : s.registers.pc.toNat ≠ 4 * code.length) :
    ∃ k, ∃ hk : k < code.length, s.registers.pc.toNat = 4 * k ∧
      ∃ i, decode code[k] = .ok i ∧ fetch s.registers s.memory = .ok i := by
  obtain ⟨hm, k, hle, hpc⟩ := h
  have hk : k < code.length := by omega
  obtain ⟨i, hdecode, -⟩ := hcode.instructions k _ (List.getElem?_eq_getElem hk)
  exact ⟨k, hk, hpc, i, hdecode, fetch_of_holds hm hk hpc hdecode⟩

/-- A confined step in closed code stays in it. -/
theorem StandsIn.step (hcode : IsClosed code) (h : s.StandsIn code) (hconfined : s.IsConfined code)
    (hstep : s.step = (s', .ok .running)) : s'.StandsIn code := by
  obtain ⟨k, hk, hpc, -⟩ := h.exists_fetch hcode hconfined.pc_ne
  refine ⟨holds_of_step hcode.length_lt h.1 hconfined.storesBehind hstep,
    pc_of_step_of_isClosed hcode h.1 hk hpc (fun rd rs1 imm hjalr => ?_) hstep⟩
  exact hconfined.noReturn rd rs1 imm (fetch_of_holds h.1 hk hpc hjalr)

/-- A run in closed code stays in it as long as its steps are confined. -/
theorem StandsIn.after (hcode : IsClosed code) {n : Nat} (h : s.StandsIn code)
    (hconfined : ∀ i < n, ∀ t, Machine.after i s = some t → t.IsConfined code)
    (hafter : Machine.after n s = some s') : s'.StandsIn code := by
  induction n generalizing s with
  | zero =>
    cases hafter
    exact h
  | succ n ih =>
    have hfirst := hconfined 0 (Nat.succ_pos n) s rfl
    rw [Machine.after] at hafter
    split at hafter
    case h_1 s₁ hstep =>
      refine ih (h.step hcode hfirst hstep) (fun i hi t ht => ?_) hafter
      exact hconfined (i + 1) (Nat.succ_lt_succ hi) t ((after_succ i hstep).trans ht)
    case h_2 => cases hafter

end Machine

end TileCore

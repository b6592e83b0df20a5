import TileCore.Proofs.Machine.Failures

/-!
# What faults say

A step accesses one word to fetch its instruction, and then the words that the instruction loads or
stores. Since a decoded instruction names only registers that exist, these accesses decide together
with the decoder what the step comes to: it fails with the fault of the first access that fails, or
of the decoder, and in no other way. So no step reports a register, an alignment fault names an
address that is not a multiple of four, a bounds fault names one whose word does not lie in memory,
and a decoding fault carries what the decoder says of the word at the program counter.

## Main definitions

* `Instruction.accesses`: the addresses of the words that an instruction loads or stores.
* `Machine.Accesses`: the step accesses the word at an address.

## Main results

* `Instruction.carryOut_effect_snd`: what a decoded instruction comes to is decided by its accesses.
* `Machine.step_snd`: what a step comes to.
* `faults_are_truthful`: what the faults of steps say.
-/

namespace TileCore

/-! ### The accesses of an instruction -/

namespace Instruction

/-- The addresses of the words that the instruction loads or stores, one after the other. -/
def accesses (r : Registers) : Instruction → Except Fault (List Word)
  | load _ rs1 imm | store rs1 _ imm => do
    let base ← r.read rs1
    return [base + BitVec.ofInt 32 imm]
  | tileLoad _ rs1 stride imm | tileStore _ rs1 stride imm => do
    let base ← r.read rs1
    let pitch ← r.read stride
    return tileAddresses (base + BitVec.ofInt 32 imm) pitch
  | _ => .ok []

/-- What the instruction comes to if it does not fail. -/
def outcome : Instruction → StepOutcome
  | halt => .halted
  | _ => .running

end Instruction

theorem Registers.setTile_of_lt {i : Nat} (h : i < tileCount) (r : Registers) (t : Tile) :
    r.setTile i t = .ok { r with tiles := r.tiles.set i t } := by
  rw [setTile, dif_pos h]

/-- What stores come to is decided by their addresses. -/
theorem Machine.carryOut_write_snd (s : Machine) (words : List (Word × Word)) :
    (s.carryOut (.ok (.write words))).2 =
      (s.memory.checkWords (words.map Prod.fst)).map fun _ => .running := by
  rw [carryOut, ← Memory.storeWords_snd]
  rcases s.memory.storeWords words with ⟨m, fault | _⟩ <;> rfl

/-- What an instruction comes to whose operands fit their fields is decided by its accesses. -/
theorem Instruction.carryOut_effect_snd {i : Instruction} (h : i.Fits) (s : Machine) :
    ∃ addrs, i.accesses s.registers = .ok addrs ∧
      (s.carryOut (i.effect s.registers s.memory)).2 =
        (s.memory.checkWords addrs).map fun _ => i.outcome := by
  cases i with
  | alu op rd rs1 rs2 =>
    obtain ⟨hrs2, hrs1, hrd⟩ := h
    obtain ⟨a, ha⟩ := s.registers.exists_read_of_lt hrs1
    obtain ⟨b, hb⟩ := s.registers.exists_read_of_lt hrs2
    refine ⟨[], rfl, ?_⟩
    rw [effect, ha, Except.ok_bind, hb, Except.ok_bind, Registers.write_of_lt hrd]
    rfl
  | aluImm op rd rs1 imm =>
    obtain ⟨-, -, hrs1, hrd⟩ := h
    obtain ⟨a, ha⟩ := s.registers.exists_read_of_lt hrs1
    refine ⟨[], rfl, ?_⟩
    rw [effect, ha, Except.ok_bind, Registers.write_of_lt hrd]
    rfl
  | load rd rs1 imm =>
    obtain ⟨-, hrs1, hrd⟩ := h
    obtain ⟨base, hbase⟩ := s.registers.exists_read_of_lt hrs1
    refine ⟨[base + BitVec.ofInt 32 imm], by rw [accesses, hbase]; rfl, ?_⟩
    rw [effect, hbase, Except.ok_bind, ← Memory.map_loadWords, Memory.loadWords]
    cases s.memory.loadWord (base + BitVec.ofInt 32 imm) with
    | error fault => rfl
    | ok w =>
      rw [Except.ok_bind, Registers.write_of_lt hrd]
      rfl
  | store rs1 rs2 imm =>
    obtain ⟨-, hrs2, hrs1⟩ := h
    obtain ⟨base, hbase⟩ := s.registers.exists_read_of_lt hrs1
    obtain ⟨w, hw⟩ := s.registers.exists_read_of_lt hrs2
    refine ⟨[base + BitVec.ofInt 32 imm], by rw [accesses, hbase]; rfl, ?_⟩
    rw [effect, hbase, Except.ok_bind, hw]
    exact s.carryOut_write_snd _
  | branch cond rs1 rs2 imm =>
    obtain ⟨-, hrs2, hrs1⟩ := h
    obtain ⟨a, ha⟩ := s.registers.exists_read_of_lt hrs1
    obtain ⟨b, hb⟩ := s.registers.exists_read_of_lt hrs2
    refine ⟨[], rfl, ?_⟩
    rw [effect, ha, Except.ok_bind, hb, Except.ok_bind]
    split_ifs <;> rfl
  | lui rd imm =>
    refine ⟨[], rfl, ?_⟩
    rw [effect, Registers.write_of_lt h.2]
    rfl
  | jal rd imm =>
    refine ⟨[], rfl, ?_⟩
    rw [effect, Registers.write_of_lt h.2]
    rfl
  | jalr rd rs1 imm =>
    obtain ⟨-, hrs1, hrd⟩ := h
    obtain ⟨base, hbase⟩ := s.registers.exists_read_of_lt hrs1
    refine ⟨[], rfl, ?_⟩
    rw [effect, hbase, Except.ok_bind, Registers.write_of_lt hrd]
    rfl
  | gemm rd ra rb rc =>
    obtain ⟨hrd, hra, hrb, hrc⟩ := h
    obtain ⟨a, ha⟩ := s.registers.exists_tile_of_lt hra
    obtain ⟨b, hb⟩ := s.registers.exists_tile_of_lt hrb
    obtain ⟨c, hc⟩ := s.registers.exists_tile_of_lt hrc
    refine ⟨[], rfl, ?_⟩
    rw [effect, ha, Except.ok_bind, hb, Except.ok_bind, hc, Except.ok_bind,
      Registers.setTile_of_lt hrd]
    rfl
  | tileLoad rd rs1 stride imm =>
    obtain ⟨hrd, hrs1, hstride, -⟩ := h
    obtain ⟨base, hbase⟩ := s.registers.exists_read_of_lt hrs1
    obtain ⟨pitch, hpitch⟩ := s.registers.exists_read_of_lt hstride
    refine ⟨tileAddresses (base + BitVec.ofInt 32 imm) pitch,
      by rw [accesses, hbase, Except.ok_bind, hpitch]; rfl, ?_⟩
    rw [effect, hbase, Except.ok_bind, hpitch, Except.ok_bind, loadTile, ← Memory.map_loadWords]
    cases s.memory.loadWords (tileAddresses (base + BitVec.ofInt 32 imm) pitch) with
    | error fault => rfl
    | ok ws =>
      rw [Except.map, Except.ok_bind, Registers.setTile_of_lt hrd]
      rfl
  | tileStore rd rs1 stride imm =>
    obtain ⟨hrd, hrs1, hstride, -⟩ := h
    obtain ⟨base, hbase⟩ := s.registers.exists_read_of_lt hrs1
    obtain ⟨pitch, hpitch⟩ := s.registers.exists_read_of_lt hstride
    obtain ⟨t, ht⟩ := s.registers.exists_tile_of_lt hrd
    refine ⟨tileAddresses (base + BitVec.ofInt 32 imm) pitch,
      by rw [accesses, hbase, Except.ok_bind, hpitch]; rfl, ?_⟩
    rw [effect, hbase, Except.ok_bind, hpitch, Except.ok_bind, ht, ← map_fst_tileWrites _ _ t]
    exact s.carryOut_write_snd _
  | halt => exact ⟨[], rfl, rfl⟩

/-! ### Steps -/

namespace Machine

variable {s s' : Machine} {addr : Word} {fault : Fault}

/-- The step accesses the word at an address: it fetches it, or its instruction loads or stores
it. -/
def Accesses (s : Machine) (addr : Word) : Prop :=
  addr = s.registers.pc ∨ ∃ i addrs, fetch s.registers s.memory = .ok i ∧
    i.accesses s.registers = .ok addrs ∧ addr ∈ addrs

/-- What a step comes to is decided by the fetch and by the accesses of the instruction. -/
theorem step_snd (s : Machine) :
    s.step.2 = (do
      let i ← fetch s.registers s.memory
      let addrs ← i.accesses s.registers
      s.memory.checkWords addrs
      return i.outcome) := by
  rw [step_eq_carryOut, nextEffect]
  cases hfetch : fetch s.registers s.memory with
  | error fault => rfl
  | ok i =>
    obtain ⟨w, -, hdecode⟩ := fetch_eq_ok_iff.mp hfetch
    have hfits := fits_of_encode (Instruction.encode_eq_ok_iff.mpr hdecode)
    obtain ⟨addrs, haccesses, hsnd⟩ := Instruction.carryOut_effect_snd hfits s
    rw [Except.ok_bind, Except.ok_bind, haccesses, hsnd, Except.ok_bind]
    cases s.memory.checkWords addrs <;> rfl

/-- A fetch fails at its access, or at a word that is no instruction. -/
theorem fetch_eq_error_iff {r : Registers} {m : Memory} :
    fetch r m = .error fault ↔ m.checkWord r.pc = .error fault ∨
      ∃ w reason, m.loadWord r.pc = .ok w ∧ decode w = .error reason ∧
        fault = .decode r.pc reason := by
  rw [fetch, Except.bind_eq_error_iff, Memory.loadWord_eq_error_iff]
  refine or_congr_right (exists_congr fun w => ?_)
  cases decode w <;> simp [Except.mapError, eq_comm]

/-- A step fails at one of its accesses, or at a word that is no instruction. -/
theorem fault_of_step (h : s.step = (s', .error fault)) :
    (∃ addr, s.Accesses addr ∧ s.memory.checkWord addr = .error fault) ∨
      ∃ w reason, s.memory.loadWord s.registers.pc = .ok w ∧ decode w = .error reason ∧
        fault = .decode s.registers.pc reason := by
  have hsnd := s.step_snd
  rw [h, eq_comm, Except.bind_eq_error_iff] at hsnd
  obtain hfetch | ⟨i, hfetch, hrest⟩ := hsnd
  · exact (fetch_eq_error_iff.mp hfetch).imp_left fun hcheck => ⟨_, .inl rfl, hcheck⟩
  · obtain ⟨w, -, hdecode⟩ := fetch_eq_ok_iff.mp hfetch
    have hfits := fits_of_encode (Instruction.encode_eq_ok_iff.mpr hdecode)
    obtain ⟨addrs, haccesses, -⟩ := Instruction.carryOut_effect_snd hfits s
    rw [haccesses, Except.ok_bind, Except.bind_eq_error_iff] at hrest
    obtain hcheck | ⟨_, -, hnone⟩ := hrest
    · obtain ⟨addr, hmem, hcheck⟩ := Memory.exists_of_checkWords_eq_error hcheck
      exact .inl ⟨addr, .inr ⟨i, addrs, hfetch, haccesses, hmem⟩, hcheck⟩
    · cases hnone

end Machine

/-- The fault of a step that fails says the truth. It never is about a register. If it is about the
alignment of an address, the step accesses a word there, and the address is not a multiple of four.
If it is about bounds, it is about the four bytes of a word that the step accesses, whose address is
a multiple of four, and they do not lie in memory. If it is about decoding, it names the address of
the instruction, a word lies there, and the decoder refuses this word for the same reason. -/
theorem faults_are_truthful {s s' : Machine} {fault : Fault} (h : s.step = (s', .error fault)) :
    (∀ file i, fault ≠ .registerIndex file i) ∧
      (∀ addr, fault = .misaligned addr → s.Accesses addr ∧ addr.toNat % 4 ≠ 0) ∧
      (∀ addr len, fault = .outOfBounds addr len → s.Accesses addr ∧ len = 4 ∧
        addr.toNat % 4 = 0 ∧ s.memory.size < addr.toNat + 4) ∧
      ∀ pc reason, fault = .decode pc reason → pc = s.registers.pc ∧ pc.toNat % 4 = 0 ∧
        pc.toNat + 4 ≤ s.memory.size ∧ decode (s.memory.word pc.toNat) = .error reason := by
  obtain ⟨addr, haccess, hcheck⟩ | ⟨w, reason, hload, hdecode, rfl⟩ := Machine.fault_of_step h
  · obtain ⟨hmisaligned, rfl⟩ | ⟨haligned, hend, rfl⟩ := Memory.checkWord_eq_error_iff.mp hcheck
    · refine ⟨nofun, ?_, nofun, nofun⟩
      rintro _ ⟨⟩
      exact ⟨haccess, hmisaligned⟩
    · refine ⟨nofun, nofun, ?_, nofun⟩
      rintro _ _ ⟨⟩
      exact ⟨haccess, rfl, haligned, hend⟩
  · obtain ⟨hcheck, rfl⟩ := Memory.loadWord_eq_ok_iff.mp hload
    obtain ⟨haligned, hend⟩ := Memory.checkWord_eq_ok_iff.mp hcheck
    refine ⟨nofun, nofun, nofun, ?_⟩
    rintro _ _ ⟨⟩
    exact ⟨rfl, haligned, hend, hdecode⟩

/-- A machine with nothing but one word in memory. -/
def soleWord (w : Word) : Machine := ⟨.cleared, Memory.ofImage (Word.toBytes w) 4⟩

/-- A load from the address two, a tile store that runs out of memory, and a word that is no
instruction. -/
theorem truthful_faults_of_three_machines :
    (soleWord 0x00202083).step.2 = .error (.misaligned 2) ∧ (soleWord 0x00202083).Accesses 2 ∧
      cutTileStore.step.2 = .error (.outOfBounds 28 4) ∧ cutTileStore.Accesses 28 ∧
      cutTileStore.memory.size < 32 ∧
      (soleWord 0).step.2 = .error (.decode 0 (.unknownOpcode 0 0)) ∧
      decode ((soleWord 0).memory.word 0) = .error (.unknownOpcode 0 0) := by
  have hload : (soleWord 0x00202083).step = (soleWord 0x00202083, .error (.misaligned 2)) := by rfl
  have hstore : cutTileStore.step =
      (⟨cutTileStore.registers, cutTileMemory⟩, .error (.outOfBounds 28 4)) := by rfl
  have hzero : (soleWord 0).step = (soleWord 0, .error (.decode 0 (.unknownOpcode 0 0))) := by rfl
  obtain ⟨-, hmisaligned, -, -⟩ := faults_are_truthful hload
  obtain ⟨-, -, hbounds, -⟩ := faults_are_truthful hstore
  obtain ⟨-, -, -, hdecode⟩ := faults_are_truthful hzero
  obtain ⟨haccess, -, -, hsize⟩ := hbounds 28 4 rfl
  obtain ⟨-, -, -, hrefused⟩ := hdecode 0 _ rfl
  exact ⟨congrArg Prod.snd hload, (hmisaligned 2 rfl).1, congrArg Prod.snd hstore, haccess, hsize,
    congrArg Prod.snd hzero, hrefused⟩

end TileCore

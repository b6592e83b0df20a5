import TileCore.Proofs.Machine.Failures

/-!
# What steps leave alone

An instruction has at most one target: words in memory, a scalar register or a tile register. What a
step changes lies in the target of its instruction, whatever else overlaps with it, and the program
counter goes where the registers in front of the step say. So a jump to a register reads its target
before the link is written, although both may be the same register.

## Main definitions

* `Instruction.Stores`, `Instruction.scalarTarget?`, `Instruction.tileTarget?`: the targets of an
  instruction.
* `Instruction.successor`: the address where an instruction goes on.
* `Registers.ChangesOnly`: registers that agree except for the program counter and a target.

## Main results

* `Instruction.changesOnly_of_effect`: an instruction that gives new registers.
* `Instruction.stores_of_effect`: an instruction that writes words.
* `step_changes_only_targets`: what a step that does not fail changes.
-/

namespace TileCore

/-! ### Targets -/

namespace Instruction

/-- The instruction stores a word at an address. -/
inductive Stores (r : Registers) : Instruction → Word → Prop
  /-- A store has one word. -/
  | store {rs1 rs2 : Nat} {imm : Int} {base : Word} (hbase : r.read rs1 = .ok base) :
      Stores r (.store rs1 rs2 imm) (base + BitVec.ofInt 32 imm)
  /-- A tile store has the words of a tile. -/
  | tileStore {rd rs1 stride : Nat} {imm : Int} {base pitch addr : Word}
      (hbase : r.read rs1 = .ok base) (hpitch : r.read stride = .ok pitch)
      (haddr : addr ∈ tileAddresses (base + BitVec.ofInt 32 imm) pitch) :
      Stores r (.tileStore rd rs1 stride imm) addr

/-- The scalar register to which the instruction gives a value. -/
def scalarTarget? : Instruction → Option Nat
  | alu _ rd _ _ | aluImm _ rd _ _ | lui rd _ | load rd _ _ | jal rd _ | jalr rd _ _ => some rd
  | _ => none

/-- The tile register to which the instruction gives a tile. -/
def tileTarget? : Instruction → Option Nat
  | gemm rd _ _ _ | tileLoad rd _ _ _ => some rd
  | _ => none

/-- The address where the instruction goes on, given the registers in front of it. -/
def successor (r : Registers) : Instruction → Except Fault Word
  | branch cond rs1 rs2 imm => do
    let a ← r.read rs1
    let b ← r.read rs2
    return if cond.holds (difference a b) then r.pc + BitVec.ofInt 32 imm else r.nextAddress
  | jal _ imm => .ok (r.pc + BitVec.ofInt 32 imm)
  | jalr _ rs1 imm => do
    let base ← r.read rs1
    return base + BitVec.ofInt 32 imm
  | halt => .ok r.pc
  | _ => .ok r.nextAddress

end Instruction

namespace Registers

variable {r r' : Registers} {scalar? tile? : Option Nat}

/-- Apart from the program counter, the registers differ in the targets only, if there are any, and
not in both of them. Register zero is no target. -/
structure ChangesOnly (r r' : Registers) (scalar? tile? : Option Nat) : Prop where
  /-- A scalar register that has changed is the target. -/
  scalars : ∀ j (h : j < scalarCount), r'.scalars[j] ≠ r.scalars[j] → scalar? = some j ∧ j ≠ 0
  /-- A tile register that has changed is the target. -/
  tiles : ∀ j (h : j < tileCount), r'.tiles[j] ≠ r.tiles[j] → tile? = some j
  /-- One of the two register files is as it was. -/
  oneFile : r'.scalars = r.scalars ∨ r'.tiles = r.tiles

theorem ChangesOnly.refl (r : Registers) : r.ChangesOnly r scalar? tile? :=
  ⟨fun _ _ h => absurd rfl h, fun _ _ h => absurd rfl h, .inl rfl⟩

theorem ChangesOnly.goto (h : r.ChangesOnly r' scalar? tile?) (addr : Word) :
    r.ChangesOnly (r'.goto addr) scalar? tile? :=
  ⟨h.scalars, h.tiles, h.oneFile⟩

theorem changesOnly_of_write {i : Nat} {v : Word} (h : r.write i v = .ok r') :
    r.ChangesOnly r' (some i) tile? := by
  rw [write] at h
  split_ifs at h with hlt hzero <;> cases h
  · exact .refl r
  · refine ⟨fun j hj hne => ?_, fun _ _ hne => absurd rfl hne, .inr rfl⟩
    by_cases hji : i = j
    · exact ⟨congrArg some hji, hji ▸ hzero⟩
    · exact absurd (Vector.getElem_setIfInBounds_ne hj hji) hne

/-- A tile register takes a tile if it exists, and nothing else changes. -/
theorem setTile_eq_ok_iff {i : Nat} {t : Tile} :
    r.setTile i t = .ok r' ↔ ∃ h : i < tileCount, r' = { r with tiles := r.tiles.set i t h } := by
  rw [setTile]
  split_ifs with h <;> simp [h, eq_comm]

theorem changesOnly_of_setTile {i : Nat} {t : Tile} (h : r.setTile i t = .ok r') :
    r.ChangesOnly r' scalar? (some i) := by
  obtain ⟨hlt, rfl⟩ := setTile_eq_ok_iff.mp h
  refine ⟨fun _ _ hne => absurd rfl hne, fun j hj hne => ?_, .inl rfl⟩
  by_cases hji : i = j
  · exact congrArg some hji
  · exact absurd (Vector.getElem_set_ne hlt hj hji) hne

theorem pc_of_write {i : Nat} {v : Word} (h : r.write i v = .ok r') : r'.pc = r.pc := by
  rw [write] at h
  split_ifs at h <;> cases h <;> rfl

theorem pc_of_setTile {i : Nat} {t : Tile} (h : r.setTile i t = .ok r') : r'.pc = r.pc := by
  obtain ⟨-, rfl⟩ := setTile_eq_ok_iff.mp h
  rfl

theorem pc_next (r : Registers) : r.next.pc = r.nextAddress := rfl

theorem pc_next_of_write {i : Nat} {v : Word} (h : r.write i v = .ok r') :
    r'.next.pc = r.nextAddress := by
  rw [pc_next, nextAddress, nextAddress, pc_of_write h]

theorem pc_next_of_setTile {i : Nat} {t : Tile} (h : r.setTile i t = .ok r') :
    r'.next.pc = r.nextAddress := by
  rw [pc_next, nextAddress, nextAddress, pc_of_setTile h]

end Registers

namespace Instruction

variable {i : Instruction} {r r' : Registers} {m : Memory}

/-- An instruction that gives new registers changes only its target and goes on at its successor. -/
theorem changesOnly_of_effect (h : i.effect r m = .ok (.update r')) :
    r.ChangesOnly r' i.scalarTarget? i.tileTarget? ∧ i.successor r = .ok r'.pc := by
  cases i with
  | alu op rd rs1 rs2 =>
    simp only [effect, Except.bind_eq_ok_iff] at h
    obtain ⟨a, -, b, -, r₁, hwrite, h⟩ := h
    cases h
    exact ⟨(Registers.changesOnly_of_write hwrite).goto _,
      congrArg Except.ok (Registers.pc_next_of_write hwrite).symm⟩
  | aluImm op rd rs1 imm =>
    simp only [effect, Except.bind_eq_ok_iff] at h
    obtain ⟨a, -, r₁, hwrite, h⟩ := h
    cases h
    exact ⟨(Registers.changesOnly_of_write hwrite).goto _,
      congrArg Except.ok (Registers.pc_next_of_write hwrite).symm⟩
  | lui rd imm =>
    simp only [effect, Except.bind_eq_ok_iff] at h
    obtain ⟨r₁, hwrite, h⟩ := h
    cases h
    exact ⟨(Registers.changesOnly_of_write hwrite).goto _,
      congrArg Except.ok (Registers.pc_next_of_write hwrite).symm⟩
  | load rd rs1 imm =>
    simp only [effect, Except.bind_eq_ok_iff] at h
    obtain ⟨base, -, w, -, r₁, hwrite, h⟩ := h
    cases h
    exact ⟨(Registers.changesOnly_of_write hwrite).goto _,
      congrArg Except.ok (Registers.pc_next_of_write hwrite).symm⟩
  | branch cond rs1 rs2 imm =>
    simp only [effect, Except.bind_eq_ok_iff] at h
    obtain ⟨a, ha, b, hb, h⟩ := h
    rw [successor, ha, Except.ok_bind, hb, Except.ok_bind]
    split_ifs at h ⊢ <;> cases h <;> exact ⟨(Registers.ChangesOnly.refl r).goto _, rfl⟩
  | jal rd imm =>
    simp only [effect, Except.bind_eq_ok_iff] at h
    obtain ⟨r₁, hwrite, h⟩ := h
    cases h
    exact ⟨(Registers.changesOnly_of_write hwrite).goto _, rfl⟩
  | jalr rd rs1 imm =>
    simp only [effect, Except.bind_eq_ok_iff] at h
    obtain ⟨base, hbase, r₁, hwrite, h⟩ := h
    cases h
    -- The base is read in front of the link, also if both are in the same register.
    rw [successor, hbase]
    exact ⟨(Registers.changesOnly_of_write hwrite).goto _, rfl⟩
  | gemm rd ra rb rc =>
    simp only [effect, Except.bind_eq_ok_iff] at h
    obtain ⟨a, -, b, -, c, -, r₁, hset, h⟩ := h
    cases h
    exact ⟨(Registers.changesOnly_of_setTile hset).goto _,
      congrArg Except.ok (Registers.pc_next_of_setTile hset).symm⟩
  | tileLoad rd rs1 stride imm =>
    simp only [effect, Except.bind_eq_ok_iff] at h
    obtain ⟨base, -, pitch, -, t, -, r₁, hset, h⟩ := h
    cases h
    exact ⟨(Registers.changesOnly_of_setTile hset).goto _,
      congrArg Except.ok (Registers.pc_next_of_setTile hset).symm⟩
  | store rs1 rs2 imm =>
    simp only [effect, Except.bind_eq_ok_iff] at h
    obtain ⟨base, -, w, -, h⟩ := h
    cases h
  | tileStore rd rs1 stride imm =>
    simp only [effect, Except.bind_eq_ok_iff] at h
    obtain ⟨base, -, pitch, -, t, -, h⟩ := h
    cases h
  | halt => cases h

/-- An instruction that writes words stores them and goes on behind itself. -/
theorem stores_of_effect {words : List (Word × Word)} (h : i.effect r m = .ok (.write words)) :
    (∀ addr ∈ words.map Prod.fst, i.Stores r addr) ∧ i.successor r = .ok r.nextAddress := by
  cases mayAsk_of_effect h with
  | store hbase hw =>
    refine ⟨fun addr haddr => ?_, rfl⟩
    obtain rfl := List.mem_singleton.mp haddr
    exact .store hbase
  | tileStore hbase hpitch ht => exact ⟨fun addr haddr => .tileStore hbase hpitch haddr, rfl⟩

end Instruction

/-! ### Steps -/

/-- A step that does not fail changes only what its instruction has for a target, and goes on where
the instruction says. The memory keeps its size, and a byte that has changed lies in a word that the
instruction stores. A register that has changed, except for the program counter, is the one that the
instruction names as its target; it is not scalar register zero, and never do a scalar register and
a tile register change together. The same holds access by access. -/
theorem step_changes_only_targets {s s' : Machine} {outcome : StepOutcome}
    (h : s.step = (s', .ok outcome)) :
    Machine.stepInOrder.perform s = (s', .ok outcome) ∧
      ∃ i, Machine.fetch s.registers s.memory = .ok i ∧
        s'.memory.size = s.memory.size ∧
        (∀ a, s'.memory.byte a ≠ s.memory.byte a →
          ∃ addr, i.Stores s.registers addr ∧ addr.toNat ≤ a ∧ a < addr.toNat + 4) ∧
        s.registers.ChangesOnly s'.registers i.scalarTarget? i.tileTarget? ∧
        i.successor s.registers = .ok s'.registers.pc := by
  refine ⟨(Machine.perform_stepInOrder s).trans h, ?_⟩
  cases outcome with
  | halted =>
    obtain ⟨rfl, hload⟩ := Machine.step_eq_halted_iff.mp h
    exact ⟨.halt, Machine.fetch_eq_ok_iff.mpr ⟨_, hload, decode_eq_halt_iff.mpr rfl⟩, rfl,
      fun _ hne => absurd rfl hne, .refl _, rfl⟩
  | running =>
    obtain ⟨hnext, hmemory⟩ | ⟨words, hnext, hstore, hregisters⟩ := Machine.step_eq_running h
    · obtain ⟨i, hfetch, heffect⟩ := Machine.nextEffect_eq_ok_iff.mp hnext
      rw [hmemory]
      exact ⟨i, hfetch, rfl, fun _ hne => absurd rfl hne, Instruction.changesOnly_of_effect heffect⟩
    · obtain ⟨i, hfetch, heffect⟩ := Machine.nextEffect_eq_ok_iff.mp hnext
      obtain ⟨hstores, hsuccessor⟩ := Instruction.stores_of_effect heffect
      rw [hregisters]
      refine ⟨i, hfetch, Memory.size_of_storeWords hstore, fun a hne => ?_,
        (Registers.ChangesOnly.refl _).goto _, hsuccessor⟩
      obtain ⟨addr, hmem, hin⟩ := Memory.exists_address_of_byte_ne hstore hne
      exact ⟨addr, hstores addr hmem, hin⟩

/-- A machine at a jump that leaves its link in the register that it jumps to. -/
def linkingJump : Machine where
  registers := Registers.cleared.poke 1 16
  memory := Memory.ofImage (Word.toBytes 0x008080E7) 4

/-- A machine at a store of a tile whose rows overlap. -/
def overlappingTileStore : Machine where
  registers := cutTileStore.registers.poke 2 4
  memory := Memory.ofImage (Word.toBytes 0x10080857) 36

theorem targets_of_jump_and_tile_store :
    linkingJump.step.2 = .ok .running ∧ linkingJump.step.1.registers.pc = 24 ∧
      linkingJump.registers.ChangesOnly linkingJump.step.1.registers (some 1) none ∧
      overlappingTileStore.step.2 = .ok .running ∧
      (∀ a, overlappingTileStore.step.1.memory.byte a ≠ overlappingTileStore.memory.byte a →
        ∃ addr ∈ tileAddresses 16 4, addr.toNat ≤ a ∧ a < addr.toNat + 4) ∧
      overlappingTileStore.registers.ChangesOnly overlappingTileStore.step.1.registers none
        none := by
  have hjump : linkingJump.step = (linkingJump.step.1, .ok .running) := by rfl
  have hstore : overlappingTileStore.step = (overlappingTileStore.step.1, .ok .running) := by rfl
  obtain ⟨-, i, hfetch, -, -, hjumpChanges, hsuccessor⟩ := step_changes_only_targets hjump
  obtain ⟨-, j, hfetch', -, hbytes, hstoreChanges, -⟩ := step_changes_only_targets hstore
  have hi : Machine.fetch linkingJump.registers linkingJump.memory = .ok (.jalr 1 1 8) := by rfl
  have hj : Machine.fetch overlappingTileStore.registers overlappingTileStore.memory =
      .ok (.tileStore 1 0 2 16) := by rfl
  obtain rfl := Except.ok.inj (hi.symm.trans hfetch)
  obtain rfl := Except.ok.inj (hj.symm.trans hfetch')
  refine ⟨congrArg Prod.snd hjump, Except.ok.inj hsuccessor.symm, hjumpChanges,
    congrArg Prod.snd hstore, fun a hne => ?_, hstoreChanges⟩
  obtain ⟨addr, hstores, hin⟩ := hbytes a hne
  cases hstores with
  | tileStore hbase hpitch haddr =>
    cases hbase
    cases hpitch
    exact ⟨addr, haddr, hin⟩

end TileCore

import TileCore.Proofs.Machine.Effects

/-!
# Access by access

A step is defined by what its instruction asks for as a whole. Here the same step is taken apart
into its accesses: registers and words are read and written one after the other, every write is done
at once, and the first access that fails ends the instruction and leaves behind what has been done
by then. Both come to the same on every machine. So an instruction that fails has not yet changed a
register, although nothing takes a change back, and the only trace that it can leave are words that
it has stored before the one that failed.

## Main definitions

* `Action`: something done to a machine access by access, with `Action.perform`.
* `Instruction.execute`, `Machine.stepInOrder`: the accesses of an instruction and of a step.

## Main results

* `Instruction.perform_execute`: the accesses of an instruction come to its effect.
* `Machine.perform_stepInOrder`: the accesses of a step come to the step.
-/

namespace TileCore

/-- Something done to a machine that may fail; what has been done by then stays done. -/
abbrev Action (α : Type) : Type := ExceptT Fault (StateM Machine) α

namespace Action

variable {α β : Type}

/-- The machine that an action leaves, and what the action comes to. -/
def perform (x : Action α) (s : Machine) : Machine × Except Fault α :=
  let (result, s) := Id.run ((ExceptT.run x).run s)
  (s, result)

/-! ### Accesses -/

/-- An access that only reads. -/
def look (f : Machine → Except Fault α) : Action α :=
  ExceptT.mk fun s => (f s, s)

/-- An access that changes a register. -/
def change (f : Registers → Except Fault Registers) : Action Unit :=
  ExceptT.mk fun s =>
    match f s.registers with
    | .ok r => (.ok (), { s with registers := r })
    | .error fault => (.error fault, s)

/-- Stores a word. -/
def storeWord (addr w : Word) : Action Unit :=
  ExceptT.mk fun s =>
    let (m, result) := s.memory.storeWord addr w
    (result, { s with memory := m })

/-- The word at an address. -/
def loadWord (addr : Word) : Action Word := look fun s => s.memory.loadWord addr

/-- The value of a scalar register. -/
def scalar (i : Nat) : Action Word := look fun s => s.registers.read i

/-- The content of a tile register. -/
def tile (i : Nat) : Action Tile := look fun s => s.registers.tile i

/-- The address of the current instruction. -/
def address : Action Word := look fun s => .ok s.registers.pc

/-- Gives a scalar register a value. -/
def setScalar (i : Nat) (v : Word) : Action Unit := change fun r => r.write i v

/-- Replaces the content of a tile register. -/
def setTile (i : Nat) (t : Tile) : Action Unit := change fun r => r.setTile i t

/-- Goes on at another address. -/
def goto (addr : Word) : Action StepOutcome := do
  change fun r => .ok (r.goto addr)
  return .running

/-- Goes on behind the current instruction. -/
def advance : Action StepOutcome := do
  goto ((← address) + 4)

end Action

open TileCore.Action

/-- The accesses of an instruction, one after the other. -/
def Instruction.execute : Instruction → Action StepOutcome
  | alu op rd rs1 rs2 => do
    let a ← scalar rs1
    let b ← scalar rs2
    setScalar rd (op.apply a b)
    advance
  | aluImm op rd rs1 imm => do
    let a ← scalar rs1
    setScalar rd (op.apply a (BitVec.ofInt 32 imm))
    advance
  | lui rd imm => do
    setScalar rd (BitVec.ofNat 32 imm <<< 12)
    advance
  | load rd rs1 imm => do
    let base ← scalar rs1
    let w ← loadWord (base + BitVec.ofInt 32 imm)
    setScalar rd w
    advance
  | store rs1 rs2 imm => do
    let base ← scalar rs1
    let w ← scalar rs2
    storeWord (base + BitVec.ofInt 32 imm) w
    advance
  | branch cond rs1 rs2 imm => do
    let pc ← address
    let a ← scalar rs1
    let b ← scalar rs2
    if cond.holds (difference a b) then goto (pc + BitVec.ofInt 32 imm) else advance
  | jal rd imm => do
    let pc ← address
    setScalar rd (pc + 4)
    goto (pc + BitVec.ofInt 32 imm)
  | jalr rd rs1 imm => do
    let pc ← address
    let base ← scalar rs1
    setScalar rd (pc + 4)
    goto (base + BitVec.ofInt 32 imm)
  | gemm rd ra rb rc => do
    let a ← tile ra
    let b ← tile rb
    let c ← tile rc
    setTile rd (Tile.fma a b c)
    advance
  | tileLoad rd rs1 stride imm => do
    let base ← scalar rs1
    let pitch ← scalar stride
    let words ← (tileAddresses (base + BitVec.ofInt 32 imm) pitch).mapM loadWord
    setTile rd (Tile.ofWords words)
    advance
  | tileStore rd rs1 stride imm => do
    let base ← scalar rs1
    let pitch ← scalar stride
    let t ← tile rd
    (tileWrites (base + BitVec.ofInt 32 imm) pitch t).forM fun write => storeWord write.1 write.2
    advance
  | halt => return .halted

/-- The accesses of a step: those of the fetch, and those of the instruction. -/
def Machine.stepInOrder : Action StepOutcome := do
  let pc ← address
  let w ← loadWord pc
  let i ← look fun _ => (decode w).mapError (.decode pc)
  i.execute

/-! ### What accesses come to -/

namespace Action

variable {α β : Type} {s : Machine}

theorem perform_bind (x : Action α) (f : α → Action β) (s : Machine) :
    (x >>= f).perform s =
      match x.perform s with
      | (s, .ok a) => (f a).perform s
      | (s, .error fault) => (s, .error fault) := by
  simp only [perform, ExceptT.run_bind, StateT.run_bind, Id.run_bind]
  rcases Id.run ((ExceptT.run x).run s) with ⟨result, s'⟩
  cases result <;> rfl

theorem perform_address_bind (x : Word → Action α) (s : Machine) :
    (address >>= x).perform s = (x s.registers.pc).perform s :=
  rfl

theorem perform_change (f : Registers → Except Fault Registers) (s : Machine) :
    (change f).perform s =
      match f s.registers with
      | .ok r => (⟨r, s.memory⟩, .ok ())
      | .error fault => (s, .error fault) := by
  change (_, _) = _
  cases f s.registers <;> rfl

theorem perform_goto (addr : Word) (s : Machine) :
    (goto addr).perform s = (⟨s.registers.goto addr, s.memory⟩, .ok .running) :=
  rfl

theorem perform_advance (s : Machine) :
    advance.perform s = (⟨s.registers.next, s.memory⟩, .ok .running) :=
  rfl

theorem perform_storeWord (addr w : Word) (s : Machine) :
    (storeWord addr w).perform s =
      (⟨s.registers, (s.memory.storeWord addr w).1⟩, (s.memory.storeWord addr w).2) :=
  rfl

theorem perform_mapM_loadWord (addrs : List Word) (s : Machine) :
    (addrs.mapM loadWord).perform s = (s, s.memory.loadWords addrs) := by
  induction addrs with
  | nil => rfl
  | cons addr addrs ih =>
    have hload : (loadWord addr).perform s = (s, s.memory.loadWord addr) := rfl
    rw [List.mapM_cons, perform_bind, hload, Memory.loadWords]
    cases s.memory.loadWord addr with
    | error fault => rfl
    | ok w =>
      simp only [perform_bind, ih]
      cases s.memory.loadWords addrs <;> rfl

theorem perform_forM_storeWord (writes : List (Word × Word)) (s : Machine) :
    (writes.forM fun write => storeWord write.1 write.2).perform s =
      (⟨s.registers, (s.memory.storeWords writes).1⟩, (s.memory.storeWords writes).2) := by
  induction writes generalizing s with
  | nil => rfl
  | cons write writes ih =>
    obtain ⟨addr, w⟩ := write
    change (storeWord addr w >>= fun _ =>
      writes.forM fun write => storeWord write.1 write.2).perform s = _
    rw [perform_bind, perform_storeWord, Memory.storeWords]
    obtain ⟨m, fault | _⟩ := s.memory.storeWord addr w
    · rfl
    · exact ih _

/-! ### What accesses ask for -/

/-- What is read has not changed the machine, so what follows asks for its effect as before. -/
theorem perform_bind_of_read {x : Action α} {f : α → Action StepOutcome} {result : Except Fault α}
    {e : α → Except Fault Effect} (hx : x.perform s = (s, result))
    (hf : ∀ a, (f a).perform s = s.carryOut (e a)) :
    (x >>= f).perform s = s.carryOut (result >>= e) := by
  rw [perform_bind, hx]
  cases result with
  | error fault => rfl
  | ok a => exact hf a

/-- A register is written last: what follows only moves on and cannot fail. -/
theorem perform_change_bind {f : Registers → Except Fault Registers} {x : Action StepOutcome}
    {after : Registers → Registers}
    (hx : ∀ r, x.perform ⟨r, s.memory⟩ = (⟨after r, s.memory⟩, .ok .running)) :
    (change f >>= fun _ => x).perform s =
      s.carryOut (f s.registers >>= fun r => return .update (after r)) := by
  rw [perform_bind, perform_change]
  cases f s.registers with
  | error fault => rfl
  | ok r => exact hx r

theorem perform_storeWord_bind (addr w : Word) (s : Machine) :
    (storeWord addr w >>= fun _ => advance).perform s =
      s.carryOut (.ok (.write [(addr, w)])) := by
  rw [perform_bind, perform_storeWord, Machine.carryOut, Memory.storeWords]
  obtain ⟨m, fault | _⟩ := s.memory.storeWord addr w <;> rfl

theorem perform_forM_storeWord_bind (writes : List (Word × Word)) (s : Machine) :
    ((writes.forM fun write => storeWord write.1 write.2) >>= fun _ => advance).perform s =
      s.carryOut (.ok (.write writes)) := by
  rw [perform_bind, perform_forM_storeWord, Machine.carryOut]
  obtain ⟨m, fault | _⟩ := s.memory.storeWords writes <;> rfl

end Action

theorem loadTile_bind {α : Type} (m : Memory) (base pitch : Word) (f : Tile → Except Fault α) :
    (loadTile m base pitch >>= f) =
      (m.loadWords (tileAddresses base pitch) >>= fun words => f (Tile.ofWords words)) := by
  rw [loadTile]
  cases m.loadWords (tileAddresses base pitch) <;> rfl

/-- The accesses of an instruction come to its effect. -/
theorem Instruction.perform_execute (i : Instruction) (s : Machine) :
    i.execute.perform s = s.carryOut (i.effect s.registers s.memory) := by
  cases i with
  | alu op rd rs1 rs2 =>
    refine perform_bind_of_read rfl fun a => ?_
    refine perform_bind_of_read rfl fun b => ?_
    exact perform_change_bind fun r => perform_advance ⟨r, _⟩
  | aluImm op rd rs1 imm =>
    refine perform_bind_of_read rfl fun a => ?_
    exact perform_change_bind fun r => perform_advance ⟨r, _⟩
  | lui rd imm => exact perform_change_bind fun r => perform_advance ⟨r, _⟩
  | load rd rs1 imm =>
    refine perform_bind_of_read rfl fun base => ?_
    refine perform_bind_of_read rfl fun w => ?_
    exact perform_change_bind fun r => perform_advance ⟨r, _⟩
  | store rs1 rs2 imm =>
    refine perform_bind_of_read rfl fun base => ?_
    refine perform_bind_of_read rfl fun w => ?_
    exact perform_storeWord_bind _ w s
  | branch cond rs1 rs2 imm =>
    rw [execute, perform_address_bind]
    refine perform_bind_of_read rfl fun a => ?_
    refine perform_bind_of_read rfl fun b => ?_
    cases cond.holds (difference a b) with
    | true => exact perform_goto _ s
    | false => exact perform_advance s
  | jal rd imm =>
    rw [execute, perform_address_bind]
    exact perform_change_bind fun r => perform_goto _ ⟨r, _⟩
  | jalr rd rs1 imm =>
    rw [execute, perform_address_bind]
    refine perform_bind_of_read rfl fun base => ?_
    exact perform_change_bind fun r => perform_goto _ ⟨r, _⟩
  | gemm rd ra rb rc =>
    refine perform_bind_of_read rfl fun a => ?_
    refine perform_bind_of_read rfl fun b => ?_
    refine perform_bind_of_read rfl fun c => ?_
    exact perform_change_bind fun r => perform_advance ⟨r, _⟩
  | tileLoad rd rs1 stride imm =>
    refine perform_bind_of_read rfl fun base => ?_
    refine perform_bind_of_read rfl fun pitch => ?_
    -- The words are read one by one; the tile register is written only behind the last of them.
    rw [loadTile_bind]
    refine perform_bind_of_read (perform_mapM_loadWord _ s) fun words => ?_
    exact perform_change_bind fun r => perform_advance ⟨r, _⟩
  | tileStore rd rs1 stride imm =>
    refine perform_bind_of_read rfl fun base => ?_
    refine perform_bind_of_read rfl fun pitch => ?_
    refine perform_bind_of_read rfl fun t => ?_
    exact perform_forM_storeWord_bind _ s
  | halt => rfl

/-- The accesses of a step come to the step. -/
theorem Machine.perform_stepInOrder (s : Machine) : stepInOrder.perform s = s.step := by
  rw [step_eq_carryOut, nextEffect, fetch, bind_assoc, stepInOrder, perform_address_bind]
  refine perform_bind_of_read rfl fun w => ?_
  refine perform_bind_of_read rfl fun i => ?_
  exact i.perform_execute s

end TileCore

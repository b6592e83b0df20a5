import TileCore.Proofs.Machine.Effects
import TileCore.Proofs.Machine.Sessions

/-!
# Register zero

Register zero reads as zero, whatever it holds, and takes no value. It can be named as a source, as
a base, as a stride, as a link register and as a destination, so this has to hold of each access
that an instruction makes. Putting another content into register zero and then making a step is the
same as making the step first; hence two machines that differ in nothing else do the same for ever,
each with its own content, and a core, which starts with zero in it, never has anything else.

## Main definitions

* `Registers.AgreeBeyondZero`, `Machine.AgreeBeyondZero`: everything agrees except for what register
  zero holds.
* `Machine.steps`: several steps and what they come to.

## Main results

* `Instruction.effect_poke_zero`: no instruction looks at what register zero holds.
* `Machine.step_putZero`, `Machine.steps_putZero`: nor does a step, nor a row of steps.
* `register_zero_is_isolated`: what register zero holds is neither seen nor changed.
-/

namespace TileCore

/-! ### Registers that agree -/

namespace Registers

/-- What register zero holds. -/
def zeroContent (r : Registers) : Word := r.scalars[0]

/-- Everything agrees except for what register zero holds. -/
structure AgreeBeyondZero (r r' : Registers) : Prop where
  /-- The program counters agree. -/
  pc : r.pc = r'.pc
  /-- The other scalar registers agree. -/
  scalars : ∀ i (h : i < scalarCount), i ≠ 0 → r.scalars[i] = r'.scalars[i]
  /-- The tile registers agree. -/
  tiles : r.tiles = r'.tiles

variable (r : Registers) (v : Word)

@[simp] theorem zeroContent_poke_zero : (r.poke 0 v).zeroContent = v := by
  simp [zeroContent, poke]

theorem agreeBeyondZero_poke_zero : r.AgreeBeyondZero (r.poke 0 v) where
  pc := rfl
  scalars := fun i h hi => by simp [poke, Ne.symm hi]
  tiles := rfl

/-- Registers that agree in this way differ by the content of register zero. -/
theorem AgreeBeyondZero.eq_poke {r r' : Registers} (h : r.AgreeBeyondZero r') :
    r' = r.poke 0 r'.zeroContent := by
  obtain ⟨pc, scalars, tiles⟩ := r
  obtain ⟨pc', scalars', tiles'⟩ := r'
  obtain ⟨rfl, hscalars, rfl⟩ := h
  simp only [poke, mk.injEq, true_and, and_true]
  refine Vector.ext fun i hi => ?_
  by_cases hzero : i = 0
  · subst hzero
    simp [zeroContent]
  · rw [Vector.getElem_setIfInBounds_ne hi (Ne.symm hzero)]
    exact (hscalars i hi hzero).symm

theorem poke_zeroContent : r.poke 0 r.zeroContent = r :=
  (AgreeBeyondZero.eq_poke ⟨rfl, fun _ _ _ => rfl, rfl⟩).symm

/-! ### Accesses -/

theorem read_poke_zero (i : Nat) : (r.poke 0 v).read i = r.read i := by
  rw [read, read]
  split_ifs with hzero hlt
  · rfl
  · congr 1
    exact Vector.getElem_setIfInBounds_ne hlt (Ne.symm hzero)
  · rfl

theorem write_poke_zero (i : Nat) (w : Word) :
    (r.poke 0 v).write i w = (r.write i w).map fun r => r.poke 0 v := by
  rw [write, write]
  split_ifs with hlt hzero
  · rfl
  · have hcomm : (r.poke 0 v).poke i w = (r.poke i w).poke 0 v := by
      simp only [poke, mk.injEq, true_and, and_true]
      refine Vector.ext fun j hj => ?_
      simp only [Vector.getElem_setIfInBounds]
      grind
    rw [hcomm]
    rfl
  · rfl

theorem tile_poke_zero (i : Nat) : (r.poke 0 v).tile i = r.tile i := rfl

theorem setTile_poke_zero (i : Nat) (t : Tile) :
    (r.poke 0 v).setTile i t = (r.setTile i t).map fun r => r.poke 0 v := by
  rw [setTile, setTile]
  split_ifs <;> rfl

end Registers

/-! ### Instructions and steps -/

/-- An effect on registers whose register zero holds something else. -/
def Effect.putZero (v : Word) : Effect → Effect
  | update r => update (r.poke 0 v)
  | e => e

/-- No instruction looks at what register zero holds, and none changes it. -/
theorem Instruction.effect_poke_zero (i : Instruction) (r : Registers) (m : Memory) (v : Word) :
    i.effect (r.poke 0 v) m = (i.effect r m).map (Effect.putZero v) := by
  cases i with
  | branch cond rs1 rs2 imm =>
    simp only [effect, Registers.read_poke_zero, Except.map_bind_right,
      apply_ite (Except.map (Effect.putZero v))]
    rfl
  | _ =>
    simp only [effect, Registers.read_poke_zero, Registers.write_poke_zero,
      Registers.tile_poke_zero, Registers.setTile_poke_zero, Except.map_bind_right,
      Except.bind_map_left]
    rfl

namespace Machine

/-- The machine whose register zero holds something else. -/
def putZero (s : Machine) (v : Word) : Machine := ⟨s.registers.poke 0 v, s.memory⟩

/-- Everything agrees except for what register zero holds. -/
def AgreeBeyondZero (s s' : Machine) : Prop :=
  s.registers.AgreeBeyondZero s'.registers ∧ s.memory = s'.memory

theorem AgreeBeyondZero.eq_putZero {s s' : Machine} (h : s.AgreeBeyondZero s') :
    s' = s.putZero s'.registers.zeroContent := by
  obtain ⟨r, m⟩ := s
  obtain ⟨r', m'⟩ := s'
  obtain ⟨hregisters, rfl⟩ := h
  exact congrArg (Machine.mk · m) hregisters.eq_poke

theorem agreeBeyondZero_putZero (s : Machine) (v : Word) : s.AgreeBeyondZero (s.putZero v) :=
  ⟨s.registers.agreeBeyondZero_poke_zero v, rfl⟩

theorem putZero_zeroContent (s : Machine) : s.putZero s.registers.zeroContent = s := by
  rw [putZero, Registers.poke_zeroContent]

theorem fetch_poke_zero (r : Registers) (m : Memory) (v : Word) :
    fetch (r.poke 0 v) m = fetch r m :=
  rfl

theorem carryOut_putZero (s : Machine) (v : Word) (e : Except Fault Effect) :
    (s.putZero v).carryOut (e.map (Effect.putZero v)) =
      ((s.carryOut e).1.putZero v, (s.carryOut e).2) := by
  obtain ⟨r, m⟩ := s
  rcases e with fault | _ | r' | words
  · rfl
  · rfl
  · rfl
  · change (putZero ⟨r, m⟩ v).carryOut (.ok (.write words)) = _
    rw [carryOut, carryOut]
    rcases hstore : m.storeWords words with ⟨m', fault | _⟩
    · simp only [putZero, hstore]
    · simp only [putZero, hstore]
      rfl

/-- A step does not look at what register zero holds, and does not change it. -/
theorem step_putZero (s : Machine) (v : Word) :
    (s.putZero v).step = (s.step.1.putZero v, s.step.2) := by
  have heffect : nextEffect (s.registers.poke 0 v) s.memory =
      (nextEffect s.registers s.memory).map (Effect.putZero v) := by
    rw [nextEffect, nextEffect, fetch_poke_zero, Except.map_bind_right]
    simp only [Instruction.effect_poke_zero]
  rw [step_eq_carryOut, step_eq_carryOut, ← carryOut_putZero, ← heffect]
  rfl

theorem zeroContent_step (s : Machine) :
    s.step.1.registers.zeroContent = s.registers.zeroContent := by
  have hstep := step_putZero s s.registers.zeroContent
  rw [putZero_zeroContent] at hstep
  rw [hstep]
  exact Registers.zeroContent_poke_zero _ _

/-- The machine behind `n` steps and what the steps come to, one after the other. A step is also
made behind one that fails or that ends the program. -/
def steps : (n : Nat) → Machine → Machine × List (Except Fault StepOutcome)
  | 0, s => (s, [])
  | n + 1, s => ((steps n s.step.1).1, s.step.2 :: (steps n s.step.1).2)

/-- No row of steps looks at what register zero holds. -/
theorem steps_putZero (n : Nat) (s : Machine) (v : Word) :
    steps n (s.putZero v) = ((steps n s).1.putZero v, (steps n s).2) := by
  induction n generalizing s with
  | zero => rfl
  | succ n ih => rw [steps, step_putZero, ih, steps]

theorem zeroContent_steps (n : Nat) (s : Machine) :
    (steps n s).1.registers.zeroContent = s.registers.zeroContent := by
  induction n generalizing s with
  | zero => rfl
  | succ n ih => rw [steps, ih, zeroContent_step]

end Machine

/-! ### Cores -/

namespace Core

theorem zeroContent_step (c : Core) :
    c.step.1.machine.registers.zeroContent = c.machine.registers.zeroContent := by
  rcases c.machine_step with hstep | hstep
  · rw [hstep, Machine.zeroContent_step]
  · rw [hstep]

theorem zeroContent_start (control : Control) (m : Memory) :
    (start control m).machine.registers.zeroContent = 0 :=
  rfl

/-- A core that starts with zero in register zero keeps it there. -/
theorem zeroContent_obeyAll {c : Core} (h : c.machine.registers.zeroContent = 0)
    (commands : List Command) : (c.obeyAll commands).machine.registers.zeroContent = 0 := by
  refine obeyAll_induction (P := fun c => c.machine.registers.zeroContent = 0)
    (fun c hc => ?_) (fun c image hc => ?_) h commands
  · rw [zeroContent_step, hc]
  · rw [load]
    split
    · exact zeroContent_start _ _
    · exact hc

end Core

/-- Of two machines that agree in everything but what register zero holds, a step comes to the same,
and so does each of any number of steps; they agree again, and each register zero still holds what
it held. So a core has zero in register zero, whatever it has been told to do since it was made. -/
theorem register_zero_is_isolated :
    (∀ s s' : Machine, s.AgreeBeyondZero s' →
      s.step.2 = s'.step.2 ∧ s.step.1.AgreeBeyondZero s'.step.1 ∧
        s.step.1.registers.zeroContent = s.registers.zeroContent ∧
        s'.step.1.registers.zeroContent = s'.registers.zeroContent) ∧
    (∀ (s s' : Machine) (n : Nat), s.AgreeBeyondZero s' →
      (s.steps n).2 = (s'.steps n).2 ∧ (s.steps n).1.AgreeBeyondZero (s'.steps n).1 ∧
        (s.steps n).1.registers.zeroContent = s.registers.zeroContent ∧
        (s'.steps n).1.registers.zeroContent = s'.registers.zeroContent) ∧
    ∀ (image : List Byte) (control : Control) (size : Nat) (commands : List Command),
      ((Core.ofImage image control size).obeyAll commands).machine.registers.zeroContent = 0 := by
  refine ⟨fun s s' h => ?_, fun s s' n h => ?_, fun image control size commands => ?_⟩
  · refine ⟨?_, ?_, s.zeroContent_step, s'.zeroContent_step⟩
    · rw [h.eq_putZero, Machine.step_putZero]
    · rw [h.eq_putZero, Machine.step_putZero]
      exact Machine.agreeBeyondZero_putZero _ _
  · refine ⟨?_, ?_, Machine.zeroContent_steps n s, Machine.zeroContent_steps n s'⟩
    · rw [h.eq_putZero, Machine.steps_putZero]
    · rw [h.eq_putZero, Machine.steps_putZero]
      exact Machine.agreeBeyondZero_putZero _ _
  · exact Core.zeroContent_obeyAll (Core.zeroContent_start _ _) commands

/-- A machine that stores register zero at an address relative to register zero and links a jump
there; the register holds the given word. -/
def zeroUser (v : Word) : Machine where
  registers := Registers.cleared.poke 0 v
  memory := Memory.ofImage (Word.toBytes 0x00002423 ++ Word.toBytes 0xFFDFF06F) 12

theorem register_zero_is_isolated_of_store_and_link :
    (zeroUser 0).AgreeBeyondZero (zeroUser 0xFFFF) ∧
      (zeroUser 0).step.2 = (zeroUser 0xFFFF).step.2 ∧
      ((zeroUser 0).steps 3).2 = ((zeroUser 0xFFFF).steps 3).2 ∧
      ((zeroUser 0xFFFF).steps 3).1.registers.zeroContent = 0xFFFF ∧
      ((Core.ofImage (Word.toBytes 0xFFDFF06F) Control.default 12).obeyAll
        [.load (Word.toBytes 0x00002423 ++ Word.toBytes 0xFFDFF06F), .run 5, .step]
        ).machine.registers.zeroContent = 0 := by
  obtain ⟨hstep, hsteps, hcore⟩ := register_zero_is_isolated
  have hagree : (zeroUser 0).AgreeBeyondZero (zeroUser 0xFFFF) :=
    (zeroUser 0).agreeBeyondZero_putZero 0xFFFF
  obtain ⟨houtcomes, -, -, hcontent⟩ := hsteps _ _ 3 hagree
  exact ⟨hagree, (hstep _ _ hagree).1, houtcomes, hcontent, hcore _ _ _ _⟩

end TileCore

import TileCore.Machine.Core
import TileCore.Proofs.Machine.Effects

/-!
# Runs as iterated steps

A run of a core that goes on is nothing but steps of its machine, one after the other. After any
number of steps that keep running, the rest of the run is a run of the machine that they leave. So a
run comes to one of three ends, and each end counts its cycles in its own way: at the limit all
steps are counted, the halt word is counted as well, and an instruction that fails is not.

## Main results

* `Core.run_add_of_after`: a run goes on behind steps that keep running.
* `Machine.exists_after_or_stop`: steps keep running up to the limit, or one of them is the first
  that does not.
* `run_iterates_steps`: the three ends of a run.
-/

namespace TileCore

namespace Core

variable {s s' : Machine} {control : Control} {cycles : Nat}

/-- A run goes on behind steps that keep running. -/
theorem run_add_of_after {k : Nat} (h : Machine.after k s = some s') (n : Nat) :
    run (k + n) ⟨s, control, .active, cycles⟩ = run n ⟨s', control, .active, cycles + k⟩ := by
  induction k generalizing s cycles with
  | zero =>
    cases h
    rw [Nat.zero_add, Nat.add_zero]
  | succ k ih =>
    rw [Machine.after] at h
    split at h
    case h_1 s₁ hstep =>
      rw [Nat.add_right_comm, run, step, hstep]
      simp only
      rw [ih h, Nat.add_assoc, Nat.add_comm 1 k]
    case h_2 => cases h

theorem run_succ_of_halted (h : s.step = (s', .ok .halted)) (n : Nat) :
    run (n + 1) ⟨s, control, .active, cycles⟩ =
      (⟨s', control, .halted, cycles + 1⟩, .ok .halted) := by
  rw [run, step, h]

theorem run_succ_of_error {fault : Fault} (h : s.step = (s', .error fault)) (n : Nat) :
    run (n + 1) ⟨s, control, .active, cycles⟩ =
      (⟨s', control, .faulted fault, cycles⟩, .error fault) := by
  rw [run, step, h]

end Core

/-- A machine stops at a step that ends the program or fails. -/
def Machine.Stops (s : Machine) : Prop :=
  (∃ s', s.step = (s', .ok .halted)) ∨ ∃ s' fault, s.step = (s', .error fault)

/-- Steps keep running up to the limit, or one of them is the first that does not. -/
theorem Machine.exists_after_or_stop (s : Machine) (n : Nat) :
    (∃ s', after n s = some s') ∨ ∃ k s', k < n ∧ after k s = some s' ∧ s'.Stops := by
  induction n generalizing s with
  | zero => exact .inl ⟨s, rfl⟩
  | succ n ih =>
    rcases hstep : s.step with ⟨s₁, fault | _ | _⟩
    · exact .inr ⟨0, s, Nat.succ_pos n, rfl, .inr ⟨s₁, fault, hstep⟩⟩
    · obtain ⟨s', hafter⟩ | ⟨k, s', hk, hafter, hstops⟩ := ih s₁
      · exact .inl ⟨s', (after_succ n hstep).trans hafter⟩
      · exact .inr ⟨k + 1, s', Nat.succ_lt_succ hk, (after_succ k hstep).trans hafter, hstops⟩
    · exact .inr ⟨0, s, Nat.succ_pos n, rfl, .inl ⟨s₁, hstep⟩⟩

/-- The three ends of a run. If the first `n` steps keep running, a run up to `n` reaches its limit
in the machine that they leave, and has counted all of them. If the program ends behind `k` such
steps, the run ends with it; the halt word is counted, and the program counter still stands on it.
If a step fails behind `k` such steps, the run fails with it; the step is not counted, and the
registers are those in front of it. There is no other end. -/
theorem run_iterates_steps {c : Core} (hactive : c.status = .active) (n : Nat) :
    (∀ s, Machine.after n c.machine = some s →
      c.run n = ({ c with machine := s, cycles := c.cycles + n }, .ok .limitReached)) ∧
    (∀ k s s', k < n → Machine.after k c.machine = some s → s.step = (s', .ok .halted) →
      c.run n =
          ({ c with machine := s', status := .halted, cycles := c.cycles + (k + 1) },
            .ok .halted) ∧
        s' = s ∧ s'.memory.loadWord s'.registers.pc = .ok haltWord) ∧
    (∀ k s s' fault, k < n → Machine.after k c.machine = some s → s.step = (s', .error fault) →
      c.run n =
          ({ c with machine := s', status := .faulted fault, cycles := c.cycles + k },
            .error fault) ∧
        s'.registers = s.registers) ∧
    ((∃ s, Machine.after n c.machine = some s) ∨
      ∃ k s, k < n ∧ Machine.after k c.machine = some s ∧ s.Stops) := by
  obtain ⟨start, control, status, cycles⟩ := c
  cases hactive
  refine ⟨fun s hafter => ?_, fun k s s' hk hafter hstep => ?_,
    fun k s s' fault hk hafter hstep => ?_, start.exists_after_or_stop n⟩
  · exact Core.run_add_of_after hafter 0
  -- Behind `k` steps that keep running at least one more is allowed, and that one stops.
  · obtain ⟨m, rfl⟩ := Nat.exists_eq_add_of_lt hk
    obtain ⟨hsame, hword⟩ := Machine.step_eq_halted_iff.mp hstep
    refine ⟨?_, hsame, hsame ▸ hword⟩
    rw [Nat.add_assoc, Core.run_add_of_after hafter, Core.run_succ_of_halted hstep, Nat.add_assoc]
  · obtain ⟨m, rfl⟩ := Nat.exists_eq_add_of_lt hk
    refine ⟨?_, Machine.registers_of_failed_step hstep⟩
    rw [Nat.add_assoc, Core.run_add_of_after hafter, Core.run_succ_of_error hstep]

/-- A core that counts to one and then meets the given word. -/
def countingCore (last : Word) : Core :=
  Core.ofImage (Word.toBytes 0x00100093 ++ Word.toBytes last) Control.default 0

/-- The machine of such a core when it meets this word. -/
def countedMachine (last : Word) : Machine where
  registers := ((Core.startRegisters Control.default).poke 1 1).goto 4
  memory := (countingCore last).machine.memory

theorem run_iterates_steps_of_counting :
    (countingCore haltWord).status = .active ∧
      (countingCore haltWord).run 1 =
        (⟨countedMachine haltWord, Control.default, .active, 1⟩, .ok .limitReached) ∧
      (countingCore haltWord).run 2 =
        (⟨countedMachine haltWord, Control.default, .halted, 2⟩, .ok .halted) ∧
      (countingCore 0).status = .active ∧
      (countingCore 0).run 2 =
        (⟨countedMachine 0, Control.default, .faulted (.decode 4 (.unknownOpcode 0 0)), 1⟩,
          .error (.decode 4 (.unknownOpcode 0 0))) := by
  have hactive : ∀ last, (countingCore last).status = .active := fun _ => rfl
  have hcount : Machine.after 1 (countingCore haltWord).machine =
      some (countedMachine haltWord) := by rfl
  have hcount' : Machine.after 1 (countingCore 0).machine = some (countedMachine 0) := by rfl
  have hhalt : (countedMachine haltWord).step = (countedMachine haltWord, .ok .halted) := by rfl
  have hfail : (countedMachine 0).step =
      (countedMachine 0, .error (.decode 4 (.unknownOpcode 0 0))) := by rfl
  refine ⟨rfl, ?_, ?_, rfl, ?_⟩
  · exact (run_iterates_steps (hactive haltWord) 1).1 _ hcount
  · exact ((run_iterates_steps (hactive haltWord) 2).2.1 1 _ _ (by decide) hcount hhalt).1
  · exact ((run_iterates_steps (hactive 0) 2).2.2.1 1 _ _ _ (by decide) hcount' hfail).1

end TileCore

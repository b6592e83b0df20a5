import TileCore.Proofs.Machine.Runs

/-!
# Limits that add up

A run stops at its limit, at the halt word or at a fault. Only a run that has reached its limit can
be gone on with, and a second run then does what a single run would have done behind the first
limit. This holds of every core. One that has ended with the halt word says so in every run, also in
one that may not take a step; one that has failed says so in every run but that one, and there it
can be gone on with like a core whose limit is reached.

## Main definitions

* `Core.runThen`: a run, and another one behind it if the limit of the first was reached.

## Main results

* `Core.run_add`: a run up to a sum of limits is a run up to the first and then up to the second.
* `budgets_compose`: the same, and a run that has ended is not changed by a larger limit.
-/

namespace TileCore

namespace Core

/-- A run, and another one behind it if the limit of the first was reached. -/
def runThen (first second : Nat) (c : Core) : Core × Except Fault RunOutcome :=
  match c.run first with
  | (c, .ok .limitReached) => c.run second
  | ended => ended

theorem isHalted_iff {c : Core} : c.isHalted = true ↔ c.status = .halted := by
  rw [isHalted, decide_eq_true_iff]

theorem step_of_isHalted {c : Core} (h : c.isHalted = true) : c.step = (c, .ok .halted) := by
  obtain ⟨machine, control, status, cycles⟩ := c
  cases isHalted_iff.mp h
  rfl

/-- A core that has met the halt word says so in every run, also in one without a step. -/
theorem run_of_isHalted {c : Core} (h : c.isHalted = true) (n : Nat) :
    c.run n = (c, .ok .halted) := by
  cases n with
  | zero => rw [run, if_pos h]
  | succ n => rw [run, step_of_isHalted h]

/-- A run up to a sum of limits is a run up to the first one and then up to the second. -/
theorem run_add (c : Core) (first second : Nat) :
    c.run (first + second) = c.runThen first second := by
  induction first generalizing c with
  | zero =>
    rw [Nat.zero_add, runThen, run]
    by_cases h : c.isHalted = true
    · rw [if_pos h, run_of_isHalted h]
    · rw [if_neg h]
  | succ first ih =>
    rw [Nat.add_right_comm, runThen, run, run]
    rcases c.step with ⟨c', fault | _ | _⟩
    · rfl
    · exact ih c'
    · rfl

/-- A run that has not reached its limit is not gone on with. -/
theorem runThen_of_ne {c : Core} {first : Nat} (h : (c.run first).2 ≠ .ok .limitReached)
    (second : Nat) : c.runThen first second = c.run first := by
  rw [runThen]
  split
  · next c' hrun => exact absurd (congrArg Prod.snd hrun) h
  · rfl

end Core

/-- On every core, whether it goes on, has ended or has failed, a run up to a limit and then, if
that limit was reached, a run up to another one come to the same result and the same core as a
single run up to the sum. So a run that has ended with the halt word or with a fault comes to the
same with every larger limit. -/
theorem budgets_compose (c : Core) (a b : Nat) :
    c.runThen a b = c.run (a + b) ∧
      ((c.run a).2 ≠ .ok .limitReached → ∀ m, a ≤ m → c.run m = c.run a) := by
  refine ⟨(c.run_add a b).symm, fun hended m hm => ?_⟩
  obtain ⟨more, rfl⟩ := Nat.exists_eq_add_of_le hm
  rw [Core.run_add, Core.runThen_of_ne hended]

/-- The second run meets the halt word in the only step that it may take, which is also the last one
of a single run; no larger limit changes that. -/
theorem budgets_compose_of_counting :
    (countingCore haltWord).runThen 1 1 = (countingCore haltWord).run 2 ∧
      ((countingCore haltWord).run 2).2 ≠ .ok .limitReached ∧
      (countingCore haltWord).run 9 = (countingCore haltWord).run 2 := by
  have hrun : (countingCore haltWord).run 2 =
      (⟨countedMachine haltWord, Control.default, .halted, 2⟩, .ok .halted) := by rfl
  have hended : ((countingCore haltWord).run 2).2 ≠ .ok .limitReached := by
    rw [hrun]
    nofun
  exact ⟨(budgets_compose (countingCore haltWord) 1 1).1, hended,
    (budgets_compose (countingCore haltWord) 2 0).2 hended 9 (by decide)⟩

end TileCore

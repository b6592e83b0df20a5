import TileCore.Machine.Core

/-!
# Sessions

A session with a core is a row of commands: single steps, runs up to a limit, and images to load. A
run is nothing but steps, so what the steps of a core and its loads keep is kept by every session.

## Main definitions

* `Command`, `Core.obey`, `Core.obeyAll`: what a core is told to do and what it makes of it.

## Main results

* `Core.machine_step`: what a step does to the machine of a core.
* `Core.obeyAll_induction`: what steps and loads keep holds behind every session.
-/

namespace TileCore

/-- What a core is told to do. -/
inductive Command
  /-- One step. -/
  | step
  /-- A run up to a limit. -/
  | run (limit : Nat)
  /-- A new image. -/
  | load (image : List Byte)
  deriving DecidableEq

namespace Core

/-- The core behind a command. -/
def obey (c : Core) : Command → Core
  | .step => c.step.1
  | .run limit => (c.run limit).1
  | .load image => (c.load image).1

/-- The core behind several commands. -/
def obeyAll (c : Core) (commands : List Command) : Core := commands.foldl obey c

/-- A step of a core is a step of its machine, or leaves the machine alone. -/
theorem machine_step (c : Core) :
    c.step.1.machine = c.machine.step.1 ∨ c.step.1.machine = c.machine := by
  obtain ⟨s, control, status, cycles⟩ := c
  cases status with
  | active =>
    rw [step]
    rcases s.step with ⟨s', fault | _ | _⟩ <;> exact .inl rfl
  | halted => exact .inr rfl
  | faulted fault => exact .inr rfl

variable {P : Core → Prop}

/-- What a step keeps is kept by a run. -/
theorem run_induction (hstep : ∀ c, P c → P c.step.1) {c : Core} (h : P c) (limit : Nat) :
    P (c.run limit).1 := by
  induction limit generalizing c with
  | zero => exact h
  | succ limit ih =>
    have hnext := hstep c h
    rw [run]
    rcases hresult : c.step with ⟨c', fault | _ | _⟩
    · rwa [hresult] at hnext
    · rw [hresult] at hnext
      exact ih hnext
    · rwa [hresult] at hnext

/-- What steps and loads keep holds behind every session. -/
theorem obeyAll_induction (hstep : ∀ c, P c → P c.step.1)
    (hload : ∀ c image, P c → P (c.load image).1) {c : Core} (h : P c) (commands : List Command) :
    P (c.obeyAll commands) := by
  induction commands generalizing c with
  | nil => exact h
  | cons command commands ih =>
    refine ih (c := c.obey command) ?_
    cases command with
    | step => exact hstep c h
    | run limit => exact run_induction hstep h limit
    | load image => exact hload c image h

end Core

end TileCore

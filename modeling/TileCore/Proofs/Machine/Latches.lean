import TileCore.Proofs.Machine.Sessions

/-!
# Two latches

A core keeps in a single value whether it goes on, has met the halt word or has failed. Here it is
kept in two latches, one for the halt word and one for the fault. A step looks at the one and then
at the other and sets at most one of them, and only a start clears them; nothing in the data keeps
them from being set together. Both kinds of core come to the same in every session, so the latches
of a core that was made with clear ones are never both set.

## Main definitions

* `LatchedCore`, with its steps, runs and loads.
* `Core.latched`: the core whose latches say what the value of a core says.

## Main results

* `Core.latched_step`, `Core.latched_run`, `Core.latched_load`: both kinds of core do the same.
* `Core.latched_obeyAll`: so they do in every session.
-/

namespace TileCore

/-- A machine in the course of a run, with a latch for each of its ends. -/
structure LatchedCore where
  /-- The registers and the memory. -/
  machine : Machine
  /-- Where the program and its stack start. -/
  control : Control
  /-- Set by the halt word. -/
  halted : Bool
  /-- The fault that has ended the run. -/
  fault : Option Fault
  /-- The number of instructions executed without a fault. -/
  cycles : Nat
  deriving DecidableEq

namespace LatchedCore

/-- Starts again over the memory as it is, with clear latches. -/
def reset (c : LatchedCore) : LatchedCore :=
  { c with
    machine := ⟨Core.startRegisters c.control, c.machine.memory⟩
    halted := false
    fault := none
    cycles := 0 }

/-- A core with an image in its memory. -/
def ofImage (image : List Byte) (control : Control) (size : Nat) : LatchedCore :=
  reset ⟨⟨Registers.cleared, Memory.ofImage image size⟩, control, false, none, 0⟩

/-- Executes one instruction, unless one of the latches is set. -/
def step (c : LatchedCore) : LatchedCore × Except Fault StepOutcome :=
  if c.halted then (c, .ok .halted)
  else
    match c.fault with
    | some fault => (c, .error fault)
    | none =>
      match c.machine.step with
      | (s, .error fault) => ({ c with machine := s, fault := some fault }, .error fault)
      | (s, .ok outcome) =>
        let c := { c with machine := s, cycles := c.cycles + 1 }
        (if outcome = .halted then { c with halted := true } else c, .ok outcome)

/-- Executes instructions until the program ends or fails, but at most `limit`. -/
def run : (limit : Nat) → LatchedCore → LatchedCore × Except Fault RunOutcome
  | 0, c => (c, .ok (if c.halted then .halted else .limitReached))
  | limit + 1, c =>
    match c.step with
    | (c, .ok .running) => run limit c
    | (c, .ok .halted) => (c, .ok .halted)
    | (c, .error fault) => (c, .error fault)

/-- Loads an image into a cleared memory of the same size and starts again, unless the image is too
large. -/
def load (c : LatchedCore) (image : List Byte) : LatchedCore × Except Fault Unit :=
  match (Memory.zeros c.machine.memory.size).storeBytes 0 image with
  | (m, .ok ()) => (reset { c with machine := ⟨c.machine.registers, m⟩ }, .ok ())
  | (_, .error fault) => (c, .error fault)

/-- The core behind a command. -/
def obey (c : LatchedCore) : Command → LatchedCore
  | .step => c.step.1
  | .run limit => (c.run limit).1
  | .load image => (c.load image).1

/-- The core behind several commands. -/
def obeyAll (c : LatchedCore) (commands : List Command) : LatchedCore := commands.foldl obey c

end LatchedCore

namespace Core

/-- The core whose latches say what the value of a core says. -/
def latched (c : Core) : LatchedCore := ⟨c.machine, c.control, c.isHalted, c.fault?, c.cycles⟩

/-- A core has not both met the halt word and failed. -/
theorem latched_not_both (c : Core) :
    ¬ (c.latched.halted = true ∧ c.latched.fault.isSome = true) := by
  obtain ⟨machine, control, status, cycles⟩ := c
  rintro ⟨hhalted, hfault⟩
  cases status with
  | active => cases hfault
  | halted => cases hfault
  | faulted fault => cases hhalted

theorem latched_ofImage (image : List Byte) (control : Control) (size : Nat) :
    LatchedCore.ofImage image control size = (ofImage image control size).latched :=
  rfl

/-- Both kinds of core make the same step. -/
theorem latched_step (c : Core) : c.latched.step = (c.step.1.latched, c.step.2) := by
  obtain ⟨machine, control, status, cycles⟩ := c
  cases status with
  | active =>
    rcases hstep : machine.step with ⟨s, fault | _ | _⟩ <;>
      simp [latched, LatchedCore.step, isHalted, fault?, step, hstep]
  | halted => rfl
  | faulted fault => rfl

/-- Both kinds of core make the same run. -/
theorem latched_run (limit : Nat) (c : Core) :
    c.latched.run limit = ((c.run limit).1.latched, (c.run limit).2) := by
  induction limit generalizing c with
  | zero => rfl
  | succ limit ih =>
    rw [LatchedCore.run, latched_step, run]
    rcases c.step with ⟨c', fault | _ | _⟩
    · rfl
    · exact ih c'
    · rfl

/-- Both kinds of core load an image in the same way. -/
theorem latched_load (c : Core) (image : List Byte) :
    c.latched.load image = ((c.load image).1.latched, (c.load image).2) := by
  have hmemory : c.latched.machine.memory = c.machine.memory := rfl
  rw [LatchedCore.load, hmemory, load]
  rcases (Memory.zeros c.machine.memory.size).storeBytes 0 image with ⟨m, fault | _⟩ <;> rfl

theorem latched_obey (c : Core) (command : Command) :
    c.latched.obey command = (c.obey command).latched := by
  cases command with
  | step => exact congrArg Prod.fst c.latched_step
  | run limit => exact congrArg Prod.fst (c.latched_run limit)
  | load image => exact congrArg Prod.fst (c.latched_load image)

/-- Both kinds of core come to the same in every session. -/
theorem latched_obeyAll (c : Core) (commands : List Command) :
    c.latched.obeyAll commands = (c.obeyAll commands).latched := by
  induction commands generalizing c with
  | nil => rfl
  | cons command commands ih =>
    have hrest := ih (c.obey command)
    rwa [← latched_obey] at hrest

end Core

end TileCore

import TileCore.Machine.Step

/-!
# Cores

A core is a machine that counts its cycles and knows whether it has come to an end, by the halt
word or by a fault. A core that has come to an end stays there until an image is loaded, which
starts it again from its control values in a cleared memory of the same size.

## Main definitions

* `Core`, with `Core.ofImage`.
* `Core.step`, `Core.run`: one step, and steps up to a limit.
* `Core.load`: a new image.
-/

namespace TileCore

/-- Whether a core goes on. -/
inductive Status
  /-- It has not come to an end. -/
  | active
  /-- It has met the halt word. -/
  | halted
  /-- An instruction has failed. -/
  | faulted (fault : Fault)
  deriving DecidableEq

/-- What a run comes to if no step fails. -/
inductive RunOutcome
  /-- The program has ended. -/
  | halted
  /-- The limit came first. -/
  | limitReached
  deriving DecidableEq

/-- A machine in the course of a run. -/
structure Core where
  /-- The registers and the memory. -/
  machine : Machine
  /-- Where the program and its stack start. -/
  control : Control
  /-- Whether the core goes on. -/
  status : Status
  /-- The number of instructions executed without a fault, the halt word included. -/
  cycles : Nat
  deriving DecidableEq

namespace Core

/-- The registers with which a program starts. -/
def startRegisters (control : Control) : Registers :=
  (Registers.cleared.poke stackRegister control.stack).goto control.start

/-- A core at its start over the given memory. -/
def start (control : Control) (m : Memory) : Core :=
  ⟨⟨startRegisters control, m⟩, control, .active, 0⟩

/-- A core with an image at address zero of a memory of `size` bytes, or as many as the image
has. -/
def ofImage (image : List Byte) (control : Control) (size : Nat) : Core :=
  start control (Memory.ofImage image size)

/-- Whether the core has met the halt word. -/
def isHalted (c : Core) : Bool := c.status = .halted

/-- The fault that has ended the run, if one has. -/
def fault? (c : Core) : Option Fault :=
  match c.status with
  | .faulted fault => some fault
  | _ => none

/-- Executes one instruction, unless the core has come to an end. -/
def step : Core → Core × Except Fault StepOutcome
  | ⟨machine, control, .halted, cycles⟩ => (⟨machine, control, .halted, cycles⟩, .ok .halted)
  | ⟨machine, control, .faulted fault, cycles⟩ =>
    (⟨machine, control, .faulted fault, cycles⟩, .error fault)
  | ⟨machine, control, .active, cycles⟩ =>
    match machine.step with
    | (machine, .ok .running) => (⟨machine, control, .active, cycles + 1⟩, .ok .running)
    | (machine, .ok .halted) => (⟨machine, control, .halted, cycles + 1⟩, .ok .halted)
    | (machine, .error fault) => (⟨machine, control, .faulted fault, cycles⟩, .error fault)

/-- Executes instructions until the program ends or fails, but at most `limit`. -/
def run : (limit : Nat) → Core → Core × Except Fault RunOutcome
  | 0, c => (c, .ok (if c.isHalted then .halted else .limitReached))
  | limit + 1, c =>
    match c.step with
    | (c, .ok .running) => run limit c
    | (c, .ok .halted) => (c, .ok .halted)
    | (c, .error fault) => (c, .error fault)

/-- Loads an image at address zero of a cleared memory of the same size and starts again. An image
that is too large leaves the core as it is. -/
def load (c : Core) (image : List Byte) : Core × Except Fault Unit :=
  match (Memory.zeros c.machine.memory.size).storeBytes 0 image with
  | (m, .ok ()) => (start c.control m, .ok ())
  | (_, .error fault) => (c, .error fault)

end Core

end TileCore

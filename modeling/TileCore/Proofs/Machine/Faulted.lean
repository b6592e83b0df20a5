import TileCore.Machine.Core

/-!
# Cores that have failed

A core that has met a fault keeps it until an image is loaded. Whatever is done to its registers and
to its memory from outside, and however often it is told to go on, a step and a run give the same
fault again and change nothing. The exception is a run that may not take a single step: it never
asks for the fault, and says that its limit is reached.

## Main definitions

* `Request`, `Core.serve`: what can be done to a core between two loads.

## Main results

* `fault_repeats`: what a core that has failed answers to steps and runs.
* `run_zero_hides_fault`: a core that has failed and a run that does not say so.
-/

namespace TileCore

/-- What can be done to a core between two loads. -/
inductive Request
  /-- One step. -/
  | step
  /-- A run up to a limit. -/
  | run (limit : Nat)
  /-- Other registers and another memory, set from outside. -/
  | edit (machine : Machine)

namespace Core

/-- The core behind a request. -/
def serve (c : Core) : Request → Core
  | .step => c.step.1
  | .run limit => (c.run limit).1
  | .edit machine => { c with machine := machine }

/-- The core behind several requests. -/
def serveAll (c : Core) (requests : List Request) : Core := requests.foldl serve c

variable {c : Core} {fault : Fault}

theorem fault?_eq_some_iff : c.fault? = some fault ↔ c.status = .faulted fault := by
  rw [fault?]
  cases c.status <;> simp

theorem step_of_fault (h : c.fault? = some fault) : c.step = (c, .error fault) := by
  obtain ⟨machine, control, status, cycles⟩ := c
  cases fault?_eq_some_iff.mp h
  rfl

theorem run_zero_of_fault (h : c.fault? = some fault) : c.run 0 = (c, .ok .limitReached) := by
  rw [run, isHalted, fault?_eq_some_iff.mp h]
  rfl

theorem run_of_fault (h : c.fault? = some fault) {n : Nat} (hn : n ≠ 0) :
    c.run n = (c, .error fault) := by
  cases n with
  | zero => exact absurd rfl hn
  | succ n => rw [run, step_of_fault h]

/-- No request clears a fault, and none is counted. -/
theorem fault?_serve (h : c.fault? = some fault) (request : Request) :
    (c.serve request).fault? = some fault ∧ (c.serve request).cycles = c.cycles := by
  cases request with
  | step =>
    rw [serve, step_of_fault h]
    exact ⟨h, rfl⟩
  | run limit =>
    rw [serve]
    by_cases hlimit : limit = 0
    · rw [hlimit, run_zero_of_fault h]
      exact ⟨h, rfl⟩
    · rw [run_of_fault h hlimit]
      exact ⟨h, rfl⟩
  | edit machine => exact ⟨h, rfl⟩

theorem fault?_serveAll (h : c.fault? = some fault) (requests : List Request) :
    (c.serveAll requests).fault? = some fault ∧ (c.serveAll requests).cycles = c.cycles := by
  induction requests generalizing c with
  | nil => exact ⟨h, rfl⟩
  | cons request requests ih =>
    obtain ⟨hfault, hcycles⟩ := fault?_serve h request
    obtain ⟨hrest, hrest'⟩ := ih hfault
    exact ⟨hrest, hrest'.trans hcycles⟩

end Core

/-- Whatever has been requested of a core that has failed, short of a load, a step and a run of at
least one step give its fault again and leave everything as it is. A run of no steps leaves
everything as it is too, but says that its limit is reached. -/
theorem fault_repeats {c : Core} {fault : Fault} (h : c.fault? = some fault)
    (requests : List Request) :
    (c.serveAll requests).fault? = some fault ∧ (c.serveAll requests).cycles = c.cycles ∧
      (c.serveAll requests).step = (c.serveAll requests, .error fault) ∧
      (∀ n, n ≠ 0 → (c.serveAll requests).run n = (c.serveAll requests, .error fault)) ∧
      (c.serveAll requests).run 0 = (c.serveAll requests, .ok .limitReached) := by
  obtain ⟨hfault, hcycles⟩ := Core.fault?_serveAll h requests
  exact ⟨hfault, hcycles, Core.step_of_fault hfault, fun _ hn => Core.run_of_fault hfault hn,
    Core.run_zero_of_fault hfault⟩

/-- A core that has failed at the load of a word from address two. -/
def failedLoad : Core :=
  ((Core.ofImage (Word.toBytes 0x00202083) Control.default 8).run 10).1

theorem fault_repeats_of_failed_load :
    failedLoad.fault? = some (.misaligned 2) ∧
      failedLoad.serveAll [.run 0, .edit ⟨Registers.cleared, Memory.zeros 4⟩, .step] =
        { failedLoad with machine := ⟨Registers.cleared, Memory.zeros 4⟩ } ∧
      Core.run 7 { failedLoad with machine := ⟨Registers.cleared, Memory.zeros 4⟩ } =
        ({ failedLoad with machine := ⟨Registers.cleared, Memory.zeros 4⟩ },
          .error (.misaligned 2)) := by
  have hfault : failedLoad.fault? = some (.misaligned 2) := by rfl
  have hserve : failedLoad.serveAll [.run 0, .edit ⟨Registers.cleared, Memory.zeros 4⟩, .step] =
      { failedLoad with machine := ⟨Registers.cleared, Memory.zeros 4⟩ } := by rfl
  obtain ⟨-, -, -, hrun, -⟩ := fault_repeats hfault
    [.run 0, .edit ⟨Registers.cleared, Memory.zeros 4⟩, .step]
  rw [hserve] at hrun
  exact ⟨hfault, hserve, hrun 7 (by decide)⟩

/-- The same core answers a run of no steps as if nothing had happened. -/
theorem run_zero_hides_fault :
    failedLoad.fault? = some (.misaligned 2) ∧
      failedLoad.run 0 = (failedLoad, .ok .limitReached) ∧
      (failedLoad.run 0).2 ≠ .error (.misaligned 2) :=
  ⟨rfl, rfl, nofun⟩

end TileCore

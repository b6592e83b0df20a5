import TileCore.Proofs.Machine.Budgets
import TileCore.Proofs.Machine.Failures
import TileCore.Proofs.Machine.Latches

/-!
# What a session leaves

However a core is stepped, run and loaded, it can be said where it has come from. Since its last
start, that is since it was made or since the last load that succeeded, it has made as many steps as
it has counted, and they have all kept running. Only the ends differ. A core that has met the halt
word has counted this step as well, and still stands on the halt word; a core that has failed has
made one more step, which it has not counted. A load that fails is not a start.

## Main definitions

* `Core.HasComeFrom`: how a core has come from a machine.
* `Core.lastStart`: the machine of the last start in a session.

## Main results

* `Core.HasComeFrom.obeyAll`: a core has come from its last start in every session.
* `Core.obeyAll_of_isHalted`: only a load wakes a core that has met the halt word.
* `lifecycle_of_session`: what can be said of a core behind any session.
-/

namespace TileCore

/-! ### Steps of a machine -/

namespace Machine

/-- No step changes the size of the memory. -/
theorem size_memory_step (s : Machine) : s.step.1.memory.size = s.memory.size := by
  rcases hstep : s.step with ⟨s', fault | _ | _⟩
  · exact size_memory_of_failed_step hstep
  · obtain ⟨-, hsame⟩ | ⟨words, -, hstore, -⟩ := step_eq_running hstep
    · exact congrArg Memory.size hsame
    · exact Memory.size_of_storeWords hstore
  · rw [(step_eq_halted_iff.mp hstep).1]

/-- Steps that keep running go on behind others that do. -/
theorem after_add (n k : Nat) (s : Machine) : after (n + k) s = (after n s).bind (after k) := by
  induction n generalizing s with
  | zero =>
    rw [Nat.zero_add]
    rfl
  | succ n ih =>
    rw [Nat.add_right_comm, after, after]
    rcases s.step with ⟨s', fault | _ | _⟩
    · rfl
    · exact ih s'
    · rfl

/-- One more step that keeps running. -/
theorem after_succ_of_after {origin s s' : Machine} {n : Nat} (h : after n origin = some s)
    (hstep : s.step = (s', .ok .running)) : after (n + 1) origin = some s' := by
  rw [after_add, h, Option.bind_some, after_succ 0 hstep, after]

end Machine

namespace Core

/-! ### Where a core has come from -/

/-- How a core has come from a machine. -/
inductive HasComeFrom (origin : Machine) : Core → Prop
  /-- A core that goes on has counted its steps. -/
  | active {s : Machine} {control : Control} {cycles : Nat}
      (hafter : Machine.after cycles origin = some s) :
      HasComeFrom origin ⟨s, control, .active, cycles⟩
  /-- A core that has met the halt word has counted it as well. -/
  | halted {s : Machine} {control : Control} {cycles : Nat}
      (hafter : Machine.after cycles origin = some s) (hstep : s.step = (s, .ok .halted)) :
      HasComeFrom origin ⟨s, control, .halted, cycles + 1⟩
  /-- A core that has failed has not counted the step that failed. -/
  | faulted {s s' : Machine} {control : Control} {cycles : Nat} {fault : Fault}
      (hafter : Machine.after cycles origin = some s) (hstep : s.step = (s', .error fault)) :
      HasComeFrom origin ⟨s', control, .faulted fault, cycles⟩

theorem hasComeFrom_start (control : Control) (m : Memory) :
    (start control m).HasComeFrom (start control m).machine :=
  .active rfl

variable {c : Core} {origin : Machine}

theorem HasComeFrom.step (h : c.HasComeFrom origin) : c.step.1.HasComeFrom origin := by
  cases h with
  | @active s control cycles hafter =>
    rcases hstep : s.step with ⟨s', fault | _ | _⟩
    · rw [Core.step, hstep]
      exact .faulted hafter hstep
    · rw [Core.step, hstep]
      exact .active (Machine.after_succ_of_after hafter hstep)
    · obtain ⟨rfl, -⟩ := Machine.step_eq_halted_iff.mp hstep
      rw [Core.step, hstep]
      exact .halted hafter hstep
  | halted hafter hstep => exact .halted hafter hstep
  | faulted hafter hstep => exact .faulted hafter hstep

/-- The machine of the last start behind a command: a load that succeeds is a new start. -/
def startBehind (c : Core) (origin : Machine) : Command → Machine
  | .load image =>
    match c.load image with
    | (c, .ok ()) => c.machine
    | (_, .error _) => origin
  | _ => origin

/-- The machine of the last start in a session, for a core that has come from `origin`. -/
def lastStart (c : Core) (origin : Machine) : List Command → Machine
  | [] => origin
  | command :: commands => (c.obey command).lastStart (c.startBehind origin command) commands

/-- A load that succeeds starts again over a memory of the same size. Any other one leaves the core
as it is. -/
theorem load_cases (c : Core) (image : List Byte) :
    (∃ m, m.size = c.machine.memory.size ∧ c.load image = (start c.control m, .ok ())) ∨
      ∃ fault, c.load image = (c, .error fault) := by
  have hsize := Memory.size_storeBytes (Memory.zeros c.machine.memory.size) 0 image
  rw [load]
  rcases hstore : (Memory.zeros c.machine.memory.size).storeBytes 0 image with ⟨m, fault | _⟩
  · exact .inr ⟨fault, rfl⟩
  · rw [hstore, Memory.size_zeros] at hsize
    exact .inl ⟨m, hsize, rfl⟩

theorem HasComeFrom.load (h : c.HasComeFrom origin) (image : List Byte) :
    (c.load image).1.HasComeFrom (c.startBehind origin (.load image)) := by
  rw [startBehind]
  obtain ⟨m, -, hload⟩ | ⟨fault, hload⟩ := c.load_cases image
  · rw [hload]
    exact hasComeFrom_start c.control m
  · rw [hload]
    exact h

theorem HasComeFrom.obey (h : c.HasComeFrom origin) (command : Command) :
    (c.obey command).HasComeFrom (c.startBehind origin command) := by
  cases command with
  | step => exact h.step
  | run limit => exact run_induction (fun _ => HasComeFrom.step) h limit
  | load image => exact h.load image

/-- A core has come from its last start in every session. -/
theorem HasComeFrom.obeyAll (h : c.HasComeFrom origin) (commands : List Command) :
    (c.obeyAll commands).HasComeFrom (c.lastStart origin commands) := by
  induction commands generalizing c origin with
  | nil => exact h
  | cons command commands ih => exact ih (h.obey command)

/-- A core that has met the halt word stands on it. -/
theorem HasComeFrom.loadWord_of_isHalted (h : c.HasComeFrom origin) (hhalted : c.isHalted = true) :
    c.machine.memory.loadWord c.machine.registers.pc = .ok haltWord := by
  cases h with
  | active => cases hhalted
  | halted hafter hstep => exact (Machine.step_eq_halted_iff.mp hstep).2
  | faulted => cases hhalted

/-- A core that goes on is the last start behind as many steps as it has counted. -/
theorem HasComeFrom.after_of_active (h : c.HasComeFrom origin) (hhalted : c.isHalted = false)
    (hfault : c.fault? = none) : Machine.after c.cycles origin = some c.machine := by
  cases h with
  | active hafter => exact hafter
  | halted => cases hhalted
  | faulted => cases hfault

/-! ### What no session changes -/

theorem size_memory_step (c : Core) :
    c.step.1.machine.memory.size = c.machine.memory.size := by
  rcases c.machine_step with hstep | hstep
  · rw [hstep, Machine.size_memory_step]
  · rw [hstep]

theorem control_step (c : Core) : c.step.1.control = c.control := by
  obtain ⟨s, control, status, cycles⟩ := c
  cases status with
  | active =>
    rw [step]
    rcases s.step with ⟨s', fault | _ | _⟩ <;> rfl
  | halted => rfl
  | faulted fault => rfl

/-- No session changes the size of the memory or the control values. -/
theorem size_and_control_obeyAll (c : Core) (commands : List Command) :
    (c.obeyAll commands).machine.memory.size = c.machine.memory.size ∧
      (c.obeyAll commands).control = c.control := by
  refine obeyAll_induction (P := fun c' =>
    c'.machine.memory.size = c.machine.memory.size ∧ c'.control = c.control)
    (fun c' h => ?_) (fun c' image h => ?_) ⟨rfl, rfl⟩ commands
  · rwa [size_memory_step, control_step]
  · obtain ⟨m, hsize, hload⟩ | ⟨fault, hload⟩ := c'.load_cases image
    · rw [hload]
      exact ⟨hsize.trans h.1, h.2⟩
    · rwa [hload]

/-! ### Behind the halt word -/

theorem obey_of_isHalted (h : c.isHalted = true) {command : Command}
    (hload : ∀ image, command ≠ .load image) : c.obey command = c := by
  cases command with
  | step => rw [obey, step_of_isHalted h]
  | run limit => rw [obey, run_of_isHalted h]
  | load image => exact absurd rfl (hload image)

/-- Only a load wakes a core that has met the halt word. -/
theorem obeyAll_of_isHalted (h : c.isHalted = true) {commands : List Command}
    (hload : ∀ image, Command.load image ∉ commands) : c.obeyAll commands = c := by
  induction commands with
  | nil => rfl
  | cons command commands ih =>
    have hfirst : c.obey command = c :=
      obey_of_isHalted h fun image himage => hload image (himage ▸ List.mem_cons_self)
    rw [obeyAll, List.foldl_cons, hfirst]
    exact ih fun image hmem => hload image (List.mem_cons_of_mem command hmem)

end Core

/-- Behind every session of a core that was made with an image in its memory, the memory has its
size and the core its control values. With a latch for the halt word and one for the fault it comes
to the same, and they are not both set. A core that has met the halt word stands on it, and until a
load every step and every run, also one without a step, says so and changes nothing. A core that has
neither met the halt word nor failed is the one at its last start behind as many steps as it has
counted. -/
theorem lifecycle_of_session (image : List Byte) (control : Control) (size : Nat)
    (commands : List Command) (c : Core)
    (hc : (Core.ofImage image control size).obeyAll commands = c) :
    c.machine.memory.size = max size image.length ∧ c.control = control ∧
    (LatchedCore.ofImage image control size).obeyAll commands = c.latched ∧
    ¬ (c.latched.halted = true ∧ c.latched.fault.isSome = true) ∧
    (c.isHalted = true →
      c.machine.memory.loadWord c.machine.registers.pc = .ok haltWord ∧
      ∀ later, (∀ image, Command.load image ∉ later) →
        c.obeyAll later = c ∧ (c.obeyAll later).step = (c, .ok .halted) ∧
          ∀ n, (c.obeyAll later).run n = (c, .ok .halted)) ∧
    (c.isHalted = false → c.fault? = none →
      Machine.after c.cycles ((Core.ofImage image control size).lastStart
        (Core.ofImage image control size).machine commands) = some c.machine) := by
  subst hc
  have hcome := (Core.hasComeFrom_start control (Memory.ofImage image size)).obeyAll commands
  obtain ⟨hsize, hcontrol⟩ := (Core.ofImage image control size).size_and_control_obeyAll commands
  refine ⟨?_, hcontrol, ?_, Core.latched_not_both _,
    fun hhalted => ⟨hcome.loadWord_of_isHalted hhalted, fun later hload => ?_⟩,
    hcome.after_of_active⟩
  · rw [hsize]
    exact Memory.size_ofImage image size
  · rw [Core.latched_ofImage, Core.latched_obeyAll]
  · rw [Core.obeyAll_of_isHalted hhalted hload]
    exact ⟨rfl, Core.step_of_isHalted hhalted, Core.run_of_isHalted hhalted⟩

/-- A core that counts to one and halts is told to load an image that is too large, once when it has
halted and once when it has made the first step of the image that it has been given instead. -/
theorem lifecycle_of_session_with_failed_loads :
    ((countingCore haltWord).obeyAll [.run 7, .load (List.replicate 9 0)]).isHalted = true ∧
      ((countingCore haltWord).obeyAll [.run 7, .load (List.replicate 9 0)]).run 0 =
        ((countingCore haltWord).obeyAll [.run 7, .load (List.replicate 9 0)], .ok .halted) ∧
      ((countingCore haltWord).obeyAll [.run 7, .load (Word.toBytes 0x00100093), .step,
        .load (List.replicate 9 0)]).cycles = 1 ∧
      Machine.after 1 (Core.ofImage (Word.toBytes 0x00100093) Control.default 8).machine =
        some ((countingCore haltWord).obeyAll [.run 7, .load (Word.toBytes 0x00100093), .step,
          .load (List.replicate 9 0)]).machine := by
  have hhalted :
      ((countingCore haltWord).obeyAll [.run 7, .load (List.replicate 9 0)]).isHalted = true := by
    rfl
  have hstart : (countingCore haltWord).lastStart (countingCore haltWord).machine
      [.run 7, .load (Word.toBytes 0x00100093), .step, .load (List.replicate 9 0)] =
        (Core.ofImage (Word.toBytes 0x00100093) Control.default 8).machine := by rfl
  obtain ⟨-, -, -, -, hends, -⟩ := lifecycle_of_session
    (Word.toBytes 0x00100093 ++ Word.toBytes haltWord) Control.default 0
    [.run 7, .load (List.replicate 9 0)] _ rfl
  obtain ⟨-, -, -, -, -, hgoes⟩ := lifecycle_of_session
    (Word.toBytes 0x00100093 ++ Word.toBytes haltWord) Control.default 0
    [.run 7, .load (Word.toBytes 0x00100093), .step, .load (List.replicate 9 0)] _ rfl
  refine ⟨hhalted, ((hends hhalted).2 [] nofun).2.2 0, rfl, ?_⟩
  rw [← hstart]
  exact hgoes rfl rfl

end TileCore

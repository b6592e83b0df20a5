import TileCore.Proofs.Machine.TileTransfers
import TileCore.Proofs.Machine.ZeroRegister

/-!
# A larger memory

A program can tell the size of its memory only by an access that fails. Every access is decided by
its alignment and by the end of the memory, so an access that succeeds does so in a larger memory as
well; it finds the same word there, or puts the word in the same place, in front of everything that
has been added. So as long as nothing fails, putting bytes behind the memory and then making steps
is the same as making the steps first.

## Main definitions

* `Memory.append`, `Machine.append`, `Core.append`: more bytes behind the memory.

## Main results

* `Memory.loadWord_append`, `Memory.storeWord_append`: the accesses that succeed.
* `Instruction.effect_append`: an instruction that does not fail asks for the same.
* `Machine.step_append`, `Machine.steps_append`, `Core.run_append`: steps and runs come to the same.
* `larger_memory_runs_alike`: a run without a fault does not depend on the size of the memory.
-/

namespace TileCore

/-! ### Accesses -/

namespace Memory

variable {m m' : Memory} {addr w : Word} (rest : List Byte)

/-- The memory with more bytes behind its end. -/
def append (m : Memory) (rest : List Byte) : Memory := ⟨m.bytes ++ rest.toArray⟩

theorem size_append (m : Memory) : (m.append rest).size = m.size + rest.length := by
  simp [append, size]

theorem byte_append {a : Nat} (h : a < m.size) : (m.append rest).byte a = m.byte a := by
  rw [size] at h
  simp only [byte, append, Array.getD_eq_getD_getElem?, Array.getElem?_append_left h]

theorem word_append {a : Nat} (h : a + 4 ≤ m.size) : (m.append rest).word a = m.word a := by
  rw [word, byte_append rest (by omega), byte_append rest (by omega), byte_append rest (by omega),
    byte_append rest (by omega), word]

theorem setByte_append {a : Nat} (h : a < m.size) (b : Byte) :
    (m.append rest).setByte a b = (m.setByte a b).append rest := by
  rw [size] at h
  simp only [setByte, append, Array.setIfInBounds_append_left h]

theorem setWord_append {a : Nat} (h : a + 4 ≤ m.size) (w : Word) :
    (m.append rest).setWord a w = (m.setWord a w).append rest := by
  rw [setWord, setByte_append rest (by omega), setByte_append rest (by rw [size_setByte]; omega),
    setByte_append rest (by rw [size_setByte, size_setByte]; omega),
    setByte_append rest (by rw [size_setByte, size_setByte, size_setByte]; omega), setWord]

theorem checkWord_append (h : m.checkWord addr = .ok ()) :
    (m.append rest).checkWord addr = .ok () := by
  rw [checkWord_eq_ok_iff] at h ⊢
  rw [size_append]
  exact ⟨h.1, by omega⟩

/-- A word that is loaded is loaded from a larger memory. -/
theorem loadWord_append (h : m.loadWord addr = .ok w) : (m.append rest).loadWord addr = .ok w := by
  obtain ⟨hcheck, rfl⟩ := loadWord_eq_ok_iff.mp h
  refine loadWord_eq_ok_iff.mpr ⟨checkWord_append rest hcheck, ?_⟩
  exact word_append rest (checkWord_eq_ok_iff.mp hcheck).2

/-- A word that is stored is stored in a larger memory, in front of what has been added. -/
theorem storeWord_append (h : m.storeWord addr w = (m', .ok ())) :
    (m.append rest).storeWord addr w = (m'.append rest, .ok ()) := by
  obtain ⟨hcheck, rfl⟩ := storeWord_eq_ok_iff.mp h
  refine storeWord_eq_ok_iff.mpr ⟨checkWord_append rest hcheck, ?_⟩
  exact (setWord_append rest (checkWord_eq_ok_iff.mp hcheck).2 w).symm

theorem storeWords_append {writes : List (Word × Word)} (h : m.storeWords writes = (m', .ok ())) :
    (m.append rest).storeWords writes = (m'.append rest, .ok ()) := by
  induction writes generalizing m with
  | nil =>
    cases h
    rfl
  | cons write writes ih =>
    obtain ⟨m₁, hstore, hrest⟩ := storeWords_cons_eq_ok_iff.mp h
    exact storeWords_cons_eq_ok_iff.mpr ⟨_, storeWord_append rest hstore, ih hrest⟩

end Memory

theorem loadTile_append {m : Memory} {base pitch : Word} {t : Tile} (rest : List Byte)
    (h : loadTile m base pitch = .ok t) : loadTile (m.append rest) base pitch = .ok t :=
  loadTile_eq_ok_iff.mpr fun row part =>
    Memory.loadWord_append rest (loadTile_eq_ok_iff.mp h row part)

/-! ### Instructions and steps -/

/-- An instruction that does not fail asks for the same in a larger memory. -/
theorem Instruction.effect_append {i : Instruction} {r : Registers} {m : Memory} {e : Effect}
    (rest : List Byte) (h : i.effect r m = .ok e) : i.effect r (m.append rest) = .ok e := by
  cases i with
  | load rd rs1 imm =>
    simp only [effect, Except.bind_eq_ok_iff] at h
    obtain ⟨base, hbase, w, hw, h⟩ := h
    simp only [effect, hbase, Memory.loadWord_append rest hw, Except.ok_bind, Except.bind_eq_ok_iff]
    exact h
  | tileLoad rd rs1 stride imm =>
    simp only [effect, Except.bind_eq_ok_iff] at h
    obtain ⟨base, hbase, pitch, hpitch, t, ht, h⟩ := h
    simp only [effect, hbase, hpitch, loadTile_append rest ht, Except.ok_bind,
      Except.bind_eq_ok_iff]
    exact h
  | _ => exact h

namespace Machine

/-- The machine with more bytes behind its memory. -/
def append (s : Machine) (rest : List Byte) : Machine := ⟨s.registers, s.memory.append rest⟩

variable (rest : List Byte)

theorem nextEffect_append {r : Registers} {m : Memory} {e : Effect} (h : nextEffect r m = .ok e) :
    nextEffect r (m.append rest) = .ok e := by
  obtain ⟨i, hfetch, heffect⟩ := nextEffect_eq_ok_iff.mp h
  obtain ⟨w, hload, hdecode⟩ := fetch_eq_ok_iff.mp hfetch
  have hfetch' : fetch r (m.append rest) = .ok i :=
    fetch_eq_ok_iff.mpr ⟨w, Memory.loadWord_append rest hload, hdecode⟩
  exact nextEffect_eq_ok_iff.mpr ⟨i, hfetch', Instruction.effect_append rest heffect⟩

/-- A step that does not fail comes to the same with a larger memory and changes nothing in what has
been added. -/
theorem step_append {s s' : Machine} {outcome : StepOutcome} (h : s.step = (s', .ok outcome)) :
    (s.append rest).step = (s'.append rest, .ok outcome) := by
  rw [step_eq_carryOut] at h ⊢
  cases heffect : nextEffect s.registers s.memory with
  | error fault =>
    rw [heffect] at h
    cases h
  | ok e =>
    have heffect' : nextEffect (s.append rest).registers (s.append rest).memory = .ok e :=
      nextEffect_append rest heffect
    rw [heffect] at h
    rw [heffect']
    cases e with
    | halt =>
      cases h
      rfl
    | update r =>
      cases h
      rfl
    | write words =>
      rw [carryOut] at h ⊢
      rcases hstore : s.memory.storeWords words with ⟨m, fault | _⟩
      · rw [hstore] at h
        cases h
      · rw [hstore] at h
        cases h
        have hstore' : (s.append rest).memory.storeWords words = (m.append rest, .ok ()) :=
          Memory.storeWords_append rest hstore
        rw [hstore']
        rfl

/-- The same holds of a row of steps none of which fails. -/
theorem steps_append {n : Nat} {s : Machine}
    (h : ∀ result ∈ (s.steps n).2, ∃ outcome, result = .ok outcome) :
    (s.append rest).steps n = ((s.steps n).1.append rest, (s.steps n).2) := by
  induction n generalizing s with
  | zero => rfl
  | succ n ih =>
    obtain ⟨⟨outcome, hfirst⟩, hothers⟩ := List.forall_mem_cons.mp h
    have hstep := step_append rest (s := s) (Prod.ext rfl hfirst)
    rw [steps, hstep, ih hothers, steps, hfirst]

end Machine

namespace Core

/-- The core with more bytes behind its memory. -/
def append (c : Core) (rest : List Byte) : Core := { c with machine := c.machine.append rest }

variable {c c' : Core} (rest : List Byte)

theorem step_append {outcome : StepOutcome} (h : c.step = (c', .ok outcome)) :
    (c.append rest).step = (c'.append rest, .ok outcome) := by
  obtain ⟨s, control, status, cycles⟩ := c
  cases status with
  | active =>
    rw [step] at h
    rcases hstep : s.step with ⟨s', fault | _ | _⟩
    · rw [hstep] at h
      cases h
    · rw [hstep] at h
      cases h
      rw [append, step, Machine.step_append rest hstep]
      rfl
    · rw [hstep] at h
      cases h
      rw [append, step, Machine.step_append rest hstep]
      rfl
  | halted =>
    cases h
    rfl
  | faulted fault => cases h

/-- A run that does not fail comes to the same with a larger memory. -/
theorem run_append {n : Nat} {outcome : RunOutcome} (h : c.run n = (c', .ok outcome)) :
    (c.append rest).run n = (c'.append rest, .ok outcome) := by
  induction n generalizing c with
  | zero =>
    cases h
    rfl
  | succ n ih =>
    rw [run] at h
    rcases hstep : c.step with ⟨c₁, fault | _ | _⟩
    · rw [hstep] at h
      cases h
    · rw [hstep] at h
      rw [run, step_append rest hstep]
      exact ih h
    · rw [hstep] at h
      cases h
      rw [run, step_append rest hstep]

end Core

/-- If none of any number of steps fails, the same steps with more bytes behind the memory come to
the same, one after the other, with the same registers, and the memory is what it was without these
bytes, followed by the bytes as they were. The same holds of every run of a core that does not fail,
and of what the core counts. -/
theorem larger_memory_runs_alike (rest : List Byte) :
    (∀ (s : Machine) (n : Nat),
      (∀ result ∈ (s.steps n).2, ∃ outcome, result = .ok outcome) →
        ((s.append rest).steps n).2 = (s.steps n).2 ∧
        ((s.append rest).steps n).1.registers = (s.steps n).1.registers ∧
        ((s.append rest).steps n).1.memory.bytes.toList =
          (s.steps n).1.memory.bytes.toList ++ rest) ∧
    ∀ (c c' : Core) (n : Nat) (outcome : RunOutcome), c.run n = (c', .ok outcome) →
      (c.append rest).run n = (c'.append rest, .ok outcome) := by
  refine ⟨fun s n h => ?_, fun c c' n outcome h => Core.run_append rest h⟩
  rw [Machine.steps_append rest h]
  refine ⟨rfl, rfl, ?_⟩
  simp [Machine.append, Memory.append]

/-- A machine that stores a tile right up to the end of its memory and then meets the halt word. -/
def fullTileStore : Machine where
  registers :=
    { Registers.cleared with tiles := Registers.cleared.tiles.setIfInBounds 1 Tile.identity }
  memory := Memory.ofImage (Word.toBytes 0x10000857 ++ Word.toBytes haltWord) 48

theorem larger_memory_runs_alike_of_full_tile_store :
    (fullTileStore.steps 3).2 = [.ok .running, .ok .halted, .ok .halted] ∧
      ((fullTileStore.append [1, 2, 3]).steps 3).2 = [.ok .running, .ok .halted, .ok .halted] ∧
      ((fullTileStore.append [1, 2, 3]).steps 3).1.memory.bytes.toList =
        (fullTileStore.steps 3).1.memory.bytes.toList ++ [1, 2, 3] ∧
      (Core.append ⟨fullTileStore, Control.default, .active, 0⟩ [1, 2, 3]).run 5 =
        (Core.append ⟨(fullTileStore.steps 1).1, Control.default, .halted, 2⟩ [1, 2, 3],
          .ok .halted) := by
  have hsteps : (fullTileStore.steps 3).2 = [.ok .running, .ok .halted, .ok .halted] := by rfl
  have hnone : ∀ result ∈ (fullTileStore.steps 3).2, ∃ outcome, result = .ok outcome := by
    rw [hsteps]
    simp
  have hrun : Core.run 5 ⟨fullTileStore, Control.default, .active, 0⟩ =
      (⟨(fullTileStore.steps 1).1, Control.default, .halted, 2⟩, .ok .halted) := by rfl
  obtain ⟨halike, hrunalike⟩ := larger_memory_runs_alike [1, 2, 3]
  obtain ⟨hresults, -, hmemory⟩ := halike fullTileStore 3 hnone
  exact ⟨hsteps, hresults.trans hsteps, hmemory, hrunalike _ _ 5 .halted hrun⟩

end TileCore

import TileCore.Machine.Step
import TileCore.Proofs.Codec.Range

/-!
# Steps over a known word

What a machine does at an instruction whose word is in memory, for the instructions that give new
registers. A branch or jump that is taken goes to the sum of its address and its offset. Loading an
upper immediate and adding an immediate change one register, and both in a row put any word
together.

## Main definitions

* `Memory.Holds`: the words of some code are loaded from their addresses.
* `Machine.after`: the machine after some steps.
* `Registers.put`, `Registers.value`: what a scalar register is given and what it reads as.
* `Instruction.jumpOffset?`, `Instruction.Jumps`: the offset of a branch or jump and whether it is
  taken.

## Main results

* `Machine.step_of_update`: a step at an instruction that gives new registers.
* `Machine.step_of_jumps`: a step at a branch or jump that is taken.
* `Machine.step_of_branch`, `Machine.step_of_jal`, `Machine.step_of_jalr`: the whole of such steps.
* `Machine.after_one_of_addi`, `Machine.after_two_of_lui_addi`: the steps that put a word into a
  register.
-/

namespace TileCore

/-- The words of some code are loaded from their addresses, from zero on. -/
def Memory.Holds (m : Memory) (code : List Word) : Prop :=
  ∀ k w, code[k]? = some w → m.loadWord (BitVec.ofNat 32 (4 * k)) = .ok w

theorem Memory.holds_iff {m : Memory} {code : List Word} :
    m.Holds code ↔
      ∀ k (h : k < code.length), m.loadWord (BitVec.ofNat 32 (4 * k)) = .ok code[k] := by
  constructor
  · intro hm k h
    exact hm k _ (List.getElem?_eq_getElem h)
  · intro hm k w hw
    obtain ⟨h, rfl⟩ := List.getElem?_eq_some_iff.mp hw
    exact hm k h

/-- The machine after `n` steps, if none of them fails or ends the program. -/
def Machine.after : (n : Nat) → Machine → Option Machine
  | 0, s => some s
  | n + 1, s =>
    match s.step with
    | (s, .ok .running) => after n s
    | _ => none

theorem Machine.after_succ {s s' : Machine} (n : Nat) (h : s.step = (s', .ok .running)) :
    Machine.after (n + 1) s = Machine.after n s' := by
  rw [after, h]

/-- In front of a word the machine does what its instruction asks for. -/
theorem Machine.nextEffect_of_loadWord {r : Registers} {m : Memory} {w : Word} {i : Instruction}
    (hload : m.loadWord r.pc = .ok w) (hdecode : decode w = .ok i) :
    nextEffect r m = i.effect r m := by
  have hfetch : fetch r m = .ok i := by
    rw [fetch, hload, Except.ok_bind, hdecode]
    rfl
  rw [nextEffect, hfetch, Except.ok_bind]

/-- A step at an instruction that gives new registers. -/
theorem Machine.step_of_update {r r' : Registers} {m : Memory} {w : Word} {i : Instruction}
    (hload : m.loadWord r.pc = .ok w) (hdecode : decode w = .ok i)
    (heffect : i.effect r m = .ok (.update r')) :
    Machine.step ⟨r, m⟩ = (⟨r', m⟩, .ok .running) := by
  rw [step, nextEffect_of_loadWord hload hdecode, heffect]

/-! ### Values of registers -/

/-- Gives a scalar register a value, unless it is register zero. -/
def Registers.put (r : Registers) (i : Nat) (v : Word) : Registers :=
  if i = 0 then r else r.poke i v

theorem Registers.write_of_lt {i : Nat} (h : i < scalarCount) (r : Registers) (v : Word) :
    r.write i v = .ok (r.put i v) := by
  rw [write, if_pos h]
  rfl

namespace Registers

variable {i j : Nat}

/-- What a scalar register reads as; zero if there is no such register. -/
def value (r : Registers) (i : Nat) : Word := (r.read i).toOption.getD 0

theorem read_eq_value (h : i < scalarCount) (r : Registers) : r.read i = .ok (r.value i) := by
  rw [value, read]
  split_ifs <;> rfl

theorem value_of_read {r : Registers} {v : Word} (h : r.read i = .ok v) : r.value i = v := by
  rw [value, h]
  rfl

theorem read_poke_self (hlt : i < scalarCount) (hne : i ≠ 0) (r : Registers) (v : Word) :
    (r.poke i v).read i = .ok v := by
  rw [read, if_neg hne, dif_pos hlt]
  simp [poke]

theorem value_poke_self (hlt : i < scalarCount) (hne : i ≠ 0) (r : Registers) (v : Word) :
    (r.poke i v).value i = v := value_of_read (read_poke_self hlt hne r v)

theorem value_poke_of_ne (h : i ≠ j) (r : Registers) (v : Word) :
    (r.poke i v).value j = r.value j := by
  have hread : (r.poke i v).read j = r.read j := by
    rw [read, read]
    split_ifs with hzero hlt
    · rfl
    · exact congrArg Except.ok (Vector.getElem_setIfInBounds_ne hlt h)
    · rfl
  rw [value, value, hread]

theorem value_put_of_ne (h : i ≠ j) (r : Registers) (v : Word) :
    (r.put i v).value j = r.value j := by
  rw [put]
  split_ifs
  · rfl
  · exact value_poke_of_ne h r v

theorem put_of_ne_zero (h : i ≠ 0) (r : Registers) (v : Word) : r.put i v = r.poke i v := if_neg h

end Registers

/-! ### Branches and jumps -/

/-- The offset of a branch or of a jump relative to its address. -/
def Instruction.jumpOffset? : Instruction → Option Int
  | branch _ _ _ imm => some imm
  | jal _ imm => some imm
  | _ => none

/-- Whether the instruction goes on at its target: a jump always does, and a branch does if its
condition holds. -/
def Instruction.Jumps (r : Registers) : Instruction → Prop
  | branch cond rs1 rs2 _ => ∃ a b, r.read rs1 = .ok a ∧ r.read rs2 = .ok b ∧
      cond.holds (difference a b) = true
  | jal _ _ => True
  | _ => False

section Elsewhere

variable {r : Registers} {m : Memory} {w : Word} {imm : Int}

/-- A branch goes on at its target or behind itself, and does nothing else. -/
theorem Machine.step_of_branch {cond : Condition} {rs1 rs2 : Nat} (hload : m.loadWord r.pc = .ok w)
    (hdecode : decode w = .ok (.branch cond rs1 rs2 imm)) :
    Machine.step ⟨r, m⟩ =
      (⟨r.goto (if cond.holds (difference (r.value rs1) (r.value rs2)) then
        r.pc + BitVec.ofInt 32 imm else r.nextAddress), m⟩, .ok .running) := by
  obtain ⟨-, h2, h1⟩ := fits_of_encode (Instruction.encode_eq_ok_iff.mpr hdecode)
  refine step_of_update hload hdecode ?_
  rw [Instruction.effect, Registers.read_eq_value h1, Except.ok_bind, Registers.read_eq_value h2,
    Except.ok_bind]
  split_ifs <;> rfl

/-- A jump goes on at its target and leaves its link. -/
theorem Machine.step_of_jal {rd : Nat} (hload : m.loadWord r.pc = .ok w)
    (hdecode : decode w = .ok (.jal rd imm)) :
    Machine.step ⟨r, m⟩ =
      (⟨(r.put rd r.nextAddress).goto (r.pc + BitVec.ofInt 32 imm), m⟩, .ok .running) := by
  have hfits := fits_of_encode (Instruction.encode_eq_ok_iff.mpr hdecode)
  refine step_of_update hload hdecode ?_
  rw [Instruction.effect, Registers.write_of_lt hfits.2]
  rfl

/-- A jump to a register goes on at its content, also if the link replaces it. -/
theorem Machine.step_of_jalr {rd rs1 : Nat} (hload : m.loadWord r.pc = .ok w)
    (hdecode : decode w = .ok (.jalr rd rs1 imm)) :
    Machine.step ⟨r, m⟩ =
      (⟨(r.put rd r.nextAddress).goto (r.value rs1 + BitVec.ofInt 32 imm), m⟩, .ok .running) := by
  obtain ⟨-, h1, hd⟩ := fits_of_encode (Instruction.encode_eq_ok_iff.mpr hdecode)
  refine step_of_update hload hdecode ?_
  rw [Instruction.effect, Registers.read_eq_value h1, Except.ok_bind, Registers.write_of_lt hd]
  rfl

/-- A branch or jump that is taken goes to the sum of its address and its offset. -/
theorem Machine.step_of_jumps {i : Instruction} (hload : m.loadWord r.pc = .ok w)
    (hdecode : decode w = .ok i) (himm : i.jumpOffset? = some imm) (hjumps : i.Jumps r) :
    ∃ r', Machine.step ⟨r, m⟩ = (⟨r', m⟩, .ok .running) ∧ r'.pc = r.pc + BitVec.ofInt 32 imm := by
  cases i with
  | branch cond rs1 rs2 z =>
    cases himm
    obtain ⟨a, b, ha, hb, hholds⟩ := hjumps
    rw [← Registers.value_of_read ha, ← Registers.value_of_read hb] at hholds
    exact ⟨_, step_of_branch hload hdecode, if_pos hholds⟩
  | jal rd z =>
    cases himm
    exact ⟨_, step_of_jal hload hdecode, rfl⟩
  | _ => cases himm

end Elsewhere

/-! ### Steps that load and store -/

section Transfer

variable {r : Registers} {m m' : Memory} {w v : Word} {imm : Int} {rs1 : Nat}

/-- A load puts the word at its address into a register. -/
theorem Machine.step_of_load {rd : Nat} (hload : m.loadWord r.pc = .ok w)
    (hdecode : decode w = .ok (.load rd rs1 imm))
    (hv : m.loadWord (r.value rs1 + BitVec.ofInt 32 imm) = .ok v) :
    Machine.step ⟨r, m⟩ = (⟨(r.put rd v).next, m⟩, .ok .running) := by
  obtain ⟨-, h1, hd⟩ := fits_of_encode (Instruction.encode_eq_ok_iff.mpr hdecode)
  refine step_of_update hload hdecode ?_
  rw [Instruction.effect, Registers.read_eq_value h1, Except.ok_bind, hv, Except.ok_bind,
    Registers.write_of_lt hd]
  rfl

/-- A store changes the memory at its address. -/
theorem Machine.step_of_store {rs2 : Nat} (hload : m.loadWord r.pc = .ok w)
    (hdecode : decode w = .ok (.store rs1 rs2 imm))
    (hstore : m.storeWord (r.value rs1 + BitVec.ofInt 32 imm) (r.value rs2) = (m', .ok ())) :
    Machine.step ⟨r, m⟩ = (⟨r.next, m'⟩, .ok .running) := by
  obtain ⟨-, h2, h1⟩ := fits_of_encode (Instruction.encode_eq_ok_iff.mpr hdecode)
  have hnext : nextEffect r m =
      .ok (.write [(r.value rs1 + BitVec.ofInt 32 imm, r.value rs2)]) := by
    rw [nextEffect_of_loadWord hload hdecode, Instruction.effect, Registers.read_eq_value h1,
      Except.ok_bind, Registers.read_eq_value h2]
    rfl
  simp only [step, hnext, Memory.storeWords, hstore]

end Transfer

/-! ### Words put into a register -/

section Put

variable {r : Registers} {m : Memory} {rd : Nat}

theorem Registers.write_of_ne_zero (hlt : rd < scalarCount) (hne : rd ≠ 0) (r : Registers)
    (v : Word) : r.write rd v = .ok (r.poke rd v) := by
  rw [write_of_lt hlt, put_of_ne_zero hne]

theorem Registers.poke_poke (r : Registers) (v v' : Word) :
    (r.poke rd v).poke rd v' = r.poke rd v' := by
  simp [poke]

theorem Machine.step_of_lui {w : Word} {imm : Nat} (hload : m.loadWord r.pc = .ok w)
    (hdecode : decode w = .ok (.lui rd imm)) (hne : rd ≠ 0) :
    Machine.step ⟨r, m⟩ =
      (⟨(r.poke rd (BitVec.ofNat 32 imm <<< 12)).next, m⟩, .ok .running) := by
  have hfits := fits_of_encode (Instruction.encode_eq_ok_iff.mpr hdecode)
  refine step_of_update hload hdecode ?_
  rw [Instruction.effect, Registers.write_of_ne_zero hfits.2 hne]
  rfl

theorem Machine.step_of_addi {w a : Word} {rs : Nat} {imm : Int}
    (hload : m.loadWord r.pc = .ok w) (hdecode : decode w = .ok (.aluImm .add rd rs imm))
    (hread : r.read rs = .ok a) (hne : rd ≠ 0) :
    Machine.step ⟨r, m⟩ =
      (⟨(r.poke rd (a + BitVec.ofInt 32 imm)).next, m⟩, .ok .running) := by
  have hfits := fits_of_encode (Instruction.encode_eq_ok_iff.mpr hdecode)
  refine step_of_update hload hdecode ?_
  rw [Instruction.effect, hread, Except.ok_bind,
    Registers.write_of_ne_zero hfits.2.2.2 hne]
  rfl

theorem Registers.poke_goto (r : Registers) (addr v : Word) :
    (r.goto addr).poke rd v = (r.poke rd v).goto addr :=
  rfl

theorem Registers.goto_goto (r : Registers) (addr addr' : Word) :
    (r.goto addr).goto addr' = r.goto addr' :=
  rfl

/-- Behind the instruction at place `k` stands the one at the next place. -/
theorem Registers.nextAddress_eq_ofNat {k : Nat} (hpc : r.pc = BitVec.ofNat 32 (4 * k)) :
    r.nextAddress = BitVec.ofNat 32 (4 * (k + 1)) := by
  rw [nextAddress, hpc, Nat.mul_succ, BitVec.ofNat_add]
  rfl

theorem Registers.next_eq_goto {k : Nat} (hpc : r.pc = BitVec.ofNat 32 (4 * k)) :
    r.next = r.goto (BitVec.ofNat 32 (4 * (k + 1))) := by
  rw [next, nextAddress_eq_ofNat hpc]

variable {code : List Word} {k : Nat}

/-- Adding an immediate to register zero puts it into a register. -/
theorem Machine.after_one_of_addi {w : Word} {imm : Int} (hm : m.Holds code)
    (hpc : r.pc = BitVec.ofNat 32 (4 * k)) (hw : code[k]? = some w)
    (hdecode : decode w = .ok (.aluImm .add rd 0 imm)) (hne : rd ≠ 0) :
    Machine.after 1 ⟨r, m⟩ =
      some ⟨(r.poke rd (BitVec.ofInt 32 imm)).goto (BitVec.ofNat 32 (4 * (k + 1))), m⟩ := by
  have hload : m.loadWord r.pc = .ok w := by rw [hpc, hm k w hw]
  have hpc' : (r.poke rd (BitVec.ofInt 32 imm)).pc = BitVec.ofNat 32 (4 * k) := hpc
  have hsum : (0 : Word) + BitVec.ofInt 32 imm = BitVec.ofInt 32 imm := BitVec.zero_add _
  rw [after_succ 0 (step_of_addi hload hdecode rfl hne), hsum, Registers.next_eq_goto hpc', after]

/-- An upper immediate and the addition of a lower one put their sum into a register. -/
theorem Machine.after_two_of_lui_addi {w w' : Word} {upper : Nat} {lower : Int}
    (hm : m.Holds code) (hpc : r.pc = BitVec.ofNat 32 (4 * k)) (hw : code[k]? = some w)
    (hw' : code[k + 1]? = some w') (hdecode : decode w = .ok (.lui rd upper))
    (hdecode' : decode w' = .ok (.aluImm .add rd rd lower)) (hne : rd ≠ 0) :
    Machine.after 2 ⟨r, m⟩ =
      some ⟨(r.poke rd ((BitVec.ofNat 32 upper <<< 12) + BitVec.ofInt 32 lower)).goto
        (BitVec.ofNat 32 (4 * (k + 2))), m⟩ := by
  have hlt : rd < scalarCount := (fits_of_encode (Instruction.encode_eq_ok_iff.mpr hdecode)).2
  have hload : m.loadWord r.pc = .ok w := by rw [hpc, hm k w hw]
  have hfirst := step_of_lui hload hdecode hne
  rw [Registers.next_eq_goto (r := r.poke rd _) hpc] at hfirst
  have hload' : m.loadWord ((r.poke rd (BitVec.ofNat 32 upper <<< 12)).goto
      (BitVec.ofNat 32 (4 * (k + 1)))).pc = .ok w' := hm (k + 1) w' hw'
  have hread : ((r.poke rd (BitVec.ofNat 32 upper <<< 12)).goto
      (BitVec.ofNat 32 (4 * (k + 1)))).read rd = .ok (BitVec.ofNat 32 upper <<< 12) :=
    Registers.read_poke_self hlt hne r _
  have hsecond := step_of_addi hload' hdecode' hread hne
  rw [Registers.next_eq_goto (r := Registers.poke _ rd _) (k := k + 1) rfl, Registers.poke_goto,
    Registers.poke_poke, Registers.goto_goto] at hsecond
  rw [after_succ 1 hfirst, after_succ 0 hsecond, after]

end Put

end TileCore

import TileCore.Assembly.Mnemonic
import TileCore.Proofs.Codec.Range

/-!
# What the reader lets through

An operand is checked when it is read, long before its instruction is encoded: a register has to be
one of its file, a number has to fit the field that its mnemonic gives it, and the way to a target
has to be even. These checks leave nothing for the encoder to find. Whatever instruction is read, at
any address and with any labels, has operands that fit their fields, and so it has a word.

## Main definitions

* `Mnemonic.HasForm`: a mnemonic that selects an instruction of the instruction set.

## Main results

* `scalarOperand_lt`, `tileOperand_lt`: registers that are read exist.
* `fits_of_resolveTarget`, `base_lt_of_resolveAddress`: what is known of a target and of an address.
* `Mnemonic.fits_of_read`, `fits_of_readInstruction`: the operands of what is read fit.
-/

namespace TileCore

open Text

/-! ### Registers -/

theorem readDigits_le {base limit acc n : Nat} {s : Text} (hacc : acc ≤ limit)
    (h : readDigits base limit acc s = .ok n) : n ≤ limit := by
  induction s generalizing acc with
  | nil =>
    cases h
    exact hacc
  | cons c s ih =>
    rw [readDigits] at h
    split at h
    · cases h
    · split_ifs at h with hle
      exact ih hle h

/-- A numeral does not exceed its limit. -/
theorem readNat_le {base limit n : Nat} {s : Text} (h : readNat base limit s = .ok n) :
    n ≤ limit := by
  unfold readNat at h
  split at h
  · cases h
  · exact readDigits_le (Nat.zero_le _) h
  · exact readDigits_le (Nat.zero_le _) h

theorem readIndex?_lt {letter : Char} {count i : Nat} {s : Text} (hcount : 0 < count)
    (h : readIndex? letter count s = some i) : i < count := by
  cases s with
  | nil => cases h
  | cons c s =>
    rw [readIndex?] at h
    split_ifs at h
    cases hread : readNat 10 (count - 1) s with
    | error e =>
      rw [hread] at h
      cases h
    | ok n =>
      rw [hread] at h
      cases h
      have := readNat_le hread
      omega

/-- Every name stands for a register that exists. -/
theorem lt_of_mem_registerNames {entry : String × Nat} (h : entry ∈ registerNames) :
    entry.2 < scalarCount := by
  have hall : registerNames.all (fun entry => decide (entry.2 < scalarCount)) = true := by decide
  exact of_decide_eq_true (List.all_eq_true.mp hall entry h)

theorem scalarOperand_lt {s : Text} {r : Nat} (h : scalarOperand s = .ok r) : r < scalarCount := by
  have hread : readRegister? s = some r := by
    rw [scalarOperand] at h
    split at h
    · cases h
      assumption
    · cases h
  simp only [readRegister?, Option.orElse_eq_orElse, Option.orElse_eq_or,
    Option.or_eq_some_iff] at hread
  obtain hnumber | ⟨-, hname⟩ := hread
  · exact readIndex?_lt (by decide) hnumber
  · obtain ⟨entry, hfind, rfl⟩ := Option.map_eq_some_iff.mp hname
    exact lt_of_mem_registerNames (List.mem_of_find?_eq_some hfind)

theorem lt_of_readRegister? {op : Text} {x : Nat} (h : readRegister? op = some x) :
    x < scalarCount := by
  refine scalarOperand_lt (s := op) ?_
  rw [scalarOperand, h]

theorem tileOperand_lt {s : Text} {r : Nat} (h : tileOperand s = .ok r) : r < tileCount := by
  rw [tileOperand] at h
  split at h
  · next r' hread =>
    cases h
    exact readIndex?_lt (by decide) hread
  · cases h

/-! ### Numbers, targets and addresses -/

section Operands

variable {labels : Labels} {pc : Word} {bits : Nat} {name s : Text} {z z' : Int}

theorem of_checkSigned (h : checkSigned name bits z = .ok z') : z = z' ∧ FitsSigned bits z' := by
  rw [checkSigned] at h
  split_ifs at h with hfits
  cases h
  exact ⟨rfl, hfits⟩

/-- An upper immediate is cut to twenty bits. -/
theorem le_of_checkUpper {n : Nat} (h : checkUpper name z = .ok n) : n ≤ 0xFFFFF := by
  rw [checkUpper] at h
  split_ifs at h
  cases h
  omega

theorem mem_of_shiftOperand (h : shiftOperand s = .ok z) : 0 ≤ z ∧ z < 32 := by
  rw [shiftOperand] at h
  split at h
  · split_ifs at h with hrange
    cases h
    omega
  · cases h

/-- The way to a target is even and fits its field, whether it is written or computed. -/
theorem fits_of_resolveTarget (h : resolveTarget labels pc name bits s = .ok z) :
    z % 2 = 0 ∧ FitsSigned bits z := by
  have hway : ∃ way : Int, (if way % 2 = 0 then checkSigned name bits way
      else .error (.oddOffset name way)) = .ok z := by
    rw [resolveTarget] at h
    split at h
    · exact ⟨_, h⟩
    · obtain ⟨way, -, h⟩ := Except.bind_eq_ok_iff.mp h
      exact ⟨way, h⟩
  obtain ⟨way, hway⟩ := hway
  split_ifs at hway with heven
  obtain ⟨rfl, hfits⟩ := of_checkSigned hway
  exact ⟨heven, hfits⟩

/-- The base of an address is a register that exists, in each way to write an address. -/
theorem base_lt_of_resolveAddress {base : Nat} (h : resolveAddress labels s = .ok (z, base)) :
    base < scalarCount := by
  have hbase {offset : Int} {operand : Text}
      (h : (scalarOperand operand >>= fun base => pure (offset, base)) = .ok (z, base)) :
      base < scalarCount := by
    obtain ⟨base', hread, h⟩ := Except.bind_eq_ok_iff.mp h
    cases h
    exact scalarOperand_lt hread
  simp only [resolveAddress] at h
  split at h
  · split at h
    · cases h
    · split_ifs at h
      · exact hbase h
      · obtain ⟨offset, -, h⟩ := Except.bind_eq_ok_iff.mp h
        exact hbase h
  · split at h
    · cases h
    · split at h
      · cases h
      · split_ifs at h
        · exact hbase h
        · obtain ⟨offset, -, h⟩ := Except.bind_eq_ok_iff.mp h
          exact hbase h

end Operands

/-! ### Instructions -/

namespace Mnemonic

/-- A mnemonic that selects an instruction of the instruction set: not every operation has an
immediate form. -/
def HasForm : Mnemonic → Prop
  | aluImm op => op.immediateFunct?.isSome = true
  | _ => True

theorem isSome_of_immediateOp? {s : Text} {op : AluOp} (h : immediateOp? s = some op) :
    op.immediateFunct?.isSome = true := by
  rw [immediateOp?] at h
  split_ifs at h
  · cases h
    rfl
  · exact (Option.filter_eq_some_iff.mp h).2

/-- What the text of a mnemonic selects has a form. -/
theorem hasForm_of_ofText? {s : Text} {m : Mnemonic} (h : ofText? s = some m) : m.HasForm := by
  cases m
  case aluImm op =>
    simp only [ofText?, Option.orElse_eq_orElse, Option.orElse_eq_or, Option.or_eq_some_iff] at h
    obtain halu | ⟨-, himm | ⟨-, hbranch | ⟨-, hkeyword⟩⟩⟩ := h
    · obtain ⟨op', -, h⟩ := Option.map_eq_some_iff.mp halu
      cases h
    · obtain ⟨op', hop, h⟩ := Option.map_eq_some_iff.mp himm
      cases h
      exact isSome_of_immediateOp? hop
    · obtain ⟨cond, -, h⟩ := Option.map_eq_some_iff.mp hbranch
      cases h
    · obtain ⟨entry, hfind, h⟩ := Option.map_eq_some_iff.mp hkeyword
      have hnone : keywords.all (fun entry => decide (entry.2 ≠ .aluImm op)) = true := by
        cases op <;> decide
      exact absurd h (of_decide_eq_true
        (List.all_eq_true.mp hnone entry (List.mem_of_find?_eq_some hfind)))
  all_goals trivial

variable {labels : Labels} {pc : Word} {name : Text} {i : Instruction}

theorem fits_of_immediateOperand {op : AluOp} {s : Text} {z : Int}
    (h : immediateOperand labels name op s = .ok z) :
    if op.isShift then 0 ≤ z ∧ z < 32 else FitsSigned 12 z := by
  rw [immediateOperand] at h
  split_ifs at h ⊢ with hop
  · exact mem_of_shiftOperand h
  · obtain ⟨z', -, h⟩ := Except.bind_eq_ok_iff.mp h
    exact (of_checkSigned h).2

/-- The operands of what is read fit their fields. -/
theorem fits_of_read {m : Mnemonic} {ops : List Text} (hm : m.HasForm)
    (h : m.read labels pc name ops = .ok i) : i.Fits := by
  unfold read at h
  split at h
  all_goals simp only [Except.bind_eq_ok_iff, pure, Except.pure, Except.ok.injEq, reduceCtorEq] at h
  case h_1 =>
    obtain ⟨rd, hrd, rs1, hrs1, rs2, hrs2, h⟩ := h
    cases h
    exact ⟨scalarOperand_lt hrs2, scalarOperand_lt hrs1, scalarOperand_lt hrd⟩
  case h_3 =>
    obtain ⟨rd, hrd, rs1, hrs1, imm, himm, h⟩ := h
    cases h
    exact ⟨hm, fits_of_immediateOperand himm, scalarOperand_lt hrs1, scalarOperand_lt hrd⟩
  case h_5 =>
    obtain ⟨rs1, hrs1, rs2, hrs2, imm, himm, h⟩ := h
    cases h
    exact ⟨fits_of_resolveTarget himm, scalarOperand_lt hrs2, scalarOperand_lt hrs1⟩
  case h_7 | h_18 =>
    obtain ⟨⟨offset, rs1⟩, haddr, rd, hrd, imm, himm, h⟩ := h
    cases h
    exact ⟨(of_checkSigned himm).2, base_lt_of_resolveAddress haddr, scalarOperand_lt hrd⟩
  case h_8 | h_19 =>
    obtain ⟨rd, hrd, rs1, hrs1, offset, -, imm, himm, h⟩ := h
    cases h
    exact ⟨(of_checkSigned himm).2, scalarOperand_lt hrs1, scalarOperand_lt hrd⟩
  case h_10 =>
    obtain ⟨⟨offset, rs1⟩, haddr, rs2, hrs2, imm, himm, h⟩ := h
    cases h
    exact ⟨(of_checkSigned himm).2, scalarOperand_lt hrs2, base_lt_of_resolveAddress haddr⟩
  case h_11 =>
    obtain ⟨rs1, hrs1, rs2, hrs2, offset, -, imm, himm, h⟩ := h
    cases h
    exact ⟨(of_checkSigned himm).2, scalarOperand_lt hrs2, scalarOperand_lt hrs1⟩
  case h_13 =>
    obtain ⟨rd, hrd, value, -, imm, himm, h⟩ := h
    cases h
    exact ⟨le_of_checkUpper himm, scalarOperand_lt hrd⟩
  case h_15 =>
    obtain ⟨imm, himm, h⟩ := h
    cases h
    exact ⟨fits_of_resolveTarget himm, by decide⟩
  case h_16 =>
    obtain ⟨rd, hrd, imm, himm, h⟩ := h
    cases h
    exact ⟨fits_of_resolveTarget himm, scalarOperand_lt hrd⟩
  case h_21 =>
    obtain ⟨rd, hrd, ra, hra, rb, hrb, rc, hrc, h⟩ := h
    cases h
    exact ⟨tileOperand_lt hrd, tileOperand_lt hra, tileOperand_lt hrb, tileOperand_lt hrc⟩
  case h_23 | h_25 =>
    obtain ⟨⟨offset, rs1⟩, haddr, rd, hrd, stride, hstride, imm, himm, h⟩ := h
    cases h
    exact ⟨tileOperand_lt hrd, base_lt_of_resolveAddress haddr, scalarOperand_lt hstride,
      (of_checkSigned himm).2⟩
  case h_27 =>
    cases h
    trivial

end Mnemonic

/-- Whatever instruction is read, its operands fit their fields. -/
theorem fits_of_readInstruction {labels : Labels} {pc : Word} {text : Text} {i : Instruction}
    (h : readInstruction labels pc text = .ok i) : i.Fits := by
  simp only [readInstruction] at h
  split at h
  · next m hm => exact Mnemonic.fits_of_read (Mnemonic.hasForm_of_ofText? hm) h
  · cases h

end TileCore

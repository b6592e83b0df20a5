import TileCore.Proofs.Codec.Inverse

/-!
# Which instructions have a word

An instruction has a word exactly if each of its operands fits its field. What is known of the
operands of an encoded instruction is collected here, form by form.

## Main definitions

* `Instruction.Fits`: every operand fits its field.

## Main results

* `exists_encode_eq_ok_iff`: the instructions that have a word.
-/

namespace TileCore

/-- Every operand fits its field. -/
def Instruction.Fits : Instruction → Prop
  | alu _ rd rs1 rs2 => rs2 < scalarCount ∧ rs1 < scalarCount ∧ rd < scalarCount
  | aluImm op rd rs1 imm =>
    op.immediateFunct?.isSome = true ∧
      (if op.isShift then 0 ≤ imm ∧ imm < 32 else FitsSigned 12 imm) ∧
        rs1 < scalarCount ∧ rd < scalarCount
  | load rd rs1 imm => FitsSigned 12 imm ∧ rs1 < scalarCount ∧ rd < scalarCount
  | store rs1 rs2 imm => FitsSigned 12 imm ∧ rs2 < scalarCount ∧ rs1 < scalarCount
  | branch _ rs1 rs2 imm =>
    (imm % 2 = 0 ∧ FitsSigned 13 imm) ∧ rs2 < scalarCount ∧ rs1 < scalarCount
  | lui rd imm => imm ≤ 0xFFFFF ∧ rd < scalarCount
  | jal rd imm => (imm % 2 = 0 ∧ FitsSigned 21 imm) ∧ rd < scalarCount
  | jalr rd rs1 imm => FitsSigned 12 imm ∧ rs1 < scalarCount ∧ rd < scalarCount
  | gemm rd ra rb rc => rd < tileCount ∧ ra < tileCount ∧ rb < tileCount ∧ rc < tileCount
  | tileLoad rd rs1 stride imm =>
    rd < tileCount ∧ rs1 < scalarCount ∧ stride < scalarCount ∧ FitsSigned 11 imm
  | tileStore rd rs1 stride imm =>
    rd < tileCount ∧ rs1 < scalarCount ∧ stride < scalarCount ∧ FitsSigned 11 imm
  | halt => True

/-! ### Fields -/

theorem exists_scalarField_iff {n : Nat} : (∃ b, scalarField n = .ok b) ↔ n < scalarCount := by
  rw [scalarField]
  split_ifs with h <;> simp [h]

theorem exists_tileField_iff {n : Nat} : (∃ b, tileField n = .ok b) ↔ n < tileCount := by
  rw [tileField]
  split_ifs with h <;> simp [h]

theorem exists_upperField_iff {n : Nat} : (∃ b, upperField n = .ok b) ↔ n ≤ 0xFFFFF := by
  rw [upperField]
  split_ifs with h <;> simp [h]

theorem exists_signedField_iff {k : Nat} {z : Int} :
    (∃ b, signedField k z = .ok b) ↔ FitsSigned k z := by
  rw [signedField]
  split_ifs with h <;> simp [h]

theorem exists_offsetField_iff {k : Nat} {z : Int} :
    (∃ b, offsetField k z = .ok b) ↔ z % 2 = 0 ∧ FitsSigned k z := by
  rw [offsetField]
  split_ifs with h
  · rw [exists_signedField_iff]
    exact (and_iff_right h).symm
  · simp [h]

theorem exists_shiftField_iff {z : Int} : (∃ b, shiftField z = .ok b) ↔ 0 ≤ z ∧ z < 32 := by
  rw [shiftField]
  split_ifs with h <;> simp [h]

theorem exists_immediateFunctField_iff {op : AluOp} :
    (∃ b, immediateFunctField op = .ok b) ↔ op.immediateFunct?.isSome = true := by
  rw [immediateFunctField]
  cases op.immediateFunct? <;> simp

/-! ### Instructions -/

theorem Except.exists_bind_eq_ok_iff {ε α β : Type} {x : Except ε α} {f : α → Except ε β} :
    (∃ b, (x >>= f) = .ok b) ↔ ∃ a, x = .ok a ∧ ∃ b, f a = .ok b := by
  cases x <;> simp [bind, Except.bind]

/-- An instruction has a word exactly if each of its operands fits its field. -/
theorem exists_encode_eq_ok_iff {i : Instruction} : (∃ w, i.encode = .ok w) ↔ i.Fits := by
  cases i
  case aluImm op rd rs1 imm =>
    rw [Instruction.Fits, Instruction.encode, Instruction.encodeImmediate]
    cases op.isShift with
    | true =>
      simp only [Except.exists_bind_eq_ok_iff, pure, Except.pure, ↓reduceIte, Except.ok.injEq,
        exists_eq', and_true, exists_and_right, exists_immediateFunctField_iff,
        exists_shiftField_iff, exists_scalarField_iff]
    | false =>
      simp only [Except.exists_bind_eq_ok_iff, pure, Except.pure, Bool.false_eq_true, ↓reduceIte,
        Except.ok.injEq, exists_eq', and_true, exists_and_right, exists_immediateFunctField_iff,
        exists_signedField_iff, exists_scalarField_iff]
  all_goals
    simp only [Instruction.Fits, Instruction.encode, Instruction.encodeTile,
      Except.exists_bind_eq_ok_iff, pure, Except.pure, Except.ok.injEq, exists_eq', and_true,
      exists_and_right, exists_scalarField_iff, exists_tileField_iff, exists_upperField_iff,
      exists_signedField_iff, exists_offsetField_iff]

theorem fits_of_encode {i : Instruction} {w : Word} (h : i.encode = .ok w) : i.Fits :=
  exists_encode_eq_ok_iff.mp ⟨w, h⟩

end TileCore

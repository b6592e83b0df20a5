import Mathlib.Tactic.MkIffOfInductiveProp
import TileCore.Proofs.Codec.Range

/-!
# The operands that a word has room for

Which instructions have a word is a matter of three lists of operands: the scalar registers an
instruction names, its tile registers, and its immediate, for which its form leaves a range. The
lists and the ranges are written down here without the fields of a word. The instructions whose
operands keep to them are the ones with a word, and also the ones that some word is read as; of any
other instruction the encoder names an operand that goes beyond.

## Main definitions

* `ImmediateRange`: the immediates of a form, with `ImmediateRange.short` and five others.
* `Instruction.scalars`, `Instruction.tiles`, `Instruction.immediate?`,
  `Instruction.immediateOp?`: the operands of an instruction.
* `Instruction.IsRepresentable`: every operand keeps to its bound.
* `Instruction.Violates`: an operand that goes beyond its bound, by the refusal that names it.

## Main results

* `Instruction.fits_iff_isRepresentable`: the bounds are those of the fields.
* `Instruction.Violates.not_isRepresentable`: no refusal is empty.
* `Instruction.explains_encode`: what the encoder names is beyond its bound.
* `encodable_instructions`: the instructions with a word.
-/

namespace TileCore

/-! ### Operands -/

/-- The immediates that a form of instructions has room for. -/
structure ImmediateRange where
  /-- The width by which a refusal names the range. -/
  bits : Nat
  /-- The least immediate. -/
  least : Int
  /-- The greatest immediate. -/
  greatest : Int
  /-- Odd immediates are left out. -/
  even : Bool

namespace ImmediateRange

/-- The immediates of arithmetic, of word accesses and of jumps to a register. -/
def short : ImmediateRange := ⟨12, -2048, 2047, false⟩

/-- The places that a word can be shifted by. -/
def shift : ImmediateRange := ⟨5, 0, 31, false⟩

/-- The offsets of branches. -/
def branch : ImmediateRange := ⟨13, -4096, 4094, true⟩

/-- The offsets of jumps, a mebibyte either way. -/
def jump : ImmediateRange := ⟨21, -1048576, 1048574, true⟩

/-- The upper parts of words. -/
def upper : ImmediateRange := ⟨20, 0, 0xFFFFF, false⟩

/-- The offsets of tile accesses. -/
def tile : ImmediateRange := ⟨11, -1024, 1023, false⟩

/-- The range contains an immediate. -/
def Contains (f : ImmediateRange) (z : Int) : Prop :=
  f.least ≤ z ∧ z ≤ f.greatest ∧ (f.even = true → z % 2 = 0)

end ImmediateRange

namespace Instruction

/-- The scalar registers that an instruction names. -/
def scalars : Instruction → List Nat
  | alu _ rd rs1 rs2 => [rd, rs1, rs2]
  | aluImm _ rd rs1 _ => [rd, rs1]
  | load rd rs1 _ => [rd, rs1]
  | store rs1 rs2 _ => [rs1, rs2]
  | branch _ rs1 rs2 _ => [rs1, rs2]
  | lui rd _ => [rd]
  | jal rd _ => [rd]
  | jalr rd rs1 _ => [rd, rs1]
  | gemm .. => []
  | tileLoad _ rs1 stride _ => [rs1, stride]
  | tileStore _ rs1 stride _ => [rs1, stride]
  | halt => []

/-- The tile registers that an instruction names. -/
def tiles : Instruction → List Nat
  | gemm rd ra rb rc => [rd, ra, rb, rc]
  | tileLoad rd .. => [rd]
  | tileStore rd .. => [rd]
  | _ => []

/-- The immediate of an instruction, with the range that its form leaves for it. -/
def immediate? : Instruction → Option (Int × ImmediateRange)
  | aluImm op _ _ imm => some (imm, if op.isShift then .shift else .short)
  | load _ _ imm => some (imm, .short)
  | store _ _ imm => some (imm, .short)
  | branch _ _ _ imm => some (imm, .branch)
  | lui _ imm => some (imm, .upper)
  | jal _ imm => some (imm, .jump)
  | jalr _ _ imm => some (imm, .short)
  | tileLoad _ _ _ imm => some (imm, .tile)
  | tileStore _ _ _ imm => some (imm, .tile)
  | _ => none

/-- The operation that an instruction applies to an immediate. -/
def immediateOp? : Instruction → Option AluOp
  | aluImm op .. => some op
  | _ => none

/-- Every operand of an instruction keeps to its bound. -/
@[mk_iff]
structure IsRepresentable (i : Instruction) : Prop where
  /-- There are 32 scalar registers. -/
  scalar : ∀ r ∈ i.scalars, r < 32
  /-- There are 16 tile registers. -/
  tile : ∀ t ∈ i.tiles, t < 16
  /-- The immediate is one that the form has room for. -/
  immediate : ∀ z f, i.immediate? = some (z, f) → f.Contains z
  /-- Subtraction and multiplication take no immediate. -/
  operation : ∀ op, i.immediateOp? = some op → op ≠ .sub ∧ op ≠ .mul

/-- The refusal names an operand of the instruction that goes beyond its bound. -/
inductive Violates (i : Instruction) : EncodeError → Prop
  /-- A scalar register that does not exist. -/
  | scalar {r : Nat} (hr : r ∈ i.scalars) (hbound : 32 ≤ r) :
    Violates i (.registerOutOfRange r 32)
  /-- A tile register that does not exist. -/
  | tile {t : Nat} (ht : t ∈ i.tiles) (hbound : 16 ≤ t) : Violates i (.registerOutOfRange t 16)
  /-- An immediate that is too small or too large. -/
  | range {z : Int} {f : ImmediateRange} (hz : i.immediate? = some (z, f))
    (hbound : z < f.least ∨ f.greatest < z) : Violates i (.immediateOutOfRange z f.bits)
  /-- An odd offset. -/
  | odd {z : Int} {f : ImmediateRange} (hz : i.immediate? = some (z, f)) (heven : f.even = true)
    (hodd : z % 2 ≠ 0) : Violates i (.misalignedOffset z)
  /-- An operation that takes no immediate. -/
  | operation {op : AluOp} (hop : i.immediateOp? = some op) (hnone : op = .sub ∨ op = .mul) :
    Violates i (.noImmediateForm op)

end Instruction

/-! ### The bounds are those of the fields -/

namespace ImmediateRange

variable {z : Int} {f : ImmediateRange}

/-- An immediate that is left out, although not for being odd, is too small or too large. -/
theorem lt_or_lt_of_not_contains (h : ¬f.Contains z) (heven : f.even = true → z % 2 = 0) :
    z < f.least ∨ f.greatest < z := by
  rcases Int.lt_or_le z f.least with hleast | hleast
  · exact .inl hleast
  rcases Int.lt_or_le f.greatest z with hgreatest | hgreatest
  · exact .inr hgreatest
  exact absurd ⟨hleast, hgreatest, heven⟩ h

/-- Where odd immediates are let in, one that is left out is too small or too large. -/
theorem lt_or_lt_of_even_eq_false (hodd : f.even = false) (h : ¬f.Contains z) :
    z < f.least ∨ f.greatest < z :=
  lt_or_lt_of_not_contains h fun heven => absurd (hodd.symm.trans heven) Bool.false_ne_true

theorem contains_short_iff : short.Contains z ↔ FitsSigned 12 z := by
  have hbound : twoPow (12 - 1) = 2048 := rfl
  simp only [Contains, short, FitsSigned, hbound, Bool.false_eq_true, false_implies, and_true]
  omega

theorem contains_shift_iff : shift.Contains z ↔ 0 ≤ z ∧ z < 32 := by
  simp only [Contains, shift, Bool.false_eq_true, false_implies, and_true]
  omega

theorem contains_branch_iff : branch.Contains z ↔ z % 2 = 0 ∧ FitsSigned 13 z := by
  have hbound : twoPow (13 - 1) = 4096 := rfl
  simp only [Contains, branch, FitsSigned, hbound, true_implies]
  omega

theorem contains_jump_iff : jump.Contains z ↔ z % 2 = 0 ∧ FitsSigned 21 z := by
  have hbound : twoPow (21 - 1) = 1048576 := rfl
  simp only [Contains, jump, FitsSigned, hbound, true_implies]
  omega

theorem contains_upper_iff {n : Nat} : upper.Contains n ↔ n ≤ 0xFFFFF := by
  simp only [Contains, upper, Bool.false_eq_true, false_implies, and_true]
  omega

theorem contains_tile_iff : tile.Contains z ↔ FitsSigned 11 z := by
  have hbound : twoPow (11 - 1) = 1024 := rfl
  simp only [Contains, tile, FitsSigned, hbound, Bool.false_eq_true, false_implies, and_true]
  omega

end ImmediateRange

theorem AluOp.immediateFunct?_isSome_iff {op : AluOp} :
    op.immediateFunct?.isSome = true ↔ op ≠ .sub ∧ op ≠ .mul := by
  cases op <;> decide

namespace Instruction

variable {i : Instruction}

/-- The operands that fit their fields are the ones that keep to their bounds. -/
theorem fits_iff_isRepresentable : i.Fits ↔ i.IsRepresentable := by
  rw [isRepresentable_iff]
  cases i
  case aluImm op rd rs1 imm =>
    cases hshift : op.isShift with
    | true | false =>
      simp only [Fits, scalars, tiles, immediate?, immediateOp?, hshift, scalarCount,
        AluOp.immediateFunct?_isSome_iff, ImmediateRange.contains_short_iff,
        ImmediateRange.contains_shift_iff, ↓reduceIte, Bool.false_eq_true, List.mem_cons,
        List.not_mem_nil, or_false, forall_eq_or_imp, forall_eq, forall_eq', false_implies,
        implies_true, Option.some.injEq, Prod.mk.injEq, and_imp, forall_apply_eq_imp_iff, true_and]
      tauto
  all_goals
    simp only [Fits, scalars, tiles, immediate?, immediateOp?, scalarCount, tileCount,
      ImmediateRange.contains_short_iff, ImmediateRange.contains_branch_iff,
      ImmediateRange.contains_jump_iff, ImmediateRange.contains_upper_iff,
      ImmediateRange.contains_tile_iff, List.mem_cons, List.not_mem_nil, or_false,
      forall_eq_or_imp, forall_eq, forall_eq', false_implies, implies_true, reduceCtorEq,
      Option.some.injEq, Prod.mk.injEq, and_imp, forall_apply_eq_imp_iff, true_and, and_true]
  all_goals tauto

/-! ### What the encoder names -/

/-- A refused instruction violates a bound. -/
theorem Violates.not_isRepresentable {e : EncodeError} (h : i.Violates e) :
    ¬i.IsRepresentable := by
  intro hi
  cases h with
  | scalar hr hbound => exact absurd (hi.scalar _ hr) (Nat.not_lt.mpr hbound)
  | tile ht hbound => exact absurd (hi.tile _ ht) (Nat.not_lt.mpr hbound)
  | range hz hbound =>
    obtain ⟨hleast, hgreatest, -⟩ := hi.immediate _ _ hz
    omega
  | odd hz heven hodd => exact hodd ((hi.immediate _ _ hz).2.2 heven)
  | operation hop hnone =>
    obtain ⟨hsub, hmul⟩ := hi.operation _ hop
    exact hnone.elim hsub hmul

variable (i)

/-- Whatever refuses a part of the word names an operand that goes beyond its bound. -/
def Explains {α : Type} (x : Except EncodeError α) : Prop :=
  ∀ e, x = .error e → i.Violates e

variable {i}

section Parts

variable {α β : Type}

theorem explains_ok (a : α) : i.Explains (.ok a) := nofun

theorem explains_error {e : EncodeError} (h : i.Violates e) :
    i.Explains (.error e : Except EncodeError α) := by
  rintro _ ⟨⟩
  exact h

theorem Explains.bind {x : Except EncodeError α} {f : α → Except EncodeError β}
    (hx : i.Explains x) (hf : ∀ a, i.Explains (f a)) : i.Explains (x >>= f) := by
  intro e he
  rcases Except.bind_eq_error_iff.mp he with h | ⟨a, -, h⟩
  · exact hx e h
  · exact hf a e h

end Parts

section Fields

variable {n : Nat} {z : Int} {f : ImmediateRange} {op : AluOp}

theorem explains_scalarField (h : n ∈ i.scalars) : i.Explains (scalarField n) := by
  rw [scalarField]
  split_ifs with hn
  · exact explains_ok _
  · exact explains_error (.scalar h (Nat.not_lt.mp hn))

theorem explains_tileField (h : n ∈ i.tiles) : i.Explains (tileField n) := by
  rw [tileField]
  split_ifs with hn
  · exact explains_ok _
  · exact explains_error (.tile h (Nat.not_lt.mp hn))

/-- An immediate that is refused, although not for being odd, is too small or too large. -/
theorem explains_signedField_of_even (h : i.immediate? = some (z, f))
    (hf : f.Contains z ↔ FitsSigned f.bits z) (heven : f.even = true → z % 2 = 0) :
    i.Explains (signedField f.bits z) := by
  rw [signedField]
  split_ifs with hz
  · exact explains_ok _
  · have hout : ¬f.Contains z := fun hc => hz (hf.mp hc)
    exact explains_error (.range h (ImmediateRange.lt_or_lt_of_not_contains hout heven))

theorem explains_signedField (h : i.immediate? = some (z, f))
    (hf : f.Contains z ↔ FitsSigned f.bits z) (hodd : f.even = false) :
    i.Explains (signedField f.bits z) :=
  explains_signedField_of_even h hf fun heven =>
    absurd (hodd.symm.trans heven) Bool.false_ne_true

theorem explains_offsetField (h : i.immediate? = some (z, f))
    (hf : f.Contains z ↔ z % 2 = 0 ∧ FitsSigned f.bits z) (heven : f.even = true) :
    i.Explains (offsetField f.bits z) := by
  rw [offsetField]
  split_ifs with hz
  · exact explains_signedField_of_even h (hf.trans (and_iff_right hz)) fun _ => hz
  · exact explains_error (.odd h heven hz)

theorem explains_shiftField (h : i.immediate? = some (z, .shift)) :
    i.Explains (shiftField z) := by
  rw [shiftField]
  split_ifs with hz
  · exact explains_ok _
  · have hout : ¬ImmediateRange.shift.Contains z := fun hc =>
      hz (ImmediateRange.contains_shift_iff.mp hc)
    exact explains_error (.range h (ImmediateRange.lt_or_lt_of_even_eq_false rfl hout))

theorem explains_upperField (h : i.immediate? = some (↑n, .upper)) :
    i.Explains (upperField n) := by
  rw [upperField]
  split_ifs with hn
  · exact explains_ok _
  · have hout : ¬ImmediateRange.upper.Contains n := fun hc =>
      hn (ImmediateRange.contains_upper_iff.mp hc)
    exact explains_error (.range h (ImmediateRange.lt_or_lt_of_even_eq_false rfl hout))

theorem explains_immediateFunctField (h : i.immediateOp? = some op) :
    i.Explains (immediateFunctField op) := by
  rw [immediateFunctField]
  cases hop : op.immediateFunct? with
  | some funct3 => exact explains_ok _
  | none =>
    have hnone : ¬(op ≠ .sub ∧ op ≠ .mul) := by
      rw [← AluOp.immediateFunct?_isSome_iff, hop]
      decide
    exact explains_error (.operation h (by tauto))

end Fields

theorem explains_shortField {z : Int} (h : i.immediate? = some (z, .short)) :
    i.Explains (signedField 12 z) :=
  explains_signedField h ImmediateRange.contains_short_iff rfl

theorem explains_encodeTile {o : Opcode} {rd rs1 stride : Nat} {imm : Int}
    (ht : i.tiles = [rd]) (hr : i.scalars = [rs1, stride]) (hz : i.immediate? = some (imm, .tile)) :
    i.Explains (encodeTile o rd rs1 stride imm) := by
  rw [encodeTile]
  refine (explains_tileField (by simp [ht])).bind fun _ => ?_
  refine (explains_scalarField (by simp [hr])).bind fun _ => ?_
  refine (explains_scalarField (by simp [hr])).bind fun _ => ?_
  exact (explains_signedField hz ImmediateRange.contains_tile_iff rfl).bind fun _ => explains_ok _

theorem explains_encodeImmediate {op : AluOp} {rd rs1 : Nat} {imm : Int} :
    (aluImm op rd rs1 imm).Explains (encodeImmediate op rd rs1 imm) := by
  rw [encodeImmediate]
  refine (explains_immediateFunctField rfl).bind fun _ => ?_
  by_cases hshift : op.isShift = true
  · rw [if_pos hshift]
    refine (explains_shiftField (by rw [immediate?, if_pos hshift])).bind fun _ => ?_
    refine (explains_scalarField (by simp [scalars])).bind fun _ => ?_
    exact (explains_scalarField (by simp [scalars])).bind fun _ => explains_ok _
  · rw [if_neg hshift]
    refine (explains_shortField (by rw [immediate?, if_neg hshift])).bind fun _ => ?_
    refine (explains_scalarField (by simp [scalars])).bind fun _ => ?_
    exact (explains_scalarField (by simp [scalars])).bind fun _ => explains_ok _

/-- What the encoder names of an instruction is beyond its bound. -/
theorem explains_encode (i : Instruction) : i.Explains i.encode := by
  cases i with
  | alu op rd rs1 rs2 =>
    refine (explains_scalarField (by simp [scalars])).bind fun _ => ?_
    refine (explains_scalarField (by simp [scalars])).bind fun _ => ?_
    exact (explains_scalarField (by simp [scalars])).bind fun _ => explains_ok _
  | aluImm op rd rs1 imm => exact explains_encodeImmediate
  | load rd rs1 imm | store rs1 rs2 imm | jalr rd rs1 imm =>
    refine (explains_shortField rfl).bind fun _ => ?_
    refine (explains_scalarField (by simp [scalars])).bind fun _ => ?_
    exact (explains_scalarField (by simp [scalars])).bind fun _ => explains_ok _
  | branch cond rs1 rs2 imm =>
    refine (explains_offsetField rfl ImmediateRange.contains_branch_iff rfl).bind fun _ => ?_
    refine (explains_scalarField (by simp [scalars])).bind fun _ => ?_
    exact (explains_scalarField (by simp [scalars])).bind fun _ => explains_ok _
  | lui rd imm =>
    refine (explains_upperField rfl).bind fun _ => ?_
    exact (explains_scalarField (by simp [scalars])).bind fun _ => explains_ok _
  | jal rd imm =>
    refine (explains_offsetField rfl ImmediateRange.contains_jump_iff rfl).bind fun _ => ?_
    exact (explains_scalarField (by simp [scalars])).bind fun _ => explains_ok _
  | gemm rd ra rb rc =>
    refine (explains_tileField (by simp [tiles])).bind fun _ => ?_
    refine (explains_tileField (by simp [tiles])).bind fun _ => ?_
    refine (explains_tileField (by simp [tiles])).bind fun _ => ?_
    exact (explains_tileField (by simp [tiles])).bind fun _ => explains_ok _
  | tileLoad rd rs1 stride imm | tileStore rd rs1 stride imm =>
    exact explains_encodeTile rfl rfl rfl
  | halt => exact explains_ok _

end Instruction

/-! ### The instructions with a word -/

/-- The instructions with a word are those whose operands keep to their bounds: scalar registers
below 32, tile registers below 16, an immediate that the form has room for, and an operation that
takes an immediate if there is one. They are also the instructions that words are read as, and any
other instruction is refused for an operand that goes beyond its bound. -/
theorem encodable_instructions :
    (∀ i : Instruction, (∃ w, i.encode = .ok w) ↔ i.IsRepresentable) ∧
      (∀ i : Instruction, (∃ w, decode w = .ok i) ↔ i.IsRepresentable) ∧
        ∀ (i : Instruction) (e : EncodeError), i.encode = .error e →
          i.Violates e ∧ ¬i.IsRepresentable := by
  have hword (i : Instruction) : (∃ w, i.encode = .ok w) ↔ i.IsRepresentable :=
    exists_encode_eq_ok_iff.trans Instruction.fits_iff_isRepresentable
  refine ⟨hword, fun i => ?_, fun i e he => ?_⟩
  · rw [← hword]
    exact exists_congr fun w => Instruction.encode_eq_ok_iff.symm
  · have hviolates : i.Violates e := i.explains_encode e he
    exact ⟨hviolates, hviolates.not_isRepresentable⟩

/-- Of two branches that are two bytes apart, the farther one has no word. -/
theorem encodable_instructions_of_branches :
    (∃ w, decode w = .ok (.branch .bne 5 31 4094)) ∧
      (Instruction.branch .bne 5 31 4096).encode = .error (.immediateOutOfRange 4096 13) ∧
        (Instruction.branch .bne 5 31 4096).Violates (.immediateOutOfRange 4096 13) ∧
          ¬(Instruction.branch .bne 5 31 4096).IsRepresentable := by
  obtain ⟨hword, hread, hrefused⟩ := encodable_instructions
  have hnear : (Instruction.branch .bne 5 31 4094).IsRepresentable := (hword _).mp ⟨_, rfl⟩
  have hfar : (Instruction.branch .bne 5 31 4096).encode =
      .error (.immediateOutOfRange 4096 13) := rfl
  exact ⟨(hread _).mpr hnear, hfar, hrefused _ _ hfar⟩

end TileCore

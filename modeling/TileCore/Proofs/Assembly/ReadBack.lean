import TileCore.Assembly.Mnemonic
import TileCore.Proofs.Assembly.Operands
import TileCore.Proofs.Assembly.Statements
import TileCore.Proofs.Codec.Range

/-!
# Reading written instructions back

The text that stands for an instruction with a word is read back as that instruction, at any
address and with any labels. Mnemonics are looked up in lower case and without their meaningless
endings, so it matters that the mnemonics of the instruction set are left alone by both and that
none of them is a shorthand.

## Main definitions

* `IsMnemonic`: a mnemonic that is looked up as it is written.
* `Instruction.mnemonic`, `Instruction.mnemonicText`, `Instruction.operandTexts`: the parts of a
  listing.
* `IsListed`: what is needed of an instruction on a line of its own.

## Main results

* `readInstruction_instructionText`: a written instruction is read by its mnemonic and operands.
* `read_operandTexts`: the operands of the listing of an encodable instruction are read back.
* `isListed_listing`: such a listing stands for itself and is read back.
-/

namespace TileCore

open Text

/-! ### Mnemonics -/

/-- The characters of mnemonics. -/
def isMnemonicChar (c : Char) : Bool := c.isLower || c == '.'

/-- A mnemonic that is looked up as it is written and selects `m`. -/
structure IsMnemonic (name : String) (m : Mnemonic) : Prop where
  /-- It begins with a letter. -/
  head : name.toList.head?.any Char.isLower = true
  /-- It consists of small letters and dots. -/
  chars : name.toList.all isMnemonicChar = true
  /-- Its ending means something. -/
  folded : foldEnding (lowercase name.toList) = name.toList
  /-- It is no shorthand. -/
  noShorthand : Shorthand.ofName? name.toList = none
  /-- It selects `m`. -/
  selects : Mnemonic.ofText? name.toList = some m

instance (name : String) (m : Mnemonic) : Decidable (IsMnemonic name m) :=
  decidable_of_iff
    (name.toList.head?.any Char.isLower = true ∧ name.toList.all isMnemonicChar = true ∧
      foldEnding (lowercase name.toList) = name.toList ∧ Shorthand.ofName? name.toList = none ∧
        Mnemonic.ofText? name.toList = some m)
    ⟨fun ⟨h₁, h₂, h₃, h₄, h₅⟩ => ⟨h₁, h₂, h₃, h₄, h₅⟩,
      fun h => ⟨h.head, h.chars, h.folded, h.noShorthand, h.selects⟩⟩

namespace IsMnemonic

theorem ne_nil {name : String} {m : Mnemonic} (h : IsMnemonic name m) : name.toList ≠ [] := by
  intro hnil
  have := h.head
  rw [hnil] at this
  cases this

theorem isBlank_eq_false {name : String} {m : Mnemonic} (h : IsMnemonic name m) :
    ∀ c ∈ name.toList, isBlank c = false := by
  intro c hc
  have hchar := List.all_eq_true.mp h.chars c hc
  simp only [isMnemonicChar, Bool.or_eq_true, beq_iff_eq] at hchar
  rcases hchar with hlower | rfl
  · have := toNat_of_isLower hlower
    exact TileCore.isBlank_eq_false (by omega) (by omega)
  · decide

end IsMnemonic

theorem isMnemonic_alu (op : AluOp) : IsMnemonic op.name (.alu op) := by
  cases op <;> decide

theorem isMnemonic_immediate {op : AluOp} (h : op.immediateFunct?.isSome = true) :
    IsMnemonic op.immediateName (.aluImm op) := by
  cases op
  case sub | mul => cases h
  all_goals decide

theorem isMnemonic_branch (cond : Condition) : IsMnemonic cond.name (.branch cond) := by
  cases cond <;> decide

theorem isMnemonic_of_mem_keywords {name : String} {m : Mnemonic}
    (h : (name, m) ∈ Mnemonic.keywords) : IsMnemonic name m := by
  have hall : Mnemonic.keywords.all (fun entry => decide (IsMnemonic entry.1 entry.2)) = true := by
    decide
  exact of_decide_eq_true (List.all_eq_true.mp hall (name, m) h)

/-! ### Written instructions -/

section Written

variable {name : String} {m : Mnemonic} {ops : List Text}

/-- A written instruction is read by its mnemonic and its operands. -/
theorem readInstruction_instructionText (hm : IsMnemonic name m) (hops : ∀ op ∈ ops, IsOperand op)
    (hne : ops ≠ []) (labels : Labels) (pc : Word) :
    readInstruction labels pc (instructionText name ops) = m.read labels pc name.toList ops := by
  rw [readInstruction, Statement.ofText_instructionText hm.ne_nil hm.isBlank_eq_false hops hne,
    hm.folded]
  simp only [hm.selects]

theorem isTrimmed_instructionText (hm : IsMnemonic name m) (hops : ∀ op ∈ ops, IsOperand op)
    (hne : ops ≠ []) : IsTrimmed (instructionText name ops) := by
  obtain ⟨hrest, hrest₀⟩ := isTrimmed_intercalate hops hne
  rw [instructionText, List.append_cons]
  exact (isTrimmed_of_forall hm.isBlank_eq_false).append hrest hm.ne_nil hrest₀ [' ']

/-- A written instruction stands for itself. -/
theorem expand_instructionText (hm : IsMnemonic name m) (hops : ∀ op ∈ ops, IsOperand op)
    (hne : ops ≠ []) : expand (instructionText name ops) = .ok [instructionText name ops] := by
  rw [expand, Statement.ofText_instructionText hm.ne_nil hm.isBlank_eq_false hops hne, hm.folded]
  simp only [hm.noShorthand, (isTrimmed_instructionText hm hops hne).trim_eq]

end Written

/-! ### Listings -/

/-- A text of the characters of written operands. -/
structure IsPlain (s : Text) : Prop where
  /-- It is not empty. -/
  ne_nil : s ≠ []
  /-- It has no other characters. -/
  chars : ∀ c ∈ s, isOperandChar c = true

instance (s : Text) : Decidable (IsPlain s) :=
  decidable_of_iff (s ≠ [] ∧ ∀ c ∈ s, isOperandChar c = true)
    ⟨fun h => ⟨h.1, h.2⟩, fun h => ⟨h.ne_nil, h.chars⟩⟩

theorem IsPlain.isOperand {s : Text} (h : IsPlain s) : IsOperand s where
  ne_nil := h.ne_nil
  trimmed := isTrimmed_of_forall fun c hc => isBlank_of_isOperandChar (h.chars c hc)
  noComma := fun hc => absurd (h.chars ',' hc) (by decide)

theorem isPlain_scalarText (i : Nat) : IsPlain (scalarText i) :=
  ⟨List.cons_ne_nil _ _, isOperandChar_scalarText i⟩

theorem isPlain_tileRegisterText (i : Nat) : IsPlain (tileRegisterText i) :=
  ⟨List.cons_ne_nil _ _, isOperandChar_tileRegisterText i⟩

theorem isPlain_integerText (z : Int) : IsPlain (integerText z) :=
  ⟨integerText_ne_nil z, isOperandChar_integerText z⟩

theorem isPlain_addressText (imm : Int) (base : Nat) : IsPlain (addressText imm base) :=
  ⟨by simp [addressText], isOperandChar_addressText imm base⟩

namespace Instruction

/-- What the mnemonic of a listing selects. -/
def mnemonic : Instruction → Mnemonic
  | alu op .. => .alu op
  | aluImm op .. => .aluImm op
  | load .. => .load
  | store .. => .store
  | branch cond .. => .branch cond
  | lui .. => .lui
  | jal .. => .jal
  | jalr .. => .jalr
  | gemm .. => .gemm
  | tileLoad .. => .tileLoad
  | tileStore .. => .tileStore
  | halt => .halt

/-- The mnemonic of a listing. -/
def mnemonicText : Instruction → String
  | alu op .. => op.name
  | aluImm op .. => op.immediateName
  | load .. => "lw"
  | store .. => "sw"
  | branch cond .. => cond.name
  | lui .. => "lui"
  | jal .. => "jal"
  | jalr .. => "jalr"
  | gemm .. => "gemm"
  | tileLoad .. => "ld.m"
  | tileStore .. => "st.m"
  | halt => "halt"

/-- The operands of a listing. -/
def operandTexts : Instruction → List Text
  | alu _ rd rs1 rs2 => [scalarText rd, scalarText rs1, scalarText rs2]
  | aluImm _ rd rs1 imm => [scalarText rd, scalarText rs1, integerText imm]
  | load rd rs1 imm => [scalarText rd, addressText imm rs1]
  | store rs1 rs2 imm => [scalarText rs2, addressText imm rs1]
  | branch _ rs1 rs2 imm => [scalarText rs1, scalarText rs2, integerText imm]
  | lui rd imm => [scalarText rd, integerText imm]
  | jal rd imm => [scalarText rd, integerText imm]
  | jalr rd rs1 imm => [scalarText rd, scalarText rs1, integerText imm]
  | gemm rd ra rb rc =>
    [tileRegisterText rd, tileRegisterText ra, tileRegisterText rb, tileRegisterText rc]
  | tileLoad rd rs1 stride imm => [tileRegisterText rd, scalarText stride, addressText imm rs1]
  | tileStore rd rs1 stride imm => [tileRegisterText rd, scalarText stride, addressText imm rs1]
  | halt => []

end Instruction

theorem integerText_natCast (n : Nat) : integerText n = (toString n).toList := by
  rw [integerText_of_nonneg (Int.natCast_nonneg n), toList_toString, Int.toNat_natCast]

theorem listing_eq_instructionText {i : Instruction} (hi : i ≠ .halt) :
    i.listing = instructionText i.mnemonicText i.operandTexts := by
  cases i
  case halt => exact absurd rfl hi
  case lui rd imm => simp only [Instruction.listing, Instruction.mnemonicText,
    Instruction.operandTexts, integerText_natCast]
  all_goals rfl

theorem isMnemonic_mnemonicText {i : Instruction} (h : i.Fits) :
    IsMnemonic i.mnemonicText i.mnemonic := by
  cases i
  case alu op _ _ _ => exact isMnemonic_alu op
  case aluImm => exact isMnemonic_immediate h.1
  case branch cond _ _ _ => exact isMnemonic_branch cond
  all_goals
    apply isMnemonic_of_mem_keywords
    simp [Instruction.mnemonicText, Instruction.mnemonic, Mnemonic.keywords]

theorem operandTexts_ne_nil {i : Instruction} (hi : i ≠ .halt) : i.operandTexts ≠ [] := by
  cases i
  case halt => exact absurd rfl hi
  all_goals exact List.cons_ne_nil _ _

theorem isPlain_operandTexts (i : Instruction) : ∀ op ∈ i.operandTexts, IsPlain op := by
  cases i <;> simp [Instruction.operandTexts, isPlain_scalarText, isPlain_tileRegisterText,
    isPlain_integerText, isPlain_addressText]

/-! ### Checks of numbers -/

/-- A number that fits a field is small enough to be read. -/
theorem natAbs_le_of_fitsSigned {k : Nat} {z : Int} (hk : twoPow (k - 1) ≤ maxInt64)
    (h : FitsSigned k z) : z.natAbs ≤ maxInt64 := by
  obtain ⟨hlow, hhigh⟩ := h
  omega

theorem checkSigned_eq_ok {mnemonic : Text} {k : Nat} {z : Int} (h : FitsSigned k z) :
    checkSigned mnemonic k z = .ok z := by
  rw [checkSigned, if_pos h]

theorem checkUpper_natCast {mnemonic : Text} {n : Nat} (h : n ≤ 0xFFFFF) :
    checkUpper mnemonic n = .ok n := by
  rw [checkUpper, if_pos (by omega)]
  congr 1
  omega

theorem shiftOperand_integerText {z : Int} (h : 0 ≤ z ∧ z < 32) :
    shiftOperand (integerText z) = .ok z := by
  have hread : readImmediate? (integerText z) = some z :=
    readImmediate?_integerText (by rw [maxInt64]; omega)
  rw [shiftOperand, hread]
  exact if_pos ⟨h.1, by omega⟩

theorem resolveTarget_integerText (labels : Labels) (pc : Word) (mnemonic : Text) {k : Nat}
    {z : Int} (hk : twoPow (k - 1) ≤ maxInt64) (heven : z % 2 = 0) (h : FitsSigned k z) :
    resolveTarget labels pc mnemonic k (integerText z) = .ok z := by
  rw [resolveTarget, readImmediate?_integerText (natAbs_le_of_fitsSigned hk h)]
  change (if z % 2 = 0 then checkSigned mnemonic k z else _) = _
  rw [if_pos heven, checkSigned_eq_ok h]

/-! ### Instructions -/

/-- The operands of a listing are read back. -/
theorem read_operandTexts {i : Instruction} (h : i.Fits) (labels : Labels) (pc : Word)
    (name : Text) : i.mnemonic.read labels pc name i.operandTexts = .ok i := by
  have h12 {z : Int} (hz : FitsSigned 12 z) : z.natAbs ≤ maxInt64 :=
    natAbs_le_of_fitsSigned (by decide) hz
  have h11 {z : Int} (hz : FitsSigned 11 z) : z.natAbs ≤ maxInt64 :=
    natAbs_le_of_fitsSigned (by decide) hz
  cases i with
  | alu op rd rs1 rs2 =>
    obtain ⟨h2, h1, hd⟩ := h
    simp only [Instruction.mnemonic, Instruction.operandTexts, Mnemonic.read,
      scalarOperand_scalarText hd, scalarOperand_scalarText h1, scalarOperand_scalarText h2,
      Except.ok_bind]
    rfl
  | aluImm op rd rs1 imm =>
    obtain ⟨-, himm, h1, hd⟩ := h
    have hread : Mnemonic.immediateOperand labels name op (integerText imm) = .ok imm := by
      rw [Mnemonic.immediateOperand]
      split_ifs at himm ⊢ with hop
      · exact shiftOperand_integerText himm
      · rw [resolveImmediate_integerText labels (h12 himm)]
        exact checkSigned_eq_ok himm
    simp only [Instruction.mnemonic, Instruction.operandTexts, Mnemonic.read,
      scalarOperand_scalarText hd, scalarOperand_scalarText h1, hread, Except.ok_bind]
    rfl
  | load rd rs1 imm =>
    obtain ⟨himm, h1, hd⟩ := h
    simp only [Instruction.mnemonic, Instruction.operandTexts, Mnemonic.read,
      resolveAddress_addressText labels (h12 himm) h1, scalarOperand_scalarText hd,
      checkSigned_eq_ok himm, Except.ok_bind]
    rfl
  | store rs1 rs2 imm =>
    obtain ⟨himm, h2, h1⟩ := h
    simp only [Instruction.mnemonic, Instruction.operandTexts, Mnemonic.read,
      resolveAddress_addressText labels (h12 himm) h1, scalarOperand_scalarText h2,
      checkSigned_eq_ok himm, Except.ok_bind]
    rfl
  | branch cond rs1 rs2 imm =>
    obtain ⟨⟨heven, himm⟩, h2, h1⟩ := h
    simp only [Instruction.mnemonic, Instruction.operandTexts, Mnemonic.read,
      scalarOperand_scalarText h1, scalarOperand_scalarText h2,
      resolveTarget_integerText labels pc name (by decide) heven himm, Except.ok_bind]
    rfl
  | lui rd imm =>
    obtain ⟨himm, hd⟩ := h
    have hsmall : (imm : Int).natAbs ≤ maxInt64 := by
      rw [maxInt64]
      omega
    rw [Instruction.mnemonic, Instruction.operandTexts, Mnemonic.read,
      scalarOperand_scalarText hd, Except.ok_bind, resolveImmediate_integerText labels hsmall,
      Except.ok_bind, checkUpper_natCast himm]
    rfl
  | jal rd imm =>
    obtain ⟨⟨heven, himm⟩, hd⟩ := h
    simp only [Instruction.mnemonic, Instruction.operandTexts, Mnemonic.read,
      scalarOperand_scalarText hd,
      resolveTarget_integerText labels pc name (by decide) heven himm, Except.ok_bind]
    rfl
  | jalr rd rs1 imm =>
    obtain ⟨himm, h1, hd⟩ := h
    simp only [Instruction.mnemonic, Instruction.operandTexts, Mnemonic.read,
      scalarOperand_scalarText hd, scalarOperand_scalarText h1,
      resolveImmediate_integerText labels (h12 himm), checkSigned_eq_ok himm, Except.ok_bind]
    rfl
  | gemm rd ra rb rc =>
    obtain ⟨hd, ha, hb, hc⟩ := h
    simp only [Instruction.mnemonic, Instruction.operandTexts, Mnemonic.read,
      tileOperand_tileRegisterText hd, tileOperand_tileRegisterText ha,
      tileOperand_tileRegisterText hb, tileOperand_tileRegisterText hc, Except.ok_bind]
    rfl
  | tileLoad rd rs1 stride imm =>
    obtain ⟨hd, h1, hs, himm⟩ := h
    simp only [Instruction.mnemonic, Instruction.operandTexts, Mnemonic.read,
      resolveAddress_addressText labels (h11 himm) h1, tileOperand_tileRegisterText hd,
      scalarOperand_scalarText hs, checkSigned_eq_ok himm, Except.ok_bind]
    rfl
  | tileStore rd rs1 stride imm =>
    obtain ⟨hd, h1, hs, himm⟩ := h
    simp only [Instruction.mnemonic, Instruction.operandTexts, Mnemonic.read,
      resolveAddress_addressText labels (h11 himm) h1, tileOperand_tileRegisterText hd,
      scalarOperand_scalarText hs, checkSigned_eq_ok himm, Except.ok_bind]
    rfl
  | halt => rfl

/-- What is needed of the text of an instruction that stands on a line of its own. -/
structure IsListed (i : Instruction) (text : Text) : Prop where
  /-- It begins with a letter. -/
  head : text.head?.any Char.isLower = true
  /-- It has no other characters than those of mnemonics and operands and of what separates
  them. -/
  chars : ∀ c ∈ text, (isMnemonicChar c || isOperandChar c || c == ' ' || c == ',') = true
  /-- It has no blanks at its ends. -/
  trimmed : IsTrimmed text
  /-- It stands for itself. -/
  expand : expand text = .ok [text]
  /-- It is read back. -/
  read : ∀ labels pc, readInstruction labels pc text = .ok i

theorem isListed_instructionText {i : Instruction} (hi : i ≠ .halt) (h : i.Fits) :
    IsListed i (instructionText i.mnemonicText i.operandTexts) := by
  have hm := isMnemonic_mnemonicText h
  have hplain := isPlain_operandTexts i
  have hops : ∀ op ∈ i.operandTexts, IsOperand op := fun op hop => (hplain op hop).isOperand
  have hne := operandTexts_ne_nil hi
  refine ⟨?_, ?_, isTrimmed_instructionText hm hops hne, expand_instructionText hm hops hne, ?_⟩
  · have hhead := hm.head
    obtain ⟨c, s, hs⟩ := List.exists_cons_of_ne_nil hm.ne_nil
    rw [hs] at hhead
    rw [instructionText, hs]
    exact hhead
  · intro c hc
    rw [instructionText, List.mem_append, List.mem_cons] at hc
    rcases hc with hc | rfl | hc
    · simp [List.all_eq_true.mp hm.chars c hc]
    · decide
    · rcases mem_or_mem_of_mem_intercalate hc with hc | ⟨op, hop, hc⟩
      · have hsep : c = ',' ∨ c = ' ' := by simpa using hc
        rcases hsep with rfl | rfl <;> decide
      · simp [(hplain op hop).chars c hc]
  · intro labels pc
    rw [readInstruction_instructionText hm hops hne, read_operandTexts h]

/-- The listing of an instruction that has a word stands for itself and is read back. -/
theorem isListed_listing {i : Instruction} (h : i.Fits) : IsListed i i.listing := by
  by_cases hi : i = .halt
  · subst hi
    have hblank : ∀ c ∈ Instruction.halt.listing, isBlank c = false := by
      intro c hc
      have hnone : Instruction.halt.listing.all (fun c => !isBlank c) = true := by decide
      simpa using List.all_eq_true.mp hnone c hc
    exact ⟨by decide, List.all_eq_true.mp (by decide), isTrimmed_of_forall hblank, rfl,
      fun _ _ => rfl⟩
  · rw [listing_eq_instructionText hi]
    exact isListed_instructionText hi h

end TileCore

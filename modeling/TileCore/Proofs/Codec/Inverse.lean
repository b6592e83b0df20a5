import TileCore.Proofs.Codec.Fields

/-!
# Encoding and decoding are inverse to each other

Every form of instruction has a description of its words by their fields. The encoder gives a word
exactly if the word meets the description, and the decoder reads the instruction exactly off such
words. The range checks of the encoder leave no freedom: a register number, an immediate or an
offset passes its check exactly if it is the number that the bits of its field spell.

## Main definitions

* `Instruction.opcode`: the opcode in the words of an instruction.

## Main results

* `scalarField_eq_ok_iff`, `signedField_eq_ok_iff`, `offsetField_eq_ok_iff` and others: which
  operands pass their check.
* `decode_eq_ok_iff`: decoding is decoding by the opcode of the instruction.
* `encode_decode_inverse`: the two sides agree on every instruction and every word, and no two
  instructions share a word.
-/

namespace TileCore

theorem Except.ok_bind {ε α β : Type} (a : α) (f : α → Except ε β) :
    (Except.ok a >>= f) = f a :=
  rfl

theorem Except.bind_eq_ok_iff {ε α β : Type} {x : Except ε α} {f : α → Except ε β} {b : β} :
    (x >>= f) = .ok b ↔ ∃ a, x = .ok a ∧ f a = .ok b := by
  cases x <;> simp [bind, Except.bind]

theorem Except.bind_eq_error_iff {ε α β : Type} {x : Except ε α} {f : α → Except ε β} {e : ε} :
    (x >>= f) = .error e ↔ x = .error e ∨ ∃ a, x = .ok a ∧ f a = .error e := by
  cases x <;> simp [bind, Except.bind]

theorem Except.map_bind_right {ε α β γ : Type} (x : Except ε α) (f : α → Except ε β) (g : β → γ) :
    (x >>= f).map g = x >>= fun a => (f a).map g := by
  cases x <;> rfl

theorem Except.bind_map_left {ε α β γ : Type} (x : Except ε α) (f : α → β) (g : β → Except ε γ) :
    x.map f >>= g = x >>= fun a => g (f a) := by
  cases x <;> rfl

theorem Except.mapError_eq_ok_iff {ε ε' α : Type} {x : Except ε α} {f : ε → ε'} {a : α} :
    x.mapError f = .ok a ↔ x = .ok a := by
  cases x <;> simp [Except.mapError]

/-! ### Operands and their fields -/

theorem ofNat_eq_iff {k n : Nat} (h : n < twoPow k) {b : BitVec k} :
    BitVec.ofNat k n = b ↔ n = b.toNat := by
  rw [← BitVec.toNat_inj, BitVec.toNat_ofNat, Nat.mod_eq_of_lt (show n < 2 ^ k from h)]

theorem fitsSigned_toInt {k : Nat} (b : BitVec k) : FitsSigned k b.toInt := by
  have hlow := BitVec.le_toInt b
  have hhigh := BitVec.toInt_lt (x := b)
  constructor
  · exact_mod_cast hlow
  · exact Int.le_sub_one_of_lt (by exact_mod_cast hhigh)

theorem toInt_ofInt_of_fitsSigned {k : Nat} {z : Int} (hk : 0 < k) (h : FitsSigned k z) :
    (BitVec.ofInt k z).toInt = z := by
  obtain ⟨hlow, hhigh⟩ := h
  obtain ⟨k, rfl⟩ := Nat.exists_eq_succ_of_ne_zero (Nat.pos_iff_ne_zero.mp hk)
  have hsize : (2 : Nat) ^ (k + 1) = 2 * twoPow k := twoPow_succ k
  rw [Nat.succ_sub_one] at hlow hhigh
  rw [BitVec.toInt_ofInt, hsize]
  exact Int.bmod_eq_of_le (by omega) (by omega)

theorem ofInt_eq_iff {k : Nat} {z : Int} (hk : 0 < k) (h : FitsSigned k z) {b : BitVec k} :
    BitVec.ofInt k z = b ↔ z = b.toInt := by
  rw [← BitVec.toInt_inj, toInt_ofInt_of_fitsSigned hk h]

theorem scalarField_eq_ok_iff {n : Nat} {b : BitVec 5} : scalarField n = .ok b ↔ n = b.toNat := by
  rw [scalarField]
  split_ifs with h
  · rw [Except.ok.injEq, ofNat_eq_iff h]
  · exact ⟨nofun, fun e => absurd b.isLt (e ▸ h)⟩

theorem tileField_eq_ok_iff {n : Nat} {b : BitVec 4} : tileField n = .ok b ↔ n = b.toNat := by
  rw [tileField]
  split_ifs with h
  · rw [Except.ok.injEq, ofNat_eq_iff h]
  · exact ⟨nofun, fun e => absurd b.isLt (e ▸ h)⟩

theorem upperField_eq_ok_iff {n : Nat} {b : BitVec 20} : upperField n = .ok b ↔ n = b.toNat := by
  rw [upperField]
  split_ifs with h
  · rw [Except.ok.injEq, ofNat_eq_iff (Nat.lt_succ_of_le h)]
  · exact ⟨nofun, fun e => absurd (Nat.le_of_lt_succ b.isLt) (e ▸ h)⟩

theorem signedField_eq_ok_iff {k : Nat} {z : Int} {b : BitVec k} (hk : 0 < k) :
    signedField k z = .ok b ↔ z = b.toInt := by
  rw [signedField]
  split_ifs with h
  · rw [Except.ok.injEq, ofInt_eq_iff hk h]
  · exact ⟨nofun, fun e => absurd (fitsSigned_toInt b) (e ▸ h)⟩

theorem shiftField_eq_ok_iff {z : Int} {b : BitVec 5} : shiftField z = .ok b ↔ z = b.toNat := by
  rw [shiftField]
  split_ifs with h
  · obtain ⟨n, rfl⟩ := Int.eq_ofNat_of_zero_le h.1
    rw [Except.ok.injEq, Int.ofNat_inj]
    exact ofNat_eq_iff (k := 5) (Int.ofNat_lt.mp h.2)
  · refine ⟨nofun, ?_⟩
    rintro rfl
    exact absurd ⟨Int.natCast_nonneg _, Int.ofNat_lt.mpr b.isLt⟩ h

/-- A number in two's complement is even exactly if its lowest bit is zero. -/
theorem toInt_emod_two_eq_zero_iff {n : Nat} (b : BitVec (n + 1)) :
    b.toInt % 2 = 0 ↔ 0#1 = b.extractLsb' 0 1 := by
  have hsize : (2 : Nat) ^ (n + 1) = 2 * twoPow n := twoPow_succ n
  have hparity : b.toInt % 2 = (b.toNat % 2 : Nat) := by
    rw [BitVec.toInt_eq_toNat_cond, hsize]
    split_ifs <;> omega
  have hbit : (b.extractLsb' 0 1).toNat = b.toNat % 2 := by simp
  rw [hparity, ← BitVec.toNat_inj, hbit]
  simp only [BitVec.toNat_ofNat]
  omega

/-- An offset passes its check if it is even and fits, that is if it is the number spelled by the
bits of its field with a zero behind them. -/
theorem offsetField_eq_ok_iff {n : Nat} {z : Int} {v : BitVec n} :
    (∃ b : BitVec (n + 1), offsetField (n + 1) z = .ok b ∧ b.extractLsb' 1 n = v) ↔
      z = (v ++ 0#1).toInt := by
  constructor
  · rintro ⟨b, hb, rfl⟩
    rw [offsetField] at hb
    split_ifs at hb with heven
    rw [signedField_eq_ok_iff (Nat.succ_pos n)] at hb
    subst hb
    rw [(append_eq_iff _ _ b).mpr ⟨rfl, (toInt_emod_two_eq_zero_iff b).mp heven⟩]
  · intro hz
    have hparts := (append_eq_iff v 0#1 (v ++ 0#1)).mp rfl
    refine ⟨v ++ 0#1, ?_, hparts.1.symm⟩
    have heven : z % 2 = 0 := by
      rw [hz, toInt_emod_two_eq_zero_iff]
      exact hparts.2
    rw [offsetField, if_pos heven, signedField_eq_ok_iff (Nat.succ_pos n)]
    exact hz

/-! ### Operations and their numbers -/

theorem AluOp.ofFunct?_eq_some_iff {funct7 funct3 : Nat} {op : AluOp} :
    AluOp.ofFunct? funct7 funct3 = some op ↔ op.funct = (funct7, funct3) := by
  constructor
  · intro h
    simpa using List.find?_some h
  · intro h
    rw [← AluOp.ofFunct?_funct op, h]

theorem Condition.ofFunct?_eq_some_iff {funct3 : Nat} {cond : Condition} :
    Condition.ofFunct? funct3 = some cond ↔ cond.funct = funct3 := by
  constructor
  · intro h
    simpa using List.find?_some h
  · rintro rfl
    exact Condition.ofFunct?_funct cond

theorem Opcode.ofCode?_eq_some_iff {n : Nat} {o : Opcode} :
    Opcode.ofCode? n = some o ↔ o.code.toNat = n := by
  constructor
  · intro h
    simpa using List.find?_some h
  · rintro rfl
    exact Opcode.ofCode?_code o

/-- The `funct7` field of the immediate form of a shift. -/
def AluOp.shiftFunct (op : AluOp) : Nat := if op = .sra then arithmeticFunct else 0

theorem AluOp.ofImmediateFunct?_eq_some_iff {funct3 : Nat} {op : AluOp} :
    AluOp.ofImmediateFunct? funct3 = some op ↔
      op ≠ .sra ∧ op.immediateFunct? = some funct3 := by
  constructor
  · intro h
    simpa using List.find?_some h
  · rintro ⟨hop, h⟩
    cases op <;> simp_all [AluOp.immediateFunct?] <;> subst h <;> rfl

/-- The operation of an immediate form is the one with its `funct3` field, and for a shift also
with its `funct7` field. -/
theorem decodeImmediateOp?_eq_some_iff {bits : BitSeq} {op : AluOp} :
    decodeImmediateOp? bits = some op ↔
      op.immediateFunct? = some (Field.funct3 bits) ∧
        (op.isShift = true → Field.funct7 bits = op.shiftFunct) := by
  constructor
  · intro h
    rw [decodeImmediateOp?] at h
    -- The three shifts are told apart by `funct7`; any other operation is read from `funct3` alone.
    split at h
    case h_1 hop =>
      split_ifs at h with h7
      cases h
      exact ⟨(AluOp.ofImmediateFunct?_eq_some_iff.mp hop).2, fun _ => h7⟩
    case h_2 hop =>
      have hfunct := (AluOp.ofImmediateFunct?_eq_some_iff.mp hop).2
      split_ifs at h with h7 h7'
      · cases h
        exact ⟨hfunct, fun _ => h7⟩
      · cases h
        exact ⟨hfunct, fun _ => h7'⟩
    case h_3 hsll hsrl =>
      obtain ⟨hsra, hfunct⟩ := AluOp.ofImmediateFunct?_eq_some_iff.mp h
      refine ⟨hfunct, fun hshift => ?_⟩
      cases op <;> simp_all [AluOp.isShift]
  · rintro ⟨hfunct, hshift⟩
    have hread (op' : AluOp) (hop : op' ≠ .sra) (h : op'.immediateFunct? = op.immediateFunct?) :
        AluOp.ofImmediateFunct? (Field.funct3 bits) = some op' :=
      AluOp.ofImmediateFunct?_eq_some_iff.mpr ⟨hop, h.trans hfunct⟩
    rw [decodeImmediateOp?]
    cases op
    case sra =>
      rw [hread .srl (by decide) rfl]
      simp [hshift rfl, AluOp.shiftFunct, arithmeticFunct]
    case sll | srl =>
      rw [hread _ (by decide) rfl]
      simp [hshift rfl, AluOp.shiftFunct]
    case sub | mul => cases hfunct
    all_goals rw [hread _ (by decide) rfl]

/-! ### Instructions and their words -/

/-- The opcode in the words of an instruction. -/
def Instruction.opcode : Instruction → Opcode
  | alu .. => .register
  | aluImm .. => .immediate
  | load .. => .load
  | store .. => .store
  | branch .. => .branch
  | lui .. => .lui
  | jal .. => .jal
  | jalr .. => .jalr
  | gemm .. => .gemm
  | tileLoad .. => .tileLoad
  | tileStore .. => .tileStore
  | halt => .halt

theorem opcode_of_decodeAs {bits : BitSeq} {o : Opcode} {i : Instruction}
    (h : decodeAs bits o = .ok i) : i.opcode = o := by
  cases o <;> simp only [decodeAs] at h
  case lui | jal | tileLoad | tileStore =>
    cases h
    rfl
  case halt => cases h
  all_goals
    split at h <;> cases h
    rfl

/-- Decoding is decoding by the opcode of the instruction, which has to stand in the word. -/
theorem decode_eq_ok_iff {w : Word} {i : Instruction} (hi : i ≠ .halt) :
    decode w = .ok i ↔
      i.opcode.code = w.opcode ∧ decodeAs (BitSeq.ofWord w) i.opcode = .ok i := by
  have hcode (o : Opcode) : Opcode.ofCode? w.opcode.toNat = some o ↔ o.code = w.opcode := by
    rw [Opcode.ofCode?_eq_some_iff, BitVec.toNat_inj]
  rw [decode]
  split_ifs with hw
  · subst hw
    refine ⟨fun h => absurd (Except.ok.inj h).symm hi, fun ⟨ho, hd⟩ => ?_⟩
    have hhalt : i.opcode = .halt := Option.some.inj (((hcode _).mpr ho).symm.trans rfl)
    rw [hhalt] at hd
    cases hd
  · simp only [Field.opcode_ofWord]
    cases ho : Opcode.ofCode? w.opcode.toNat with
    | none =>
      refine ⟨nofun, fun ⟨h, _⟩ => ?_⟩
      rw [(hcode _).mpr h] at ho
      cases ho
    | some o =>
      change Except.mapError _ (decodeAs (BitSeq.ofWord w) o) = .ok i ↔ _
      rw [Except.mapError_eq_ok_iff]
      constructor
      · intro h
        obtain rfl := opcode_of_decodeAs h
        exact ⟨(hcode _).mp ho, h⟩
      · rintro ⟨h, hd⟩
        rwa [Option.some.inj (ho.symm.trans ((hcode _).mpr h))]

/-! ### One form of instruction after the other -/

variable {w : Word} {rd rs1 rs2 stride : Nat} {imm : Int}

theorem encode_alu_iff {op : AluOp} :
    (Instruction.alu op rd rs1 rs2).encode = .ok w ↔
      Opcode.register.code = w.opcode ∧
        decodeAs (BitSeq.ofWord w) .register = .ok (.alu op rd rs1 rs2) := by
  have h7 : BitVec.ofNat 7 op.funct.1 = w.funct7 ↔ op.funct.1 = w.funct7.toNat :=
    ofNat_eq_iff (by cases op <;> decide)
  have h3 : BitVec.ofNat 3 op.funct.2 = w.funct3 ↔ op.funct.2 = w.funct3.toNat :=
    ofNat_eq_iff (by cases op <;> decide)
  simp only [Instruction.encode, Except.bind_eq_ok_iff, scalarField_eq_ok_iff, pure, Except.pure,
    Except.ok.injEq, WordForm.r_eq_iff, h7, h3]
  simp only [decodeAs, Field.funct7_ofWord, Field.funct3_ofWord, Field.rd_ofWord, Field.rs1_ofWord,
    Field.rs2_ofWord]
  constructor
  · rintro ⟨_, rfl, _, rfl, _, rfl, hf7, rfl, rfl, hf3, rfl, ho⟩
    have hop : AluOp.ofFunct? w.funct7.toNat w.funct3.toNat = some op :=
      AluOp.ofFunct?_eq_some_iff.mpr (Prod.ext hf7 hf3)
    rw [hop]
    exact ⟨ho, rfl⟩
  · rintro ⟨ho, h⟩
    split at h <;> cases h
    next hop =>
      have hf := AluOp.ofFunct?_eq_some_iff.mp hop
      exact ⟨_, rfl, _, rfl, _, rfl, congrArg Prod.fst hf, rfl, rfl, congrArg Prod.snd hf, rfl, ho⟩

theorem immediateFunctField_eq_ok_iff {op : AluOp} {b : BitVec 3} :
    immediateFunctField op = .ok b ↔ op.immediateFunct? = some b.toNat := by
  rw [immediateFunctField]
  cases h : op.immediateFunct? with
  | none => exact ⟨nofun, nofun⟩
  | some f =>
    have hf : f < twoPow 3 := by cases op <;> cases h <;> decide
    rw [Except.ok.injEq, Option.some.injEq, ofNat_eq_iff hf]

/-- The `funct7` field that the encoder writes for a shift. -/
theorem shiftFunct_field (op : AluOp) {b : BitVec 7} :
    (if op = .sra then BitVec.ofNat 7 arithmeticFunct else 0) = b ↔ b.toNat = op.shiftFunct := by
  rw [AluOp.shiftFunct, eq_comm, ← BitVec.toNat_inj]
  split_ifs <;> rfl

theorem encode_aluImm_iff {op : AluOp} :
    (Instruction.aluImm op rd rs1 imm).encode = .ok w ↔
      Opcode.immediate.code = w.opcode ∧
        decodeAs (BitSeq.ofWord w) .immediate = .ok (.aluImm op rd rs1 imm) := by
  have hdecode : decodeAs (BitSeq.ofWord w) .immediate = .ok (.aluImm op rd rs1 imm) ↔
      decodeImmediateOp? (BitSeq.ofWord w) = some op ∧ rd = w.rd.toNat ∧ rs1 = w.rs1.toNat ∧
        imm = if op.isShift then (w.rs2.toNat : Int) else w.immI.toInt := by
    simp only [decodeAs, Field.rd_ofWord, Field.rs1_ofWord, Field.rs2_ofWord, Field.immI_ofWord]
    constructor
    · intro h
      split at h <;> cases h
      next hop => exact ⟨hop, rfl, rfl, rfl⟩
    · rintro ⟨hop, rfl, rfl, rfl⟩
      rw [hop]
  rw [hdecode, decodeImmediateOp?_eq_some_iff, Field.funct3_ofWord, Field.funct7_ofWord]
  simp only [Instruction.encode, Instruction.encodeImmediate, Except.bind_eq_ok_iff,
    immediateFunctField_eq_ok_iff, pure, Except.pure]
  -- A shift takes the register layout with the amount in the place of `rs2`.
  cases hshift : op.isShift with
  | true =>
    simp only [↓reduceIte, Except.bind_eq_ok_iff, shiftField_eq_ok_iff, scalarField_eq_ok_iff,
      Except.ok.injEq, WordForm.r_eq_iff, shiftFunct_field, forall_const]
    constructor
    · rintro ⟨_, hf3, _, rfl, _, rfl, _, rfl, hf7, rfl, rfl, rfl, rfl, ho⟩
      exact ⟨ho, ⟨hf3, hf7⟩, rfl, rfl, rfl⟩
    · rintro ⟨ho, ⟨hf3, hf7⟩, rfl, rfl, rfl⟩
      exact ⟨_, hf3, _, rfl, _, rfl, _, rfl, hf7, rfl, rfl, rfl, rfl, ho⟩
  | false =>
    simp only [Bool.false_eq_true, ↓reduceIte, Except.bind_eq_ok_iff,
      signedField_eq_ok_iff (show 0 < 12 by decide), scalarField_eq_ok_iff, Except.ok.injEq,
      WordForm.i_eq_iff, false_imp_iff, and_true]
    constructor
    · rintro ⟨_, hf3, _, rfl, _, rfl, _, rfl, rfl, rfl, rfl, rfl, ho⟩
      exact ⟨ho, hf3, rfl, rfl, rfl⟩
    · rintro ⟨ho, hf3, rfl, rfl, rfl⟩
      exact ⟨_, hf3, _, rfl, _, rfl, _, rfl, rfl, rfl, rfl, rfl, ho⟩

theorem encode_load_iff :
    (Instruction.load rd rs1 imm).encode = .ok w ↔
      Opcode.load.code = w.opcode ∧
        decodeAs (BitSeq.ofWord w) .load = .ok (.load rd rs1 imm) := by
  have h3 : BitVec.ofNat 3 wordFunct = w.funct3 ↔ wordFunct = w.funct3.toNat :=
    ofNat_eq_iff (by decide)
  simp only [Instruction.encode, Except.bind_eq_ok_iff, scalarField_eq_ok_iff,
    signedField_eq_ok_iff (show 0 < 12 by decide), pure, Except.pure, Except.ok.injEq,
    WordForm.i_eq_iff, h3]
  simp only [decodeAs, Field.funct3_ofWord, Field.rd_ofWord, Field.rs1_ofWord, Field.immI_ofWord]
  constructor
  · rintro ⟨_, rfl, _, rfl, _, rfl, rfl, rfl, hf3, rfl, ho⟩
    rw [if_pos hf3.symm]
    exact ⟨ho, rfl⟩
  · rintro ⟨ho, h⟩
    split_ifs at h with hf3
    cases h
    exact ⟨_, rfl, _, rfl, _, rfl, rfl, rfl, hf3.symm, rfl, ho⟩

theorem encode_store_iff :
    (Instruction.store rs1 rs2 imm).encode = .ok w ↔
      Opcode.store.code = w.opcode ∧
        decodeAs (BitSeq.ofWord w) .store = .ok (.store rs1 rs2 imm) := by
  have h3 : BitVec.ofNat 3 wordFunct = w.funct3 ↔ wordFunct = w.funct3.toNat :=
    ofNat_eq_iff (by decide)
  simp only [Instruction.encode, Except.bind_eq_ok_iff, scalarField_eq_ok_iff,
    signedField_eq_ok_iff (show 0 < 12 by decide), pure, Except.pure, Except.ok.injEq,
    WordForm.s_eq_iff, h3]
  simp only [decodeAs, Field.funct3_ofWord, Field.rs1_ofWord, Field.rs2_ofWord, Field.immS_ofWord]
  constructor
  · rintro ⟨_, rfl, _, rfl, _, rfl, rfl, rfl, rfl, hf3, ho⟩
    rw [if_pos hf3.symm]
    exact ⟨ho, rfl⟩
  · rintro ⟨ho, h⟩
    split_ifs at h with hf3
    cases h
    exact ⟨_, rfl, _, rfl, _, rfl, rfl, rfl, rfl, hf3.symm, ho⟩

theorem encode_branch_iff {cond : Condition} :
    (Instruction.branch cond rs1 rs2 imm).encode = .ok w ↔
      Opcode.branch.code = w.opcode ∧
        decodeAs (BitSeq.ofWord w) .branch = .ok (.branch cond rs1 rs2 imm) := by
  have h3 : BitVec.ofNat 3 cond.funct = w.funct3 ↔ cond.funct = w.funct3.toNat :=
    ofNat_eq_iff (by cases cond <;> decide)
  simp only [Instruction.encode, Except.bind_eq_ok_iff, scalarField_eq_ok_iff, pure, Except.pure,
    Except.ok.injEq, WordForm.b_eq_iff, h3]
  simp only [decodeAs, Field.funct3_ofWord, Field.rs1_ofWord, Field.rs2_ofWord, Field.immB_ofWord]
  constructor
  · rintro ⟨b, hb, _, rfl, _, rfl, himm, rfl, rfl, hf3, ho⟩
    rw [Condition.ofFunct?_eq_some_iff.mpr hf3, offsetField_eq_ok_iff.mp ⟨b, hb, himm⟩]
    exact ⟨ho, rfl⟩
  · rintro ⟨ho, h⟩
    split at h <;> cases h
    next hcond =>
      obtain ⟨b, hb, himm⟩ := offsetField_eq_ok_iff.mpr (rfl : (w.immB ++ 0#1).toInt = _)
      have hf3 := Condition.ofFunct?_eq_some_iff.mp hcond
      exact ⟨b, hb, _, rfl, _, rfl, himm, rfl, rfl, hf3, ho⟩

theorem encode_lui_iff {imm : Nat} :
    (Instruction.lui rd imm).encode = .ok w ↔
      Opcode.lui.code = w.opcode ∧ decodeAs (BitSeq.ofWord w) .lui = .ok (.lui rd imm) := by
  simp only [Instruction.encode, Except.bind_eq_ok_iff, scalarField_eq_ok_iff,
    upperField_eq_ok_iff, pure, Except.pure, Except.ok.injEq, WordForm.u_eq_iff]
  simp only [decodeAs, Field.rd_ofWord, Field.immU_ofWord, Except.ok.injEq,
    Instruction.lui.injEq]
  constructor
  · rintro ⟨_, rfl, _, rfl, rfl, rfl, ho⟩
    exact ⟨ho, rfl, rfl⟩
  · rintro ⟨ho, rfl, rfl⟩
    exact ⟨_, rfl, _, rfl, rfl, rfl, ho⟩

theorem encode_jal_iff :
    (Instruction.jal rd imm).encode = .ok w ↔
      Opcode.jal.code = w.opcode ∧ decodeAs (BitSeq.ofWord w) .jal = .ok (.jal rd imm) := by
  simp only [Instruction.encode, Except.bind_eq_ok_iff, scalarField_eq_ok_iff, pure, Except.pure,
    Except.ok.injEq, WordForm.j_eq_iff]
  simp only [decodeAs, Field.rd_ofWord, Field.immJ_ofWord, Except.ok.injEq,
    Instruction.jal.injEq]
  constructor
  · rintro ⟨b, hb, _, rfl, himm, rfl, ho⟩
    exact ⟨ho, rfl, (offsetField_eq_ok_iff.mp ⟨b, hb, himm⟩).symm⟩
  · rintro ⟨ho, rfl, h⟩
    obtain ⟨b, hb, himm⟩ := offsetField_eq_ok_iff.mpr h.symm
    exact ⟨b, hb, _, rfl, himm, rfl, ho⟩

theorem encode_jalr_iff :
    (Instruction.jalr rd rs1 imm).encode = .ok w ↔
      Opcode.jalr.code = w.opcode ∧
        decodeAs (BitSeq.ofWord w) .jalr = .ok (.jalr rd rs1 imm) := by
  have h3 : 0 = w.funct3 ↔ w.funct3.toNat = 0 := by
    rw [eq_comm]
    exact BitVec.toNat_eq
  simp only [Instruction.encode, Except.bind_eq_ok_iff, scalarField_eq_ok_iff,
    signedField_eq_ok_iff (show 0 < 12 by decide), pure, Except.pure, Except.ok.injEq,
    WordForm.i_eq_iff, h3]
  simp only [decodeAs, Field.funct3_ofWord, Field.rd_ofWord, Field.rs1_ofWord, Field.immI_ofWord]
  constructor
  · rintro ⟨_, rfl, _, rfl, _, rfl, rfl, rfl, hf3, rfl, ho⟩
    rw [if_pos hf3]
    exact ⟨ho, rfl⟩
  · rintro ⟨ho, h⟩
    split_ifs at h with hf3
    cases h
    exact ⟨_, rfl, _, rfl, _, rfl, rfl, rfl, hf3, rfl, ho⟩

theorem reserved_eq_zero_iff :
    0#9 = w.reserved ↔ ((BitSeq.ofWord w).slice 7 15).any id = false := by
  rw [Field.slice_ofWord w (by decide)]
  change 0#9 = w.reserved ↔ (BitSeq.ofBitVec w.reserved).any id = false
  rw [eq_comm, BitSeq.any_ofBitVec]

theorem encode_gemm_iff {ra rb rc : Nat} :
    (Instruction.gemm rd ra rb rc).encode = .ok w ↔
      Opcode.gemm.code = w.opcode ∧
        decodeAs (BitSeq.ofWord w) .gemm = .ok (.gemm rd ra rb rc) := by
  simp only [Instruction.encode, Except.bind_eq_ok_iff, tileField_eq_ok_iff, pure, Except.pure,
    Except.ok.injEq, WordForm.gemm_eq_iff, reserved_eq_zero_iff]
  simp only [decodeAs, Field.tileRd_ofWord, Field.tileRa_ofWord, Field.tileRb_ofWord,
    Field.tileRc_ofWord]
  constructor
  · rintro ⟨_, rfl, _, rfl, _, rfl, _, rfl, rfl, rfl, rfl, rfl, hgap, ho⟩
    rw [hgap]
    exact ⟨ho, rfl⟩
  · rintro ⟨ho, h⟩
    split_ifs at h with hgap
    cases h
    exact ⟨_, rfl, _, rfl, _, rfl, _, rfl, rfl, rfl, rfl, rfl, eq_false_of_ne_true hgap, ho⟩

/-- Tile loads and stores share their layout and differ in the opcode. -/
theorem encodeTile_eq_ok_iff {o : Opcode} :
    Instruction.encodeTile o rd rs1 stride imm = .ok w ↔
      o.code = w.opcode ∧ rd = w.tileRd.toNat ∧ rs1 = w.tileBase.toNat ∧
        stride = w.tileStride.toNat ∧ imm = w.immT.toInt := by
  simp only [Instruction.encodeTile, Except.bind_eq_ok_iff, tileField_eq_ok_iff,
    scalarField_eq_ok_iff, signedField_eq_ok_iff (show 0 < 11 by decide), pure, Except.pure,
    Except.ok.injEq, WordForm.tile_eq_iff]
  constructor
  · rintro ⟨_, rfl, _, rfl, _, rfl, _, rfl, rfl, rfl, rfl, rfl, ho⟩
    exact ⟨ho, rfl, rfl, rfl, rfl⟩
  · rintro ⟨ho, rfl, rfl, rfl, rfl⟩
    exact ⟨_, rfl, _, rfl, _, rfl, _, rfl, rfl, rfl, rfl, rfl, ho⟩

theorem encode_tileLoad_iff :
    (Instruction.tileLoad rd rs1 stride imm).encode = .ok w ↔
      Opcode.tileLoad.code = w.opcode ∧
        decodeAs (BitSeq.ofWord w) .tileLoad = .ok (.tileLoad rd rs1 stride imm) := by
  rw [Instruction.encode, encodeTile_eq_ok_iff]
  simp only [decodeAs, Field.tileRd_ofWord, Field.tileBase_ofWord, Field.tileStride_ofWord,
    Field.immT_ofWord, Except.ok.injEq, Instruction.tileLoad.injEq]
  simp only [eq_comm]

theorem encode_tileStore_iff :
    (Instruction.tileStore rd rs1 stride imm).encode = .ok w ↔
      Opcode.tileStore.code = w.opcode ∧
        decodeAs (BitSeq.ofWord w) .tileStore = .ok (.tileStore rd rs1 stride imm) := by
  rw [Instruction.encode, encodeTile_eq_ok_iff]
  simp only [decodeAs, Field.tileRd_ofWord, Field.tileBase_ofWord, Field.tileStride_ofWord,
    Field.immT_ofWord, Except.ok.injEq, Instruction.tileStore.injEq]
  simp only [eq_comm]

theorem encode_halt_iff : Instruction.halt.encode = .ok w ↔ decode w = .ok .halt := by
  change Except.ok haltWord = .ok w ↔ _
  rw [Except.ok.injEq, decode]
  split_ifs with hw
  · simp [hw]
  · refine ⟨fun h => absurd h.symm hw, fun h => ?_⟩
    simp only at h
    split at h
    · cases h
    · next o _ =>
      rw [Except.mapError_eq_ok_iff] at h
      obtain rfl : Opcode.halt = o := opcode_of_decodeAs h
      cases h

/-! ### All instructions -/

/-- Encoding an instruction gives a word exactly if decoding the word gives the instruction. -/
theorem Instruction.encode_eq_ok_iff {i : Instruction} {w : Word} :
    i.encode = .ok w ↔ decode w = .ok i := by
  by_cases hi : i = .halt
  · subst hi
    exact encode_halt_iff
  · rw [decode_eq_ok_iff hi]
    cases i with
    | halt => exact absurd rfl hi
    | alu => exact encode_alu_iff
    | aluImm => exact encode_aluImm_iff
    | load => exact encode_load_iff
    | store => exact encode_store_iff
    | branch => exact encode_branch_iff
    | lui => exact encode_lui_iff
    | jal => exact encode_jal_iff
    | jalr => exact encode_jalr_iff
    | gemm => exact encode_gemm_iff
    | tileLoad => exact encode_tileLoad_iff
    | tileStore => exact encode_tileStore_iff

/-- The encoder and the decoder are inverse to each other: every encodable instruction is read back
from its word, every decodable word is the word of what is read, and no two instructions share a
word. -/
theorem encode_decode_inverse :
    (∀ (i : Instruction) (w : Word), i.encode = .ok w ↔ decode w = .ok i) ∧
      ∀ (i j : Instruction) (w : Word), i.encode = .ok w → j.encode = .ok w → i = j := by
  refine ⟨fun i w => Instruction.encode_eq_ok_iff, fun i j w hi hj => ?_⟩
  rw [Instruction.encode_eq_ok_iff] at hi hj
  exact Except.ok.inj (hi.symm.trans hj)

end TileCore

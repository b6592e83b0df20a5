import TileCore.Proofs.Codec.Inverse

/-!
# Decoding by arithmetic

The layouts of the instruction words are tables of positions: a register number or a function field
is what is left of the word, as a number, after a division and a remainder by powers of two, and an
immediate is one such number or several of them side by side, read in two's complement. A decoder
can be written down from these tables and the tables of operations without taking the word apart
into bits. It is the decoder of the machine: on every word the two give the same instruction, or
refuse the word for the same reason.

## Main definitions

* `FormatTable.cut`, `FormatTable.joined`, `FormatTable.signed`: fields of a number.
* `FormatTable.opcode?`, `FormatTable.registerOp?`, `FormatTable.immediateOp?`,
  `FormatTable.condition?`: what the opcode and the function fields stand for.
* `FormatTable.read`: the instruction of a word, as a number, with a given opcode.
* `decodeByTable`: the instruction of a word.

## Main results

* `Field.number_eq_cut`, `FormatTable.value_slice`: slices of bits are cuts of the number.
* `decodeAs_eq_read`: the instruction with a given opcode.
* `decode_eq_decodeByTable`: the instruction of a word.
-/

namespace TileCore

namespace FormatTable

/-! ### Fields -/

/-- The bits from `lo` to `hi` of a number, as a number. -/
def cut (n lo hi : Nat) : Nat := n / twoPow lo % twoPow (hi + 1 - lo)

/-- Several stretches of bits of a number side by side, the lowest first. -/
def joined (n : Nat) : List (Nat × Nat) → Nat
  | [] => 0
  | (lo, hi) :: stretches => cut n lo hi + twoPow (hi + 1 - lo) * joined n stretches

/-- A number of `width` bits read in two's complement. -/
def signed (width n : Nat) : Int :=
  if n < twoPow (width - 1) then n else (n : Int) - twoPow width

/-! ### Tables -/

/-- The instruction format that the low seven bits select. -/
def opcode? : Nat → Option Opcode
  | 0b0110011 => some .register
  | 0b0010011 => some .immediate
  | 0b0000011 => some .load
  | 0b0100011 => some .store
  | 0b1100011 => some .branch
  | 0b0110111 => some .lui
  | 0b1101111 => some .jal
  | 0b1100111 => some .jalr
  | 0b1000111 => some .tileLoad
  | 0b1010111 => some .tileStore
  | 0b1110111 => some .gemm
  | 0b1111111 => some .halt
  | _ => none

/-- The operation of the register form with the given `funct7` and `funct3`. -/
def registerOp? : Nat → Nat → Option AluOp
  | 0x00, 0 => some .add
  | 0x20, 0 => some .sub
  | 0x01, 0 => some .mul
  | 0x00, 1 => some .sll
  | 0x00, 2 => some .slt
  | 0x00, 3 => some .sltu
  | 0x00, 4 => some .xor
  | 0x00, 5 => some .srl
  | 0x20, 5 => some .sra
  | 0x00, 6 => some .or
  | 0x00, 7 => some .and
  | _, _ => none

/-- The operation of the immediate form with the given `funct7` and `funct3`; only the shifts look
at `funct7`. -/
def immediateOp? (funct7 : Nat) : Nat → Option AluOp
  | 0 => some .add
  | 1 => if funct7 = 0 then some .sll else none
  | 2 => some .slt
  | 3 => some .sltu
  | 4 => some .xor
  | 5 => if funct7 = 0 then some .srl else if funct7 = 0x20 then some .sra else none
  | 6 => some .or
  | 7 => some .and
  | _ => none

/-- The condition of a branch with the given `funct3`. -/
def condition? : Nat → Option Condition
  | 0 => some .beq
  | 1 => some .bne
  | 4 => some .blt
  | 5 => some .bge
  | _ => none

/-- The instruction of a word, given as a number, with the opcode. -/
def read (n : Nat) : Opcode → Except Malformation Instruction
  | .register =>
    match registerOp? (cut n 25 31) (cut n 12 14) with
    | some op => .ok (.alu op (cut n 7 11) (cut n 15 19) (cut n 20 24))
    | none => .error .registerFunct
  | .immediate =>
    match immediateOp? (cut n 25 31) (cut n 12 14) with
    | some op =>
      let imm : Int :=
        if cut n 12 14 = 1 ∨ cut n 12 14 = 5 then cut n 20 24 else signed 12 (cut n 20 31)
      .ok (.aluImm op (cut n 7 11) (cut n 15 19) imm)
    | none => .error .immediateFunct
  | .load =>
    if cut n 12 14 = 2 then
      .ok (.load (cut n 7 11) (cut n 15 19) (signed 12 (cut n 20 31)))
    else .error .loadWidth
  | .store =>
    if cut n 12 14 = 2 then
      .ok (.store (cut n 15 19) (cut n 20 24) (signed 12 (joined n [(7, 11), (25, 31)])))
    else .error .storeWidth
  | .branch =>
    match condition? (cut n 12 14) with
    | some cond =>
      .ok (.branch cond (cut n 15 19) (cut n 20 24)
        (signed 13 (2 * joined n [(8, 11), (25, 30), (7, 7), (31, 31)])))
    | none => .error .condition
  | .lui => .ok (.lui (cut n 7 11) (cut n 12 31))
  | .jal =>
    .ok (.jal (cut n 7 11) (signed 21 (2 * joined n [(21, 30), (20, 20), (12, 19), (31, 31)])))
  | .jalr =>
    if cut n 12 14 = 0 then
      .ok (.jalr (cut n 7 11) (cut n 15 19) (signed 12 (cut n 20 31)))
    else .error .jumpFunct
  | .gemm =>
    if cut n 7 15 = 0 then
      .ok (.gemm (cut n 28 31) (cut n 24 27) (cut n 20 23) (cut n 16 19))
    else .error .reservedBits
  | .tileLoad =>
    .ok (.tileLoad (cut n 28 31) (cut n 23 27) (cut n 18 22) (signed 11 (cut n 7 17)))
  | .tileStore =>
    .ok (.tileStore (cut n 28 31) (cut n 23 27) (cut n 18 22) (signed 11 (cut n 7 17)))
  | .halt => .error .haltOpcode

end FormatTable

/-- The instruction of a word by the tables: the halt word is the only one without fields, and any
other word is looked at by its remainder by 128. -/
def decodeByTable (w : Word) : Except DecodeError Instruction :=
  if w.toNat = 0xFFFFFFFF then .ok .halt
  else
    match FormatTable.opcode? (w.toNat % 128) with
    | none => .error (.unknownOpcode w (w.toNat % 128))
    | some o => (FormatTable.read w.toNat o).mapError (.malformed w)

/-! ### Slices are cuts -/

namespace FormatTable

theorem value_slice (w : Word) {lo hi : Nat} (hhi : hi < 32) :
    BitSeq.value ((BitSeq.ofWord w).slice lo hi) = cut w.toNat lo hi := by
  rw [Field.slice_ofWord w hhi, BitSeq.value_ofBitVec, BitVec.extractLsb'_toNat,
    Nat.shiftRight_eq_div_pow]
  rfl

theorem length_slice (w : Word) {lo hi : Nat} (hhi : hi < 32) :
    ((BitSeq.ofWord w).slice lo hi).length = hi + 1 - lo := by
  rw [Field.slice_ofWord w hhi, BitSeq.length_ofBitVec]

/-- Slices that follow each other spell their stretches side by side. -/
theorem value_slices (w : Word) (stretches : List (Nat × Nat)) (h : ∀ s ∈ stretches, s.2 < 32) :
    BitSeq.value (stretches.flatMap fun s => (BitSeq.ofWord w).slice s.1 s.2) =
      joined w.toNat stretches := by
  induction stretches with
  | nil => rfl
  | cons s stretches ih =>
    obtain ⟨hs, hrest⟩ := List.forall_mem_cons.mp h
    rw [List.flatMap_cons, BitSeq.value_append, value_slice w hs, length_slice w hs, ih hrest]
    rfl

/-- Bits in two's complement are read by their number and their value alone. -/
theorem signedValue_of_length {bits : BitSeq} {width : Nat} (hlength : bits.length = width)
    (hwidth : 0 < width) : bits.signedValue = signed width bits.value := by
  have hne : bits ≠ [] := by
    rw [← List.length_pos_iff, hlength]
    exact hwidth
  rw [BitSeq.signedValue_eq hne, hlength]
  rfl

end FormatTable

open FormatTable

namespace Field

variable (w : Word)

theorem number_eq_cut {lo hi : Nat} (hlo : lo ≤ hi) (hhi : hi < 32) :
    number (BitSeq.ofWord w) lo hi = cut w.toNat lo hi := by
  rw [number_ofWord w hlo hhi, ← value_slice w hhi, slice_ofWord w hhi, BitSeq.value_ofBitVec]

theorem opcode_eq_mod : opcode (BitSeq.ofWord w) = w.toNat % 128 := by
  rw [opcode, number_eq_cut w (by decide) (by decide), cut, twoPow_zero, Nat.div_one]
  rfl

theorem immI_eq_signed : immI (BitSeq.ofWord w) = signed 12 (cut w.toNat 20 31) := by
  rw [immI, signedValue_of_length (length_slice w (by decide)) (by decide),
    value_slice w (by decide)]

theorem immT_eq_signed : immT (BitSeq.ofWord w) = signed 11 (cut w.toNat 7 17) := by
  rw [immT, signedValue_of_length (length_slice w (by decide)) (by decide),
    value_slice w (by decide)]

theorem immS_eq_signed :
    immS (BitSeq.ofWord w) = signed 12 (joined w.toNat [(7, 11), (25, 31)]) := by
  have hvalue := value_slices w [(7, 11), (25, 31)] (by decide)
  simp only [List.flatMap_cons, List.flatMap_nil, List.append_nil] at hvalue
  rw [immS, signedValue_of_length (show _ = 12 by simp [length_slice]) (by decide), hvalue]

theorem immB_eq_signed :
    immB (BitSeq.ofWord w) =
      signed 13 (2 * joined w.toNat [(8, 11), (25, 30), (7, 7), (31, 31)]) := by
  have hvalue := value_slices w [(8, 11), (25, 30), (7, 7), (31, 31)] (by decide)
  simp only [List.flatMap_cons, List.flatMap_nil, List.append_nil] at hvalue
  rw [immB, signedValue_of_length (show _ = 13 by simp [length_slice]) (by decide)]
  simp only [List.cons_append, List.append_assoc, BitSeq.value_false_cons, hvalue]

theorem immJ_eq_signed :
    immJ (BitSeq.ofWord w) =
      signed 21 (2 * joined w.toNat [(21, 30), (20, 20), (12, 19), (31, 31)]) := by
  have hvalue := value_slices w [(21, 30), (20, 20), (12, 19), (31, 31)] (by decide)
  simp only [List.flatMap_cons, List.flatMap_nil, List.append_nil] at hvalue
  rw [immJ, signedValue_of_length (show _ = 21 by simp [length_slice]) (by decide)]
  simp only [List.cons_append, List.append_assoc, BitSeq.value_false_cons, hvalue]

end Field

/-! ### Tables -/

theorem AluOp.ofFunct?_eq_registerOp? (funct7 funct3 : Nat) :
    AluOp.ofFunct? funct7 funct3 = registerOp? funct7 funct3 := by
  cases h : AluOp.ofFunct? funct7 funct3 with
  | some op =>
    have hfunct := AluOp.ofFunct?_eq_some_iff.mp h
    cases op <;> cases hfunct <;> rfl
  | none =>
    unfold registerOp?
    split
    case h_12 => rfl
    all_goals cases h

theorem Condition.ofFunct?_eq_condition? (funct3 : Nat) :
    Condition.ofFunct? funct3 = condition? funct3 := by
  cases h : Condition.ofFunct? funct3 with
  | some cond =>
    have hfunct := Condition.ofFunct?_eq_some_iff.mp h
    cases cond <;> cases hfunct <;> rfl
  | none =>
    unfold condition?
    split
    case h_5 => rfl
    all_goals cases h

theorem Opcode.ofCode?_eq_opcode? (n : Nat) : Opcode.ofCode? n = opcode? n := by
  cases h : Opcode.ofCode? n with
  | some o =>
    have hcode := Opcode.ofCode?_eq_some_iff.mp h
    cases o <;> cases hcode <;> rfl
  | none =>
    unfold opcode?
    split
    case h_13 => rfl
    all_goals cases h

/-- Only a shift looks at `funct7`. -/
theorem decodeImmediateOp?_eq_immediateOp? (bits : BitSeq) :
    decodeImmediateOp? bits = immediateOp? (Field.funct7 bits) (Field.funct3 bits) := by
  rw [decodeImmediateOp?]
  generalize Field.funct3 bits = funct3
  cases h : AluOp.ofImmediateFunct? funct3 with
  | some op =>
    obtain ⟨hsra, hfunct⟩ := AluOp.ofImmediateFunct?_eq_some_iff.mp h
    cases op
    case sra => exact absurd rfl hsra
    all_goals cases hfunct <;> rfl
  | none =>
    change none = immediateOp? _ funct3
    unfold immediateOp?
    split
    case h_9 => rfl
    all_goals cases h

/-- The shifts are the operations with two of the `funct3`. -/
theorem isShift_iff_of_immediateOp? {funct7 funct3 : Nat} {op : AluOp}
    (h : immediateOp? funct7 funct3 = some op) :
    op.isShift = true ↔ funct3 = 1 ∨ funct3 = 5 := by
  unfold immediateOp? at h
  split at h
  case h_2 | h_6 =>
    split_ifs at h <;> cases h <;> simp [AluOp.isShift]
  all_goals cases h <;> simp [AluOp.isShift]

theorem any_slice_eq_false_iff (w : Word) {lo hi : Nat} (hhi : hi < 32) :
    ((BitSeq.ofWord w).slice lo hi).any id = false ↔ cut w.toNat lo hi = 0 := by
  rw [← value_slice w hhi, Field.slice_ofWord w hhi, BitSeq.any_ofBitVec, BitSeq.value_ofBitVec,
    ← BitVec.toNat_inj]
  rfl

/-! ### Instructions -/

section Formats

variable (w : Word)

theorem decodeAs_register :
    decodeAs (BitSeq.ofWord w) .register = FormatTable.read w.toNat .register := by
  cases h : registerOp? (cut w.toNat 25 31) (cut w.toNat 12 14) with
  | some op | none =>
    simp (disch := decide) only [decodeAs, FormatTable.read, Field.funct7, Field.funct3, Field.rd,
      Field.rs1, Field.rs2, Field.number_eq_cut, AluOp.ofFunct?_eq_registerOp?, h]

theorem decodeAs_immediate :
    decodeAs (BitSeq.ofWord w) .immediate = FormatTable.read w.toNat .immediate := by
  have hop : decodeImmediateOp? (BitSeq.ofWord w) =
      immediateOp? (cut w.toNat 25 31) (cut w.toNat 12 14) := by
    rw [decodeImmediateOp?_eq_immediateOp?, Field.funct7, Field.funct3,
      Field.number_eq_cut w (by decide) (by decide), Field.number_eq_cut w (by decide) (by decide)]
  cases h : immediateOp? (cut w.toNat 25 31) (cut w.toNat 12 14) with
  | none => simp only [decodeAs, FormatTable.read, hop, h]
  | some op =>
    simp (disch := decide) only [decodeAs, FormatTable.read, Field.rd, Field.rs1, Field.rs2,
      Field.number_eq_cut, hop, Field.immI_eq_signed, h, isShift_iff_of_immediateOp? h]

theorem decodeAs_branch :
    decodeAs (BitSeq.ofWord w) .branch = FormatTable.read w.toNat .branch := by
  cases h : condition? (cut w.toNat 12 14) with
  | some cond | none =>
    simp (disch := decide) only [decodeAs, FormatTable.read, Field.funct3, Field.rs1, Field.rs2,
      Field.number_eq_cut, Condition.ofFunct?_eq_condition?, Field.immB_eq_signed, h]

theorem decodeAs_gemm :
    decodeAs (BitSeq.ofWord w) .gemm = FormatTable.read w.toNat .gemm := by
  have hreserved : ((BitSeq.ofWord w).slice 7 15).any id = false ↔ cut w.toNat 7 15 = 0 :=
    any_slice_eq_false_iff w (by decide)
  simp (disch := decide) only [decodeAs, FormatTable.read, Field.number_eq_cut]
  by_cases h : cut w.toNat 7 15 = 0
  · rw [if_pos h, if_neg (Bool.eq_false_iff.mp (hreserved.mpr h))]
  · rw [if_neg h, if_pos (eq_true_of_ne_false fun hany => h (hreserved.mp hany))]

/-- With a given opcode the bits of a word and its number spell the same instruction. -/
theorem decodeAs_eq_read (o : Opcode) :
    decodeAs (BitSeq.ofWord w) o = FormatTable.read w.toNat o := by
  cases o
  case register => exact decodeAs_register w
  case immediate => exact decodeAs_immediate w
  case branch => exact decodeAs_branch w
  case gemm => exact decodeAs_gemm w
  all_goals
    simp (disch := decide) only [decodeAs, FormatTable.read, wordFunct, Field.funct3, Field.rd,
      Field.rs1, Field.rs2, Field.immU, Field.number_eq_cut, Field.immI_eq_signed,
      Field.immS_eq_signed, Field.immJ_eq_signed, Field.immT_eq_signed]

end Formats

/-- On every word the decoder agrees with the decoder by the tables. -/
theorem decode_eq_decodeByTable (w : Word) : decode w = decodeByTable w := by
  have hhalt : w = haltWord ↔ w.toNat = 0xFFFFFFFF := BitVec.toNat_inj.symm
  cases h : opcode? (w.toNat % 128) with
  | none | some o =>
    simp only [decode, decodeByTable, hhalt, Field.opcode_eq_mod, Opcode.ofCode?_eq_opcode?,
      decodeAs_eq_read, h]

example : decodeByTable 0xFE029EE3 = .ok (.branch .bne 5 0 (-4)) := rfl

end TileCore

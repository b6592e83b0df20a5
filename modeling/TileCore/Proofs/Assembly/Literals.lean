import TileCore.Proofs.Assembly.Targets

/-!
# Literals and addresses in registers

A number of any width that fits a word, and the address of a label, can be put into a register by a
shorthand. A small number takes one addition to zero; any other takes its upper part and the
addition of its lower part, where the rounding of the upper part makes up for the sign of the lower
one. What the shorthand leaves as text is read again, so each part has to come back from its digits.

## Main definitions

* `Program.Puts`: some words of a program put a value into a register and do nothing else.

## Main results

* `upperPart_add_lowerPart`: the two parts of a number make it up again.
* `literals_and_addresses`: what the shorthands for literals and addresses do.
-/

namespace TileCore

open Text

/-! ### Upper and lower parts -/

theorem lowerPart_eq (z : Int) :
    lowerPart z = if z % 0x1000 < 0x800 then z % 0x1000 else z % 0x1000 - 0x1000 := by
  rw [lowerPart, Int.bmod_def]
  rfl

theorem upperPart_mem (z : Int) : 0 ≤ upperPart z ∧ upperPart z < 0x100000 := by
  rw [upperPart]
  omega

theorem lowerPart_mem (z : Int) : -0x800 ≤ lowerPart z ∧ lowerPart z ≤ 0x7FF := by
  rw [lowerPart_eq]
  split <;> omega

/-- The two parts of a number make it up again, as far as a word can tell. -/
theorem upperPart_add_lowerPart (z : Int) :
    (upperPart z * 0x1000 + lowerPart z) % 0x100000000 = z % 0x100000000 := by
  rw [lowerPart_eq, upperPart]
  split <;> omega

theorem fitsSigned_lowerPart (z : Int) : FitsSigned 12 (lowerPart z) := by
  obtain ⟨hlow, hhigh⟩ := lowerPart_mem z
  exact ⟨hlow, hhigh⟩

/-- The two parts of a number, put together in a register. -/
theorem shiftLeft_upperPart_add (z : Int) :
    (BitVec.ofNat 32 (upperPart z).toNat <<< 12) + BitVec.ofInt 32 (lowerPart z) =
      BitVec.ofInt 32 z := by
  have hsum := upperPart_add_lowerPart z
  obtain ⟨hlow, hhigh⟩ := upperPart_mem z
  apply BitVec.eq_of_toNat_eq
  rw [BitVec.toNat_add, BitVec.toNat_shiftLeft, BitVec.toNat_ofNat, BitVec.toNat_ofInt,
    BitVec.toNat_ofInt, Nat.shiftLeft_eq]
  omega

theorem ofInt_bmod (z : Int) : BitVec.ofInt 32 (z.bmod 0x100000000) = BitVec.ofInt 32 z := by
  apply BitVec.eq_of_toInt_eq
  rw [BitVec.toInt_ofInt, BitVec.toInt_ofInt]
  exact Int.bmod_bmod

/-! ### Reading the two instructions -/

section Reading

variable {labels : Labels} {pc : Word} {d : Nat} {rd : Text}

theorem readInstruction_lui {upper : Text} {u : Int} (hrd : IsOperand rd) (hupper : IsOperand upper)
    (hd : scalarOperand rd = .ok d) (hu : resolveImmediate labels upper = .ok u)
    (hrange : 0 ≤ u ∧ u < 0x100000) :
    readInstruction labels pc (instructionText "lui" [rd, upper]) = .ok (.lui d u.toNat) := by
  obtain ⟨n, rfl⟩ := Int.eq_ofNat_of_zero_le hrange.1
  have hops : ∀ op ∈ [rd, upper], IsOperand op := by simp [hrd, hupper]
  rw [readInstruction_instructionText (m := .lui) (isMnemonic_of_mem_keywords (by decide)) hops
    (List.cons_ne_nil _ _), Mnemonic.read, hd, Except.ok_bind, hu, Except.ok_bind,
    checkUpper_natCast (by omega)]
  rfl

theorem readInstruction_addi {rs imm : Text} {s : Nat} {z : Int} (hrd : IsOperand rd)
    (hrs : IsOperand rs) (himm : IsOperand imm) (hd : scalarOperand rd = .ok d)
    (hs : scalarOperand rs = .ok s) (hz : resolveImmediate labels imm = .ok z)
    (hfits : FitsSigned 12 z) :
    readInstruction labels pc (instructionText "addi" [rd, rs, imm]) =
      .ok (.aluImm .add d s z) := by
  have hform : AluOp.add.immediateFunct?.isSome = true := rfl
  have hm : IsMnemonic "addi" (.aluImm .add) := isMnemonic_immediate hform
  have hops : ∀ op ∈ [rd, rs, imm], IsOperand op := by simp [hrd, hrs, himm]
  have himm' : Mnemonic.immediateOperand labels "addi".toList .add imm = .ok z := by
    rw [Mnemonic.immediateOperand, if_neg (by decide), hz, Except.ok_bind, checkSigned_eq_ok hfits]
  rw [readInstruction_instructionText hm hops (List.cons_ne_nil _ _), Mnemonic.read, hd,
    Except.ok_bind, hs, Except.ok_bind, himm']
  rfl

end Reading

/-! ### Words that put a value into a register -/

/-- The `n` words from place `k` on put a value into a register and change nothing else. -/
def Program.Puts (p : Program) (k n rd : Nat) (v : Word) : Prop :=
  ∀ r m, m.Holds p.code → r.pc = BitVec.ofNat 32 (4 * k) →
    Machine.after n ⟨r, m⟩ = some ⟨(r.poke rd v).goto (BitVec.ofNat 32 (4 * (k + n))), m⟩

theorem ne_nil_of_ofText {text name : Text} {ops : List Text}
    (h : Statement.ofText text = ⟨name, ops⟩) (hname : name ≠ []) : text ≠ [] := by
  rintro rfl
  exact hname (congrArg Statement.mnemonic h).symm

section Lines

variable {source : Text} {p : Program} {l : Layout} {j : Nat} {line : SourceLine} {rd : Text}
  {d : Nat}

/-- A line that becomes one addition to zero puts a small number into a register. -/
theorem puts_of_addi {imm : Text} {z : Int}
    (h : Assembled source l p) (hj : (sourceLines source)[j]? = some line)
    (htexts : line.codeTexts (Position.before (sourceLines source) j).region =
      [instructionText "addi" [rd, "x0".toList, imm]])
    (hrd : IsOperand rd) (himm : IsOperand imm) (hd : scalarOperand rd = .ok d) (hne : d ≠ 0)
    (hz : resolveImmediate l.labels imm = .ok z) (hfits : FitsSigned 12 z) :
    (Position.before (sourceLines source) (j + 1)).words =
        (Position.before (sourceLines source) j).words + 1 ∧
      p.Puts (Position.before (sourceLines source) j).words 1 d (BitVec.ofInt 32 z) := by
  have hzero : IsOperand "x0".toList := IsPlain.isOperand (by decide)
  obtain ⟨w, i, hw, hread, hdecode⟩ :=
    exists_word_of_line (i := 0) h hj (by rw [htexts]; rfl)
  rw [readInstruction_addi hrd hzero himm hd rfl hz hfits] at hread
  cases hread
  refine ⟨?_, fun r m hm hpc => Machine.after_one_of_addi hm hpc hw hdecode hne⟩
  rw [Position.before_succ hj, Position.advance, htexts]
  rfl

/-- A line that becomes the two parts of a number puts the number into a register. -/
theorem puts_of_lui_addi {upper lower : Text} {z : Int}
    (h : Assembled source l p) (hj : (sourceLines source)[j]? = some line)
    (htexts : line.codeTexts (Position.before (sourceLines source) j).region =
      [instructionText "lui" [rd, upper], instructionText "addi" [rd, rd, lower]])
    (hrd : IsOperand rd) (hupper : IsOperand upper) (hlower : IsOperand lower)
    (hd : scalarOperand rd = .ok d) (hne : d ≠ 0)
    (hhi : resolveImmediate l.labels upper = .ok (upperPart z))
    (hlo : resolveImmediate l.labels lower = .ok (lowerPart z)) :
    (Position.before (sourceLines source) (j + 1)).words =
        (Position.before (sourceLines source) j).words + 2 ∧
      p.Puts (Position.before (sourceLines source) j).words 2 d (BitVec.ofInt 32 z) := by
  obtain ⟨w, i, hw, hread, hdecode⟩ :=
    exists_word_of_line (i := 0) h hj (by rw [htexts]; rfl)
  obtain ⟨w', i', hw', hread', hdecode'⟩ :=
    exists_word_of_line (i := 1) h hj (by rw [htexts]; rfl)
  rw [readInstruction_lui hrd hupper hd hhi (upperPart_mem z)] at hread
  rw [readInstruction_addi hrd hrd hlower hd hd hlo (fitsSigned_lowerPart z)] at hread'
  cases hread
  cases hread'
  refine ⟨?_, fun r m hm hpc => ?_⟩
  · rw [Position.before_succ hj, Position.advance, htexts]
    rfl
  · rw [Machine.after_two_of_lui_addi hm hpc hw hw' hdecode hdecode' hne,
      shiftLeft_upperPart_add]

/-- A literal is put into a register by one word or two. -/
theorem puts_of_li {imm : Text} {z : Int}
    (h : Assembled source l p) (hj : (sourceLines source)[j]? = some line)
    (hregion : (Position.before (sourceLines source) j).region = .code)
    (hs : Statement.ofText line.statement = ⟨"li".toList, [rd, imm]⟩)
    (hd : readRegister? rd = some d) (hne : d ≠ 0) (hz : readImmediate? imm = some z)
    (hrange : -0x80000000 ≤ z ∧ z < 0x100000000) :
    ∃ n, (n = 1 ∨ n = 2) ∧
      (Position.before (sourceLines source) (j + 1)).words =
        (Position.before (sourceLines source) j).words + n ∧
      p.Puts (Position.before (sourceLines source) j).words n d (BitVec.ofInt 32 z) := by
  have hrd : IsOperand rd := isOperand_of_ofText hs rd List.mem_cons_self
  have hd' : scalarOperand rd = .ok d := by rw [scalarOperand, hd]
  have hexpand : expand line.statement = expandLiteral rd imm := by
    rw [expand, hs]
    rfl
  rw [expandLiteral, hz] at hexpand
  simp only [if_pos hrange] at hexpand
  rw [← ofInt_bmod z]
  split_ifs at hexpand with hfits
  · have htexts := SourceLine.codeTexts_of_expand (ne_nil_of_ofText hs (by decide)) hexpand
    rw [← hregion] at htexts
    exact ⟨1, .inl rfl, puts_of_addi h hj htexts hrd (isPlain_integerText _).isOperand hd'
      hne (resolveImmediate_integerText l.labels (natAbs_le_of_fitsSigned (by decide) hfits))
      hfits⟩
  · have htexts := SourceLine.codeTexts_of_expand (ne_nil_of_ofText hs (by decide)) hexpand
    rw [← hregion] at htexts
    have hhi : (upperPart (z.bmod 0x100000000)).natAbs ≤ maxInt64 := by
      have := upperPart_mem (z.bmod 0x100000000)
      rw [maxInt64]
      omega
    have hlo : (lowerPart (z.bmod 0x100000000)).natAbs ≤ maxInt64 :=
      natAbs_le_of_fitsSigned (by decide) (fitsSigned_lowerPart _)
    exact ⟨2, .inr rfl, puts_of_lui_addi h hj htexts hrd (isPlain_integerText _).isOperand
      (isPlain_integerText _).isOperand hd' hne (resolveImmediate_integerText l.labels hhi)
      (resolveImmediate_integerText l.labels hlo)⟩

/-- The address of a label is put into a register by two words. -/
theorem puts_of_la {label : Text} {addr : Word}
    (h : Assembled source l p) (hj : (sourceLines source)[j]? = some line)
    (hregion : (Position.before (sourceLines source) j).region = .code)
    (hs : Statement.ofText line.statement = ⟨"la".toList, [rd, label]⟩)
    (hd : readRegister? rd = some d) (hne : d ≠ 0) (hlabel : isLabel label = true)
    (haddr : l.labels.lookup label = some addr) :
    (Position.before (sourceLines source) (j + 1)).words =
        (Position.before (sourceLines source) j).words + 2 ∧
      p.Puts (Position.before (sourceLines source) j).words 2 d addr := by
  have hrd : IsOperand rd := isOperand_of_ofText hs rd List.mem_cons_self
  have hop : IsOperand label :=
    isOperand_of_ofText hs label (List.mem_cons_of_mem _ List.mem_cons_self)
  have hd' : scalarOperand rd = .ok d := by rw [scalarOperand, hd]
  have hexpand : expand line.statement =
      .ok [instructionText "lui" [rd, "%hi(".toList ++ label ++ [')']],
        instructionText "addi" [rd, rd, "%lo(".toList ++ label ++ [')']]] := by
    rw [expand, hs]
    rfl
  have htexts := SourceLine.codeTexts_of_expand (ne_nil_of_ofText hs (by decide)) hexpand
  rw [← hregion] at htexts
  rw [← ofInt_toNat addr]
  exact puts_of_lui_addi h hj htexts hrd
    (hop.marked (by decide)) (hop.marked (by decide)) hd' hne
    (resolveImmediate_hi hlabel haddr) (resolveImmediate_lo hlabel haddr)

end Lines

/-- The shorthand for a literal puts any number that fits a word, with a sign or without one, into
any register but register zero, and the shorthand for an address does so with the address of a
label. Nothing else changes but the program counter, which comes to stand behind the words of the
line. The parts in which a number is handed over fit their fields and make the number up again. -/
theorem literals_and_addresses {source : Text} {p : Program} (h : assemble source = .ok p) :
    (∀ j line rd imm d z, (sourceLines source)[j]? = some line →
      (Position.before (sourceLines source) j).region = .code →
      Statement.ofText line.statement = ⟨"li".toList, [rd, imm]⟩ →
      readRegister? rd = some d → d ≠ 0 → readImmediate? imm = some z →
      -0x80000000 ≤ z ∧ z < 0x100000000 →
      ∃ n, (n = 1 ∨ n = 2) ∧
        (Position.before (sourceLines source) (j + 1)).words =
          (Position.before (sourceLines source) j).words + n ∧
        p.Puts (Position.before (sourceLines source) j).words n d (BitVec.ofInt 32 z)) ∧
    (∀ j line rd label d j' line', (sourceLines source)[j]? = some line →
      (Position.before (sourceLines source) j).region = .code →
      Statement.ofText line.statement = ⟨"la".toList, [rd, label]⟩ →
      readRegister? rd = some d → d ≠ 0 →
      (sourceLines source)[j']? = some line' → line'.label? = some label →
      (Position.before (sourceLines source) (j + 1)).words =
          (Position.before (sourceLines source) j).words + 2 ∧
        p.Puts (Position.before (sourceLines source) j).words 2 d
          (Position.before (sourceLines source) j').address) ∧
    ∀ z : Int, 0 ≤ upperPart z ∧ upperPart z < 0x100000 ∧ -0x800 ≤ lowerPart z ∧
      lowerPart z ≤ 0x7FF ∧
      (upperPart z * 0x1000 + lowerPart z) % 0x100000000 = z % 0x100000000 := by
  obtain ⟨l, hl⟩ := assemble_eq_ok_iff.mp h
  refine ⟨?_, ?_, fun z => ?_⟩
  · intro j line rd imm d z hj hregion hs hd hne hz hrange
    exact puts_of_li hl hj hregion hs hd hne hz hrange
  · intro j line rd label d j' line' hj hregion hs hd hne hj' hlabel'
    obtain ⟨hlabel, haddr⟩ := Layout.lookup_label hl.placeAll hj' hlabel'
    exact puts_of_la hl hj hregion hs hd hne hlabel haddr
  · obtain ⟨hhi, hhi'⟩ := upperPart_mem z
    obtain ⟨hlo, hlo'⟩ := lowerPart_mem z
    exact ⟨hhi, hhi', hlo, hlo', upperPart_add_lowerPart z⟩

/-- A number whose upper part is rounded up, and the address of a number. -/
def literalSource : Text :=
  "li t0, 0x12345FFF\nla a0, value\nhalt\n.data\nvalue: .word 7".toList

/-- The program of the two. -/
def literalProgram : Program where
  code := [0x123462B7, 0xFFF28293, 0x00000537, 0x20050513, 0xFFFFFFFF]
  data := [7, 0, 0, 0]
  dataBase := 0x200

theorem literals_and_addresses_of_values :
    assemble literalSource = .ok literalProgram ∧
      (Memory.ofImage literalProgram.image 0).Holds literalProgram.code ∧
        literalProgram.Puts 0 2 5 0x12345FFF ∧ literalProgram.Puts 2 2 10 0x200 := by
  have hp : assemble literalSource = .ok literalProgram := by decide +kernel
  have hlines : sourceLines literalSource =
      [⟨1, "li t0, 0x12345FFF".toList⟩, ⟨2, "la a0, value".toList⟩, ⟨3, "halt".toList⟩,
        ⟨4, ".data".toList⟩, ⟨5, "value: .word 7".toList⟩] := by decide +kernel
  obtain ⟨hli, hla, -⟩ := literals_and_addresses hp
  rw [hlines] at hli hla
  refine ⟨hp, Memory.holds_iff.mpr (by decide +kernel), ?_, ?_⟩
  · obtain ⟨n, -, hwords, hputs⟩ := hli 0 _ "t0".toList "0x12345FFF".toList 5 0x12345FFF rfl
      (by decide +kernel) (by decide +kernel) (by decide +kernel) (by decide) (by decide +kernel)
      (by decide)
    have hn : n = 2 := Nat.add_left_cancel (hwords.symm.trans (by decide +kernel))
    rw [hn] at hputs
    exact hputs
  · obtain ⟨-, hputs⟩ := hla 1 _ "a0".toList "value".toList 10 4 _ rfl (by decide +kernel)
      (by decide +kernel) (by decide +kernel) (by decide) rfl (by decide +kernel)
    exact hputs

end TileCore

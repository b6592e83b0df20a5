import TileCore.Proofs.Assembly.Addresses
import TileCore.Proofs.Assembly.Checks
import TileCore.Proofs.Assembly.Correspondence
import TileCore.Proofs.Assembly.ReadBack

/-!
# Operands that name the same registers

A scalar register goes by its number and by one or two names that tell its use, and neither letter
case matters. Which operands of a statement are registers depends on the mnemonic, and an operand
that looks like a register may be a label elsewhere; so the operands of each mnemonic are sorted
into kinds. Where an operand names a register, or an address has it as its base, any other name of
this register is read in its place. A shorthand hands its operands on to instructions in which they
are of the same kind.

## Main definitions

* `spellingsOf`, `SameRegister`: the names of a scalar register.
* `OperandKind`, `Shorthand.operandKinds`, `Mnemonic.operandKinds`: what operands are.
* `OperandKind.Renames`, `OfKinds`: operands with other names of the same registers.

## Main results

* `SameRegister.exists_readRegister?`: other names of a register are read as this register.
* `Mnemonic.read_eq_of_renames`: instructions with such operands are the same.
* `Shorthand.exists_expand_of_renames`: shorthands with such operands stand for the same.
-/

namespace TileCore

open Text

/-! ### Names of registers -/

/-- The names of a scalar register: its number and what its use is called. -/
def spellingsOf (r : Nat) : List Text :=
  scalarText r :: (registerNames.filter fun entry => entry.2 == r).map fun entry => entry.1.toList

/-- An operand names a scalar register, and another one names it in other letters or by any of its
names. -/
inductive SameRegister (s t : Text) : Prop
  /-- The letters differ in their case. -/
  | letters {r : Nat} (register : readRegister? s = some r) (letters : SameLetters s t)
  /-- The name is another one of this register, in either letter case. -/
  | name {r : Nat} {name : Text} (register : readRegister? s = some r)
      (mem : name ∈ spellingsOf r) (letters : SameLetters name (trim t))

theorem readRegister?_of_mem_spellingsOf {r : Nat} {name : Text} (hr : r < scalarCount)
    (h : name ∈ spellingsOf r) : readRegister? name = some r := by
  rcases List.mem_cons.mp h with rfl | h
  · exact readRegister?_scalarText hr
  · obtain ⟨entry, hentry, rfl⟩ := List.mem_map.mp h
    obtain ⟨hmem, hnumber⟩ := List.mem_filter.mp hentry
    have hall : ∀ entry ∈ registerNames, readRegister? entry.1.toList = some entry.2 := by decide
    rw [hall entry hmem, beq_iff_eq.mp hnumber]

section Letters

variable {s t : Text}

theorem readRegister?_of_sameLetters (h : SameLetters (trim s) (trim t)) :
    readRegister? s = readRegister? t := by
  simp only [readRegister?, h.lowercase_eq]

theorem readTile?_of_sameLetters (h : SameLetters s t) : readTile? s = readTile? t := by
  simp only [readTile?, h.trim.lowercase_eq]

/-- Other names of a register are read as this register. -/
theorem SameRegister.exists_readRegister? (h : SameRegister s t) :
    ∃ r, readRegister? s = some r ∧ readRegister? t = some r := by
  cases h with
  | letters hs hletters =>
    exact ⟨_, hs, (readRegister?_of_sameLetters hletters.trim).symm.trans hs⟩
  | name hs hmem hletters =>
    have hname := readRegister?_of_mem_spellingsOf (lt_of_readRegister? hs) hmem
    refine ⟨_, hs, ?_⟩
    rw [← hname]
    refine readRegister?_of_sameLetters ?_
    rw [← trim_trim t]
    exact hletters.symm.trim

end Letters

/-! ### Kinds of operands -/

/-- What an operand is. -/
inductive OperandKind
  | scalar | tile | address | other
  deriving DecidableEq

/-- What the operands of a shorthand are, for every number of operands that it takes. -/
def Shorthand.operandKinds : Shorthand → List (List OperandKind)
  | nop | ret => [[]]
  | push | pop | jr => [[.scalar]]
  | j | call => [[.other]]
  | li | la | beqz | bnez => [[.scalar, .other]]
  | mov => [[.scalar, .scalar], [.scalar, .scalar, .scalar]]
  | mv => [[.scalar, .scalar]]
  | bgt | ble => [[.scalar, .scalar, .other]]

/-- What the operands of an instruction are, for every number of operands that it takes. -/
def Mnemonic.operandKinds : Mnemonic → List (List OperandKind)
  | alu _ => [[.scalar, .scalar, .scalar]]
  | aluImm _ | branch _ => [[.scalar, .scalar, .other]]
  | load | store | jalr => [[.scalar, .address], [.scalar, .scalar, .other]]
  | lui => [[.scalar, .other]]
  | jal => [[.other], [.scalar, .other]]
  | gemm => [[.tile, .tile, .tile, .tile]]
  | tileLoad | tileStore => [[.tile, .scalar, .address]]
  | halt => [[]]

/-- An operand and another one with other names of the same registers. -/
inductive OperandKind.Renames : OperandKind → Text → Text → Prop
  /-- Nothing has to be renamed. -/
  | same (kind : OperandKind) (s : Text) : Renames kind s s
  /-- A scalar register. -/
  | scalar {s t : Text} (register : SameRegister s t) : Renames .scalar s t
  /-- A tile register, in other letters. -/
  | tile {s t : Text} {r : Nat} (register : readTile? s = some r) (letters : SameLetters s t) :
      Renames .tile s t
  /-- The base of an address in parentheses. -/
  | base {offset s t : Text} (front : '(' ∉ offset) (register : SameRegister s t) :
      Renames .address (offset ++ '(' :: s ++ [')']) (offset ++ '(' :: t ++ [')'])
  /-- The base of an address behind its offset in parentheses. -/
  | behind {offset s t : Text} (inner : ')' ∉ offset) (register : SameRegister s t) :
      Renames .address ('(' :: offset ++ ')' :: s) ('(' :: offset ++ ')' :: t)

/-- Two rows of operands of given kinds are related, one by one. -/
inductive OfKinds (R : OperandKind → Text → Text → Prop) :
    List OperandKind → List Text → List Text → Prop
  /-- There are no operands. -/
  | nil : OfKinds R [] [] []
  /-- The first operands and the others. -/
  | cons {kind : OperandKind} {kinds : List OperandKind} {s t : Text} {ss ts : List Text}
      (head : R kind s t) (tail : OfKinds R kinds ss ts) :
      OfKinds R (kind :: kinds) (s :: ss) (t :: ts)

namespace OperandKind.Renames

variable {s t : Text}

theorem eq_of_other (h : Renames .other s t) : s = t := by
  cases h
  rfl

theorem scalarOperand_eq (h : Renames .scalar s t) : scalarOperand s = scalarOperand t := by
  cases h with
  | same => rfl
  | scalar hregister =>
    obtain ⟨r, hs, ht⟩ := hregister.exists_readRegister?
    rw [scalarOperand, scalarOperand, hs, ht]

theorem tileOperand_eq (h : Renames .tile s t) : tileOperand s = tileOperand t := by
  cases h with
  | same => rfl
  | tile hs hletters =>
    rw [tileOperand, tileOperand, ← readTile?_of_sameLetters hletters, hs]

theorem resolveAddress_eq (h : Renames .address s t) (labels : Labels) :
    resolveAddress labels s = resolveAddress labels t := by
  cases h with
  | same => rfl
  | base hfront hregister =>
    obtain ⟨r, hs, ht⟩ := hregister.exists_readRegister?
    rw [resolveAddress_append hfront hs, resolveAddress_append hfront ht]
  | behind hinner hregister =>
    obtain ⟨r, hs, ht⟩ := hregister.exists_readRegister?
    rw [resolveAddress_cons hinner hs, resolveAddress_cons hinner ht]

end OperandKind.Renames

/-! ### Instructions -/

section Instructions

variable {kinds : List OperandKind} {ops ops' : List Text}

/-- Other names of the same registers make no difference to an instruction. -/
theorem Mnemonic.read_eq_of_renames {m : Mnemonic} (hkinds : kinds ∈ m.operandKinds)
    (h : OfKinds OperandKind.Renames kinds ops ops') (labels : Labels) (pc : Word) (name : Text) :
    m.read labels pc name ops = m.read labels pc name ops' := by
  cases m <;> simp only [operandKinds, List.mem_cons, List.not_mem_nil, or_false] at hkinds
  case alu op =>
    subst hkinds
    obtain _ | ⟨h₁, _ | ⟨h₂, _ | ⟨h₃, _ | _⟩⟩⟩ := h
    simp only [read, h₁.scalarOperand_eq, h₂.scalarOperand_eq, h₃.scalarOperand_eq]
  case aluImm op =>
    subst hkinds
    obtain _ | ⟨h₁, _ | ⟨h₂, _ | ⟨h₃, _ | _⟩⟩⟩ := h
    simp only [read, h₁.scalarOperand_eq, h₂.scalarOperand_eq, h₃.eq_of_other]
  case branch cond =>
    subst hkinds
    obtain _ | ⟨h₁, _ | ⟨h₂, _ | ⟨h₃, _ | _⟩⟩⟩ := h
    simp only [read, h₁.scalarOperand_eq, h₂.scalarOperand_eq, h₃.eq_of_other]
  case load | store | jalr =>
    rcases hkinds with rfl | rfl
    · obtain _ | ⟨h₁, _ | ⟨h₂, _ | _⟩⟩ := h
      simp only [read, h₁.scalarOperand_eq, h₂.resolveAddress_eq]
    · obtain _ | ⟨h₁, _ | ⟨h₂, _ | ⟨h₃, _ | _⟩⟩⟩ := h
      simp only [read, h₁.scalarOperand_eq, h₂.scalarOperand_eq, h₃.eq_of_other]
  case lui =>
    subst hkinds
    obtain _ | ⟨h₁, _ | ⟨h₂, _ | _⟩⟩ := h
    simp only [read, h₁.scalarOperand_eq, h₂.eq_of_other]
  case jal =>
    rcases hkinds with rfl | rfl
    · obtain _ | ⟨h₁, _ | _⟩ := h
      rw [h₁.eq_of_other]
    · obtain _ | ⟨h₁, _ | ⟨h₂, _ | _⟩⟩ := h
      simp only [read, h₁.scalarOperand_eq, h₂.eq_of_other]
  case gemm =>
    subst hkinds
    obtain _ | ⟨h₁, _ | ⟨h₂, _ | ⟨h₃, _ | ⟨h₄, _ | _⟩⟩⟩⟩ := h
    simp only [read, h₁.tileOperand_eq, h₂.tileOperand_eq, h₃.tileOperand_eq, h₄.tileOperand_eq]
  case tileLoad | tileStore =>
    subst hkinds
    obtain _ | ⟨h₁, _ | ⟨h₂, _ | ⟨h₃, _ | _⟩⟩⟩ := h
    simp only [read, h₁.tileOperand_eq, h₂.scalarOperand_eq, h₃.resolveAddress_eq]
  case halt =>
    subst hkinds
    cases h
    rfl

end Instructions

/-! ### Shorthands -/

/-- Two texts that can be operands, the second with other names of the registers of the first. -/
structure OperandKind.RenamesOperand (kind : OperandKind) (s t : Text) : Prop where
  /-- The registers are the same. -/
  renames : kind.Renames s t
  /-- Both can be operands. -/
  isOperand : IsOperand s ∧ IsOperand t

theorem OperandKind.RenamesOperand.same (kind : OperandKind) {s : Text} (h : IsOperand s) :
    kind.RenamesOperand s s :=
  ⟨.same kind s, h, h⟩

theorem OperandKind.RenamesOperand.eq {s t : Text} (h : OperandKind.other.RenamesOperand s t) :
    s = t :=
  h.renames.eq_of_other

section Written

variable {kinds : List OperandKind} {ops ops' : List Text}

theorem OfKinds.renamesOperand (h : OfKinds OperandKind.Renames kinds ops ops')
    (hops : ∀ op ∈ ops, IsOperand op) (hops' : ∀ op ∈ ops', IsOperand op) :
    OfKinds OperandKind.RenamesOperand kinds ops ops' := by
  induction h with
  | nil => exact .nil
  | cons head _ ih =>
    obtain ⟨hop, hops⟩ := List.forall_mem_cons.mp hops
    obtain ⟨hop', hops'⟩ := List.forall_mem_cons.mp hops'
    exact .cons ⟨head, hop, hop'⟩ (ih hops hops')

theorem OfKinds.renames (h : OfKinds OperandKind.RenamesOperand kinds ops ops') :
    OfKinds OperandKind.Renames kinds ops ops' ∧ (∀ op ∈ ops, IsOperand op) ∧
      ∀ op ∈ ops', IsOperand op := by
  induction h with
  | nil => exact ⟨.nil, List.forall_mem_nil _, List.forall_mem_nil _⟩
  | cons head _ ih =>
    obtain ⟨htail, hops, hops'⟩ := ih
    exact ⟨.cons head.renames htail, List.forall_mem_cons.mpr ⟨head.isOperand.1, hops⟩,
      List.forall_mem_cons.mpr ⟨head.isOperand.2, hops'⟩⟩

/-- A written instruction is read as the same one with other names of its registers. -/
theorem readsAs_instructionText {name : String} {m : Mnemonic} (hm : IsMnemonic name m)
    (hkinds : kinds ∈ m.operandKinds) (h : OfKinds OperandKind.RenamesOperand kinds ops ops')
    (hne : ops ≠ []) : ReadsAs (instructionText name ops) (instructionText name ops') := by
  have hne' : ops' ≠ [] := by
    cases h with
    | nil => exact hne
    | cons => exact List.cons_ne_nil _ _
  obtain ⟨hrenames, hops, hops'⟩ := h.renames
  intro labels pc i hread
  rw [readInstruction_instructionText hm hops hne,
    Mnemonic.read_eq_of_renames hkinds hrenames] at hread
  rwa [readInstruction_instructionText hm hops' hne']

end Written

section Shorthands

variable {rd rd' rs rs' rt rt' imm : Text}

theorem readsAs_add (hrd : OperandKind.scalar.RenamesOperand rd rd')
    (hrs : OperandKind.scalar.RenamesOperand rs rs')
    (hrt : OperandKind.scalar.RenamesOperand rt rt') :
    ReadsAs (instructionText "add" [rd, rs, rt]) (instructionText "add" [rd', rs', rt']) :=
  readsAs_instructionText (isMnemonic_alu .add) (List.mem_singleton_self _)
    (.cons hrd (.cons hrs (.cons hrt .nil))) (List.cons_ne_nil _ _)

theorem readsAs_addi (hrd : OperandKind.scalar.RenamesOperand rd rd')
    (hrs : OperandKind.scalar.RenamesOperand rs rs') (himm : IsOperand imm) :
    ReadsAs (instructionText "addi" [rd, rs, imm]) (instructionText "addi" [rd', rs', imm]) := by
  have hform : AluOp.add.immediateFunct?.isSome = true := rfl
  exact readsAs_instructionText (isMnemonic_immediate hform) (List.mem_singleton_self _)
    (.cons hrd (.cons hrs (.cons (.same _ himm) .nil))) (List.cons_ne_nil _ _)

theorem readsAs_branch (cond : Condition) (hrs : OperandKind.scalar.RenamesOperand rs rs')
    (hrt : OperandKind.scalar.RenamesOperand rt rt') (himm : IsOperand imm) :
    ReadsAs (instructionText cond.name [rs, rt, imm]) (instructionText cond.name [rs', rt', imm]) :=
  readsAs_instructionText (isMnemonic_branch cond) (List.mem_singleton_self _)
    (.cons hrs (.cons hrt (.cons (.same _ himm) .nil))) (List.cons_ne_nil _ _)

theorem readsAs_lui (hrd : OperandKind.scalar.RenamesOperand rd rd') (himm : IsOperand imm) :
    ReadsAs (instructionText "lui" [rd, imm]) (instructionText "lui" [rd', imm]) :=
  readsAs_instructionText (m := .lui) (isMnemonic_of_mem_keywords (by decide))
    (List.mem_singleton_self _) (.cons hrd (.cons (.same _ himm) .nil)) (List.cons_ne_nil _ _)

/-- The word on top of the stack is loaded into or stored from a register by each of its names. -/
theorem readsAs_stackTop {name : String} {m : Mnemonic} (hm : (name, m) ∈ Mnemonic.keywords)
    (hkinds : [.scalar, .address] ∈ m.operandKinds)
    (hrd : OperandKind.scalar.RenamesOperand rd rd') :
    ReadsAs (instructionText name [rd, "0(sp)".toList])
      (instructionText name [rd', "0(sp)".toList]) := by
  have haddr : IsOperand "0(sp)".toList := IsPlain.isOperand (by decide)
  exact readsAs_instructionText (isMnemonic_of_mem_keywords hm) hkinds
    (.cons hrd (.cons (.same _ haddr) .nil)) (List.cons_ne_nil _ _)

theorem renamesOperand_zero : OperandKind.scalar.RenamesOperand "x0".toList "x0".toList :=
  .same _ (IsPlain.isOperand (by decide))

/-- A number goes into a register by each of its names. -/
theorem exists_expandLiteral {texts : List Text} (hrd : OperandKind.scalar.RenamesOperand rd rd')
    (h : expandLiteral rd imm = .ok texts) :
    ∃ texts', expandLiteral rd' imm = .ok texts' ∧ List.Forall₂ ReadsAs texts texts' := by
  have hint (z : Int) : IsOperand (integerText z) := (isPlain_integerText z).isOperand
  rw [expandLiteral] at h ⊢
  cases hread : readImmediate? imm with
  | none =>
    rw [hread] at h
    cases h
  | some z =>
    simp only [hread] at h ⊢
    split_ifs at h ⊢ with hrange hfits
    · cases h
      exact ⟨_, rfl, .cons (readsAs_addi hrd renamesOperand_zero (hint _)) .nil⟩
    · cases h
      exact ⟨_, rfl, .cons (readsAs_lui hrd (hint _))
        (.cons (readsAs_addi hrd hrd (hint _)) .nil)⟩

/-- A shorthand with other names of the same registers stands for instructions that are read as the
same ones. -/
theorem Shorthand.exists_expand_of_renames {sh : Shorthand} {kinds : List OperandKind}
    {ops ops' texts : List Text} (hkinds : kinds ∈ sh.operandKinds)
    (h : OfKinds OperandKind.RenamesOperand kinds ops ops') (hexpand : sh.expand ops = .ok texts) :
    ∃ texts', sh.expand ops' = .ok texts' ∧ List.Forall₂ ReadsAs texts texts' := by
  have hsame (texts : List Text) : List.Forall₂ ReadsAs texts texts :=
    List.forall₂_same.mpr fun text _ => .refl text
  cases sh <;> simp only [operandKinds, List.mem_cons, List.not_mem_nil, or_false] at hkinds
  case nop | ret =>
    subst hkinds
    cases h
    exact ⟨texts, hexpand, hsame texts⟩
  case j | call =>
    subst hkinds
    obtain _ | ⟨h₁, _ | _⟩ := h
    rw [← h₁.eq]
    exact ⟨texts, hexpand, hsame texts⟩
  case li =>
    subst hkinds
    obtain _ | ⟨h₁, _ | ⟨h₂, _ | _⟩⟩ := h
    rw [← h₂.eq]
    exact exists_expandLiteral h₁ hexpand
  case la =>
    subst hkinds
    obtain _ | ⟨h₁, _ | ⟨h₂, _ | _⟩⟩ := h
    cases hexpand
    rw [← h₂.eq]
    exact ⟨_, rfl, .cons (readsAs_lui h₁ (h₂.isOperand.1.marked (by decide)))
      (.cons (readsAs_addi h₁ h₁ (h₂.isOperand.1.marked (by decide))) .nil)⟩
  case push =>
    subst hkinds
    obtain _ | ⟨h₁, _ | _⟩ := h
    cases hexpand
    exact ⟨_, rfl, .cons (.refl _) (.cons (readsAs_stackTop (m := .store) (by decide)
      List.mem_cons_self h₁) .nil)⟩
  case pop =>
    subst hkinds
    obtain _ | ⟨h₁, _ | _⟩ := h
    cases hexpand
    exact ⟨_, rfl, .cons (readsAs_stackTop (m := .load) (by decide) List.mem_cons_self h₁)
      (.cons (.refl _) .nil)⟩
  case jr =>
    subst hkinds
    obtain _ | ⟨h₁, _ | _⟩ := h
    cases hexpand
    have hoffset : IsOperand "0".toList := IsPlain.isOperand (by decide)
    have hjalr : IsMnemonic "jalr" .jalr := isMnemonic_of_mem_keywords (by decide)
    have hread := readsAs_instructionText hjalr (List.mem_cons_of_mem _ List.mem_cons_self)
      (.cons renamesOperand_zero (.cons h₁ (.cons (.same _ hoffset) .nil))) (List.cons_ne_nil _ _)
    exact ⟨_, rfl, .cons hread .nil⟩
  case mov =>
    rcases hkinds with rfl | rfl
    · obtain _ | ⟨h₁, _ | ⟨h₂, _ | _⟩⟩ := h
      cases hexpand
      exact ⟨_, rfl, .cons (readsAs_add h₁ h₂ renamesOperand_zero) .nil⟩
    · obtain _ | ⟨h₁, _ | ⟨h₂, _ | ⟨h₃, _ | _⟩⟩⟩ := h
      cases hexpand
      exact ⟨_, rfl, .cons (readsAs_add h₁ h₂ h₃) .nil⟩
  case mv =>
    subst hkinds
    obtain _ | ⟨h₁, _ | ⟨h₂, _ | _⟩⟩ := h
    cases hexpand
    exact ⟨_, rfl, .cons (readsAs_add h₁ h₂ renamesOperand_zero) .nil⟩
  case beqz =>
    subst hkinds
    obtain _ | ⟨h₁, _ | ⟨h₂, _ | _⟩⟩ := h
    cases hexpand
    rw [← h₂.eq]
    exact ⟨_, rfl, .cons (readsAs_branch .beq h₁ renamesOperand_zero h₂.isOperand.1) .nil⟩
  case bnez =>
    subst hkinds
    obtain _ | ⟨h₁, _ | ⟨h₂, _ | _⟩⟩ := h
    cases hexpand
    rw [← h₂.eq]
    exact ⟨_, rfl, .cons (readsAs_branch .bne h₁ renamesOperand_zero h₂.isOperand.1) .nil⟩
  case bgt =>
    subst hkinds
    obtain _ | ⟨h₁, _ | ⟨h₂, _ | ⟨h₃, _ | _⟩⟩⟩ := h
    cases hexpand
    rw [← h₃.eq]
    exact ⟨_, rfl, .cons (readsAs_branch .blt h₂ h₁ h₃.isOperand.1) .nil⟩
  case ble =>
    subst hkinds
    obtain _ | ⟨h₁, _ | ⟨h₂, _ | ⟨h₃, _ | _⟩⟩⟩ := h
    cases hexpand
    rw [← h₃.eq]
    exact ⟨_, rfl, .cons (readsAs_branch .bge h₂ h₁ h₃.isOperand.1) .nil⟩

end Shorthands

end TileCore

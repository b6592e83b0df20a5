import Mathlib.Logic.Relation
import TileCore.Proofs.Assembly.BlankFields
import TileCore.Proofs.Assembly.RegisterNames

/-!
# Other ways to write an instruction

An instruction can be written in many ways that mean the same: the letters of its mnemonic and of
its registers in either case, a mnemonic with an ending that says nothing, another name of a
register, an address with the offset or the base in parentheses or with both as operands of their
own, and two mnemonics each for loads, stores and sums. The mnemonic is looked at twice, once for
shorthands and once for instructions, and the forms of an instruction are read by different means;
but the same words come of it, whichever way each line of a source is written.

## Main definitions

* `IsKnown`: the mnemonics that the assembler knows.
* `offsetForms`, `SameForm`: the ways to write loads, stores, indirect jumps and sums.
* `Respells`: a statement that is written in another way.
* `Keeps`: a statement that stands for instructions which are read as those of another one.

## Main results

* `IsKnown.foldEnding_eq`, `IsKnown.ascii`: what known mnemonics look like.
* `read_of_mem_offsetForms`: the forms with an offset are read alike.
* `Respells.keeps`: each way to write a statement keeps its instructions.
* `spellings_assemble_alike`: sources that are written in other ways become the same program.
-/

namespace TileCore

open Text

/-! ### Known mnemonics -/

/-- The assembler knows a mnemonic. -/
def IsKnown (s : Text) : Prop :=
  (Shorthand.ofName? s).isSome = true ∨ (Mnemonic.ofText? s).isSome = true

instance (s : Text) : Decidable (IsKnown s) := inferInstanceAs (Decidable (_ ∨ _))

/-- The mnemonics that the assembler knows, and those of immediate forms that do not exist. -/
def mnemonicTexts : List Text :=
  Shorthand.all.map (fun sh => sh.name.toList) ++ AluOp.all.map (fun op => op.name.toList) ++
    "sltiu".toList :: AluOp.all.map (fun op => op.name.toList ++ ['i']) ++
      Condition.all.map (fun cond => cond.name.toList) ++
        Mnemonic.keywords.map fun entry => entry.1.toList

/-- A text under which something is found in a table is one of its names. -/
theorem mem_map_of_find? {α : Type} {xs : List α} {name : α → Text} {s : Text} {x : α}
    (h : (xs.find? fun x => name x == s) = some x) : s ∈ xs.map name := by
  have hname := List.find?_some h
  rw [beq_iff_eq] at hname
  exact List.mem_map.mpr ⟨x, List.mem_of_find?_eq_some h, hname⟩

theorem Mnemonic.mem_of_immediateOp? {s : Text} {op : AluOp}
    (h : Mnemonic.immediateOp? s = some op) :
    s ∈ "sltiu".toList :: AluOp.all.map fun op => op.name.toList ++ ['i'] := by
  rw [immediateOp?] at h
  split_ifs at h with hsltiu
  · exact hsltiu ▸ List.mem_cons_self
  · obtain ⟨base, hbase, hop⟩ := Option.bind_eq_some_iff.mp (Option.filter_eq_some_iff.mp h).1
    obtain ⟨op', hop', hname⟩ := List.mem_map.mp (mem_map_of_find? hop)
    refine List.mem_cons_of_mem _ (List.mem_map.mpr ⟨op', hop', ?_⟩)
    rw [hname, ← eq_of_beforeEnd? hbase]

section Known

variable {s : Text}

theorem IsKnown.mem (h : IsKnown s) : s ∈ mnemonicTexts := by
  simp only [mnemonicTexts, List.mem_append]
  simp only [IsKnown, Option.isSome_iff_exists] at h
  rcases h with ⟨sh, hsh⟩ | ⟨m, hm⟩
  · exact .inl (.inl (.inl (.inl (mem_map_of_find? hsh))))
  · simp only [Mnemonic.ofText?, Option.orElse_eq_orElse, Option.orElse_eq_or,
      Option.or_eq_some_iff, Option.map_eq_some_iff] at hm
    obtain ⟨op, hop, -⟩ | ⟨-, ⟨op, hop, -⟩ | ⟨-, ⟨cond, hcond, -⟩ | ⟨-, entry, hentry, -⟩⟩⟩ := hm
    · exact .inl (.inl (.inl (.inr (mem_map_of_find? hop))))
    · exact .inl (.inl (.inr (Mnemonic.mem_of_immediateOp? hop)))
    · exact .inl (.inr (mem_map_of_find? hcond))
    · exact .inr (mem_map_of_find? hentry)

theorem IsKnown.foldEnding_eq (h : IsKnown s) : foldEnding s = s := by
  have hall : ∀ s ∈ mnemonicTexts, foldEnding s = s := by decide
  exact hall s h.mem

theorem IsKnown.ascii (h : IsKnown s) : ∀ c ∈ s, c.toNat < 0x80 ∧ c ≠ 'k' := by
  have hall : ∀ s ∈ mnemonicTexts, ∀ c ∈ s, c.toNat < 0x80 ∧ c ≠ 'k' := by decide
  exact hall s h.mem

/-- A known mnemonic begins with a letter. -/
theorem IsKnown.exists_head (h : IsKnown s) : ∃ c rest, s = c :: rest ∧ c ≠ '.' := by
  have hall : ∀ s ∈ mnemonicTexts, s.head?.any (· != '.') = true := by decide
  have hhead := hall s h.mem
  cases s with
  | nil => cases hhead
  | cons c rest => exact ⟨c, rest, rfl, bne_iff_ne.mp hhead⟩

end Known

/-! ### Statements as they are written -/

/-- The mnemonic of a statement as it is written. -/
def writtenMnemonic (s : Text) : Text := (splitHead (trim s)).1

theorem mnemonic_ofText (s : Text) :
    (Statement.ofText s).mnemonic = foldEnding (lowercase (writtenMnemonic s)) := rfl

/-- A text in front of which a character stands that has no lower case begins with it. -/
theorem head?_lowercase {s : Text} {c : Char} (hs : s.head? = some c) (hc : c.toNat < 0x80) :
    (lowercase s).head? = some c.toLower := by
  obtain ⟨rest, rfl⟩ := List.head?_eq_some_iff.mp hs
  rw [lowercase, lowercaseAfter, lowerAt_of_ascii hc]
  rfl

theorem foldEnding_eq_or (s : Text) :
    foldEnding s = s ∨ s = foldEnding s ++ ".i".toList ∨ s = "gemm.m".toList := by
  rw [foldEnding]
  cases hend : beforeEnd? ".i".toList s with
  | some base => exact .inr (.inl (eq_of_beforeEnd? hend))
  | none =>
    simp only
    split_ifs with hm
    · exact .inr (.inr hm)
    · exact .inl rfl

/-- A statement with a known mnemonic does not begin with the dot of a directive. -/
theorem head?_of_isKnown {s : Text} (h : IsKnown (Statement.ofText s).mnemonic) (hs : IsTrimmed s) :
    ∃ c, s.head? = some c ∧ c ≠ '.' := by
  obtain ⟨d, rest, hname, hd⟩ := h.exists_head
  rw [mnemonic_ofText, writtenMnemonic, hs.trim_eq] at hname
  cases hhead : s.head? with
  | none =>
    rw [List.head?_eq_none_iff.mp hhead] at hname
    cases hname
  | some c =>
    refine ⟨c, rfl, ?_⟩
    rintro rfl
    rw [← head?_splitHead hs] at hhead
    have hlower := head?_lowercase hhead (by decide)
    rcases foldEnding_eq_or (lowercase (splitHead s).1) with hfold | hfold | hfold
    · rw [← hfold, hname] at hlower
      exact hd (Option.some.inj hlower)
    · rw [hfold, hname] at hlower
      exact hd (Option.some.inj hlower)
    · rw [hfold] at hlower
      cases hlower

/-- A directive of the data section begins with a dot. -/
theorem head?_of_dataBytes {s : Text} {size : Nat} {bytes : List Byte} (hs : IsTrimmed s)
    (h : dataBytes size s = .ok bytes) : s.head? = some '.' := by
  rw [← head?_splitHead hs]
  cases dataBytes_eq_ok_iff.mp h with
  | word directive | half directive | float directive | align directive =>
    rw [directive]
    rfl
  | space directive =>
    have hdots : ∀ directive ∈ [".space".toList, ".zero".toList], directive.head? = some '.' := by
      decide
    exact hdots _ directive

/-! ### Forms of an instruction -/

/-- An offset that may stand in front of an address: a number or a label. -/
def IsOffset (imm : Text) : Prop := (readImmediate? imm).isSome = true ∨ isLabel imm = true

instance (imm : Text) : Decidable (IsOffset imm) := inferInstanceAs (Decidable (_ ∨ _))

/-- The statements of an instruction with an offset: with base and offset as operands of their own,
or with an address in either spelling behind the other register. -/
def offsetForms (names : List String) (separate : List Text) (reg base imm : Text) :
    List Statement :=
  names.flatMap fun name =>
    (separate :: (addressSpellings imm base).map fun addr => [reg, addr]).map
      (Statement.mk name.toList)

/-- The statements of a sum of two registers. -/
def sumForms (rd ra rb : Text) : List Statement :=
  ["mov", "add"].map fun name => ⟨name.toList, [rd, ra, rb]⟩

/-- Two statements are forms of the same instruction. -/
inductive SameForm (s t : Statement) : Prop
  /-- Loads. -/
  | load {rd rs imm : Text} {d r : Nat} (target : readRegister? rd = some d)
      (base : readRegister? rs = some r) (offset : IsOffset imm)
      (left : s ∈ offsetForms ["lw", "ld"] [rd, rs, imm] rd rs imm)
      (right : t ∈ offsetForms ["lw", "ld"] [rd, rs, imm] rd rs imm)
  /-- Stores, which name the base in front of the value if it is an operand of its own. -/
  | store {rv rb imm : Text} {v b : Nat} (value : readRegister? rv = some v)
      (base : readRegister? rb = some b) (offset : IsOffset imm)
      (left : s ∈ offsetForms ["sw", "st"] [rb, rv, imm] rv rb imm)
      (right : t ∈ offsetForms ["sw", "st"] [rb, rv, imm] rv rb imm)
  /-- Indirect jumps. -/
  | jalr {rd rs imm : Text} {d r : Nat} (target : readRegister? rd = some d)
      (base : readRegister? rs = some r) (offset : IsOffset imm)
      (left : s ∈ offsetForms ["jalr"] [rd, rs, imm] rd rs imm)
      (right : t ∈ offsetForms ["jalr"] [rd, rs, imm] rd rs imm)
  /-- Sums. -/
  | sum {rd ra rb : Text} (left : s ∈ sumForms rd ra rb) (right : t ∈ sumForms rd ra rb)

/-- The instruction with an offset, as all its forms are read. -/
def readOffset (labels : Labels) (name imm : Text) (f : Int → Instruction) :
    Except AssemblyCause Instruction := do
  let z ← resolveImmediate labels imm
  let z ← checkSigned name 12 z
  return f z

section Forms

variable {labels : Labels} {imm : Text}

theorem readOffset_eq_ok_iff {name : Text} {f : Int → Instruction} {i : Instruction} :
    readOffset labels name imm f = .ok i ↔
      ∃ z, resolveImmediate labels imm = .ok z ∧ FitsSigned 12 z ∧ i = f z := by
  simp only [readOffset, Except.bind_eq_ok_iff]
  refine exists_congr fun z => and_congr_right fun _ => ?_
  constructor
  · rintro ⟨z', hz, hf⟩
    obtain ⟨rfl, hfits⟩ := of_checkSigned hz
    cases hf
    exact ⟨hfits, rfl⟩
  · rintro ⟨hfits, rfl⟩
    exact ⟨z, checkSigned_eq_ok hfits, rfl⟩

/-- Every address with a number or a label as its offset is read as this offset and its base. -/
theorem IsOffset.resolveAddress_eq (h : IsOffset imm) {base : Text} {r : Nat}
    (hbase : readRegister? base = some r) :
    ∀ addr ∈ addressSpellings imm base,
      resolveAddress labels addr = (resolveImmediate labels imm).map fun z => (z, r) := by
  refine resolveAddress_of_mem_addressSpellings ?_ ?_ hbase
  · rcases h with h | h
    · obtain ⟨z, hz⟩ := Option.isSome_iff_exists.mp h
      intro hnil
      rw [readImmediate?, hnil] at hz
      cases hz
    · rw [trim_of_isLabel h]
      rintro rfl
      cases h
  · intro c hc
    rcases h with h | h
    · obtain ⟨z, hz⟩ := Option.isSome_iff_exists.mp h
      exact notMem_of_readImmediate? hc.isForeign hz
    · exact notMem_of_isLabel hc h

/-- The forms of an instruction with an offset are read alike. -/
theorem read_of_mem_offsetForms {names : List String} {separate : List Text} {reg base : Text}
    {r : Nat} {m : Mnemonic} {f : Int → Instruction} {s : Statement}
    (hs : s ∈ offsetForms names separate reg base imm) (hoffset : IsOffset imm)
    (hbase : readRegister? base = some r)
    (hnames : ∀ name ∈ names, Mnemonic.ofText? name.toList = some m) (pc : Word)
    (hseparate : ∀ name, m.read labels pc name separate = readOffset labels name imm f)
    (haddress : ∀ name addr,
      resolveAddress labels addr = (resolveImmediate labels imm).map (fun z => (z, r)) →
        m.read labels pc name [reg, addr] = readOffset labels name imm f) :
    s.read labels pc = readOffset labels s.mnemonic imm f := by
  obtain ⟨name, hname, hform⟩ := List.mem_flatMap.mp hs
  obtain ⟨ops, hops, rfl⟩ := List.mem_map.mp hform
  simp only [Statement.read, hnames name hname]
  rcases List.mem_cons.mp hops with rfl | hops
  · exact hseparate _
  · obtain ⟨addr, haddr, rfl⟩ := List.mem_map.mp hops
    exact haddress _ _ (hoffset.resolveAddress_eq hbase addr haddr)

end Forms

/-! ### Statements that keep their instructions -/

/-- A statement stands for instructions that are read as those of another one. -/
def Keeps (s t : Text) : Prop :=
  ∀ texts, expand s = .ok texts →
    ∃ texts', expand t = .ok texts' ∧ List.Forall₂ ReadsAs texts texts'

theorem Keeps.refl (s : Text) : Keeps s s :=
  fun texts hexpand => ⟨texts, hexpand, List.forall₂_same.mpr fun text _ => .refl text⟩

theorem Keeps.trans {s t u : Text} (h : Keeps s t) (h' : Keeps t u) : Keeps s u := by
  intro texts hexpand
  obtain ⟨texts', hexpand', hreads⟩ := h texts hexpand
  obtain ⟨texts'', hexpand'', hreads'⟩ := h' texts' hexpand'
  refine ⟨texts'', hexpand'', ?_⟩
  clear hexpand hexpand' hexpand''
  induction hreads generalizing texts'' with
  | nil => exact hreads'
  | cons hread _ ih =>
    cases hreads' with
    | cons hread' hrest => exact .cons (hread.trans hread') (ih _ hrest)

theorem HasSameParts.keeps {s t : Text} (h : HasSameParts s t) : Keeps s t := by
  intro texts hexpand
  obtain ⟨texts', hexpand', hsame⟩ := h.exists_expand hexpand
  exact ⟨texts', hexpand', hsame.imp fun _ _ h => h.readsAs⟩

/-- Statements that are no shorthands keep their instructions if they are read alike. -/
theorem keeps_of_read {s t : Text} (hs : Shorthand.ofName? (Statement.ofText s).mnemonic = none)
    (ht : Shorthand.ofName? (Statement.ofText t).mnemonic = none)
    (h : ∀ labels pc i, (Statement.ofText s).read labels pc = .ok i →
      (Statement.ofText t).read labels pc = .ok i) : Keeps s t := by
  intro texts hexpand
  rw [expand] at hexpand ⊢
  simp only [hs] at hexpand
  simp only [ht]
  cases hexpand
  refine ⟨_, rfl, .cons (fun labels pc i hread => ?_) .nil⟩
  rw [readInstruction_eq_read, Statement.ofText_trim] at hread ⊢
  exact h labels pc i hread

/-- Statements that are forms of an instruction with an offset keep it. -/
theorem keeps_of_offsetForms {s t : Text} {names : List String} {separate : List Text}
    {reg base imm : Text} {r : Nat} {m : Mnemonic} {f : Int → Instruction}
    (hs : Statement.ofText s ∈ offsetForms names separate reg base imm)
    (ht : Statement.ofText t ∈ offsetForms names separate reg base imm) (hoffset : IsOffset imm)
    (hbase : readRegister? base = some r)
    (hnames : ∀ name ∈ names, Shorthand.ofName? name.toList = none ∧
      Mnemonic.ofText? name.toList = some m)
    (hseparate : ∀ labels pc name,
      m.read labels pc name separate = readOffset labels name imm f)
    (haddress : ∀ labels pc name addr,
      resolveAddress labels addr = (resolveImmediate labels imm).map (fun z => (z, r)) →
        m.read labels pc name [reg, addr] = readOffset labels name imm f) : Keeps s t := by
  have hshort {s : Statement} (hs : s ∈ offsetForms names separate reg base imm) :
      Shorthand.ofName? s.mnemonic = none := by
    obtain ⟨name, hname, hform⟩ := List.mem_flatMap.mp hs
    obtain ⟨ops, -, rfl⟩ := List.mem_map.mp hform
    exact (hnames name hname).1
  refine keeps_of_read (hshort hs) (hshort ht) fun labels pc i hread => ?_
  have hread' (s : Statement) (hs : s ∈ offsetForms names separate reg base imm) :=
    read_of_mem_offsetForms hs hoffset hbase (fun name hname => (hnames name hname).2) pc
      (hseparate labels pc) (haddress labels pc)
  rw [hread' _ hs, readOffset_eq_ok_iff] at hread
  rwa [hread' _ ht, readOffset_eq_ok_iff]

/-- A sum with three operands is an addition by either of its mnemonics. -/
theorem expand_of_sum {s rd ra rb : Text}
    (h : Statement.ofText s ∈ sumForms rd ra rb) :
    ∃ text, expand s = .ok [text] ∧ Statement.ofText text = ⟨"add".toList, [rd, ra, rb]⟩ := by
  simp only [sumForms, List.map_cons, List.map_nil, List.mem_cons, List.not_mem_nil,
    or_false] at h
  rcases h with h | h
  · refine ⟨instructionText "add" [rd, ra, rb], ?_, ?_⟩
    · rw [expand, h]
      rfl
    · have hadd : IsMnemonic "add" (.alu .add) := isMnemonic_alu .add
      rw [Statement.ofText_instructionText hadd.ne_nil hadd.isBlank_eq_false
        (isOperand_of_ofText h) (List.cons_ne_nil _ _), hadd.folded]
  · refine ⟨trim s, ?_, by rw [Statement.ofText_trim, h]⟩
    rw [expand, h]
    rfl

theorem SameForm.keeps {s t : Text} (h : SameForm (Statement.ofText s) (Statement.ofText t)) :
    Keeps s t := by
  cases h with
  | @load rd rs imm d r htarget hbase hoffset hs ht =>
    have hd : scalarOperand rd = .ok d := scalarOperand_of_trim_eq rfl htarget
    have hr : scalarOperand rs = .ok r := scalarOperand_of_trim_eq rfl hbase
    refine keeps_of_offsetForms (m := .load) (f := .load d r) hs ht hoffset hbase (by decide)
      (fun labels pc name => ?_) (fun labels pc name addr haddr => ?_)
    · simp only [Mnemonic.read, hd, hr]
      rfl
    · simp only [Mnemonic.read, haddr, hd, readOffset]
      cases resolveImmediate labels imm <;> rfl
  | @store rv rb imm v b hvalue hbase hoffset hs ht =>
    have hv : scalarOperand rv = .ok v := scalarOperand_of_trim_eq rfl hvalue
    have hb : scalarOperand rb = .ok b := scalarOperand_of_trim_eq rfl hbase
    refine keeps_of_offsetForms (m := .store) (f := .store b v) hs ht hoffset hbase (by decide)
      (fun labels pc name => ?_) (fun labels pc name addr haddr => ?_)
    · simp only [Mnemonic.read, hv, hb]
      rfl
    · simp only [Mnemonic.read, haddr, hv, readOffset]
      cases resolveImmediate labels imm <;> rfl
  | @jalr rd rs imm d r htarget hbase hoffset hs ht =>
    have hd : scalarOperand rd = .ok d := scalarOperand_of_trim_eq rfl htarget
    have hr : scalarOperand rs = .ok r := scalarOperand_of_trim_eq rfl hbase
    refine keeps_of_offsetForms (m := .jalr) (f := .jalr d r) hs ht hoffset hbase (by decide)
      (fun labels pc name => ?_) (fun labels pc name addr haddr => ?_)
    · simp only [Mnemonic.read, hd, hr]
      rfl
    · simp only [Mnemonic.read, haddr, hd, readOffset]
      cases resolveImmediate labels imm <;> rfl
  | sum hs ht =>
    obtain ⟨text, hexpand, htext⟩ := expand_of_sum hs
    obtain ⟨text', hexpand', htext'⟩ := expand_of_sum ht
    have hsame : HasSameParts text text' := htext.trans htext'.symm
    intro texts htexts
    rw [hexpand] at htexts
    cases htexts
    exact ⟨_, hexpand', .cons hsame.readsAs .nil⟩

theorem isKnown_of_mem_offsetForms {names : List String} {separate : List Text}
    {reg base imm : Text} {s : Statement} (hs : s ∈ offsetForms names separate reg base imm)
    (hnames : ∀ name ∈ names, IsKnown name.toList) : IsKnown s.mnemonic := by
  obtain ⟨name, hname, hform⟩ := List.mem_flatMap.mp hs
  obtain ⟨ops, -, rfl⟩ := List.mem_map.mp hform
  exact hnames name hname

theorem isKnown_of_mem_sumForms {rd ra rb : Text} {s : Statement} (hs : s ∈ sumForms rd ra rb) :
    IsKnown s.mnemonic := by
  have hnames : ∀ name ∈ ["mov", "add"], IsKnown name.toList := by decide
  obtain ⟨name, hname, rfl⟩ := List.mem_map.mp hs
  exact hnames name hname

theorem SameForm.isKnown {s t : Statement} (h : SameForm s t) :
    IsKnown s.mnemonic ∧ IsKnown t.mnemonic := by
  cases h with
  | load _ _ _ hs ht | store _ _ _ hs ht | jalr _ _ _ hs ht =>
    exact ⟨isKnown_of_mem_offsetForms hs (by decide), isKnown_of_mem_offsetForms ht (by decide)⟩
  | sum hs ht => exact ⟨isKnown_of_mem_sumForms hs, isKnown_of_mem_sumForms ht⟩

/-! ### Other ways to write a statement -/

/-- What the operands of a statement of the code are, for every number of operands that its
mnemonic takes. -/
def Statement.operandKinds (s : Statement) : List (List OperandKind) :=
  match Shorthand.ofName? s.mnemonic, Mnemonic.ofText? s.mnemonic with
  | some sh, _ => sh.operandKinds
  | none, some m => m.operandKinds
  | none, none => []

/-- There are kinds for every number of operands that a statement of the code may have. -/
theorem Statement.map_length_operandKinds (s : Statement) :
    s.operandKinds.map List.length = s.operandCounts := by
  have hshort (sh : Shorthand) : sh.operandKinds.map List.length = sh.operandCounts := by
    cases sh <;> rfl
  have hmnemonic (m : Mnemonic) : m.operandKinds.map List.length = m.operandCounts := by
    cases m <;> rfl
  rw [operandKinds, operandCounts]
  cases Shorthand.ofName? s.mnemonic with
  | some sh => exact hshort sh
  | none =>
    cases Mnemonic.ofText? s.mnemonic with
    | some m => exact hmnemonic m
    | none => rfl

/-- A statement of the code is written in another way: its mnemonic in other letters or with an
ending that says nothing, its registers by other names, or in another form. -/
inductive Respells (s t : Text) : Prop
  /-- The letters of the mnemonic differ in their case. -/
  | letters (known : IsKnown (Statement.ofText s).mnemonic)
      (mnemonic : SameLetters (writtenMnemonic s) (writtenMnemonic t))
      (operands : (Statement.ofText s).operands = (Statement.ofText t).operands)
  /-- The mnemonic, which had no ending, gets one. -/
  | ending (known : IsKnown (lowercase (writtenMnemonic s)))
      (mnemonic : writtenMnemonic t = writtenMnemonic s ++ ".i".toList)
      (operands : (Statement.ofText s).operands = (Statement.ofText t).operands)
  /-- The operands that are registers have other names. -/
  | registers {kinds : List OperandKind}
      (mnemonic : (Statement.ofText s).mnemonic = (Statement.ofText t).mnemonic)
      (mem : kinds ∈ (Statement.ofText s).operandKinds)
      (operands : OfKinds OperandKind.Renames kinds (Statement.ofText s).operands
        (Statement.ofText t).operands)
  /-- The instruction is the same, in another form. -/
  | form (same : SameForm (Statement.ofText s) (Statement.ofText t))

namespace Respells

variable {s t : Text}

theorem isKnown_of_mem_operandKinds {s : Statement} {kinds : List OperandKind}
    (h : kinds ∈ s.operandKinds) : IsKnown s.mnemonic := by
  rw [Statement.operandKinds] at h
  rw [IsKnown]
  split at h
  · next hsh => exact .inl (by rw [hsh]; rfl)
  · next hm => exact .inr (by rw [hm]; rfl)
  · cases h

/-- The ending says nothing. -/
theorem hasSameParts_of_ending (hknown : IsKnown (lowercase (writtenMnemonic s)))
    (hmnemonic : writtenMnemonic t = writtenMnemonic s ++ ".i".toList)
    (hops : (Statement.ofText s).operands = (Statement.ofText t).operands) : HasSameParts s t := by
  have hascii : ∀ c ∈ writtenMnemonic s, c.toNat < 0x80 := ascii_of_lowercase hknown.ascii
  have hascii' : ∀ c ∈ writtenMnemonic s ++ ".i".toList, c.toNat < 0x80 :=
    List.forall_mem_append.mpr ⟨hascii, by decide⟩
  have hlower : lowercase (writtenMnemonic t) = lowercase (writtenMnemonic s) ++ ".i".toList := by
    rw [hmnemonic, lowercase_of_ascii hascii, lowercase_of_ascii hascii', List.map_append]
    rfl
  have hfold : (Statement.ofText t).mnemonic = (Statement.ofText s).mnemonic := by
    rw [mnemonic_ofText, mnemonic_ofText, hlower, hknown.foldEnding_eq, foldEnding,
      beforeEnd?_append]
  exact congrArg₂ Statement.mk hfold.symm hops

/-- Other letters of the mnemonic are the same mnemonic. -/
theorem hasSameParts_of_letters (hmnemonic : SameLetters (writtenMnemonic s) (writtenMnemonic t))
    (hops : (Statement.ofText s).operands = (Statement.ofText t).operands) :
    HasSameParts s t := by
  have hfold : (Statement.ofText s).mnemonic = (Statement.ofText t).mnemonic := by
    rw [mnemonic_ofText, mnemonic_ofText, hmnemonic.lowercase_eq]
  exact congrArg₂ Statement.mk hfold hops

/-- Statements with other names of the same registers keep their instructions. -/
theorem keeps_of_registers {kinds : List OperandKind}
    (hmnemonic : (Statement.ofText s).mnemonic = (Statement.ofText t).mnemonic)
    (hmem : kinds ∈ (Statement.ofText s).operandKinds)
    (hops : OfKinds OperandKind.Renames kinds (Statement.ofText s).operands
      (Statement.ofText t).operands) : Keeps s t := by
  rw [Statement.operandKinds] at hmem
  cases hsh : Shorthand.ofName? (Statement.ofText s).mnemonic with
  | some sh =>
    simp only [hsh] at hmem
    have hoperands := hops.renamesOperand (isOperand_of_ofText rfl) (isOperand_of_ofText rfl)
    intro texts hexpand
    simp only [expand, hsh] at hexpand
    simp only [expand, ← hmnemonic, hsh]
    exact Shorthand.exists_expand_of_renames hmem hoperands hexpand
  | none =>
    refine keeps_of_read hsh (hmnemonic ▸ hsh) fun labels pc i hread => ?_
    rw [Statement.read] at hread
    rw [Statement.read, ← hmnemonic]
    cases hm : Mnemonic.ofText? (Statement.ofText s).mnemonic with
    | none =>
      simp only [hm] at hread
      cases hread
    | some m =>
      simp only [hsh, hm] at hmem hread
      rwa [Mnemonic.read_eq_of_renames hmem hops] at hread

theorem keeps (h : Respells s t) : Keeps s t := by
  cases h with
  | letters _ hmnemonic hops => exact (hasSameParts_of_letters hmnemonic hops).keeps
  | ending hknown hmnemonic hops =>
    exact (hasSameParts_of_ending hknown hmnemonic hops).keeps
  | registers hmnemonic hmem hops => exact keeps_of_registers hmnemonic hmem hops
  | form hsame => exact hsame.keeps

/-- Only statements with a known mnemonic are written in another way, and theirs stays known. -/
theorem isKnown (h : Respells s t) :
    IsKnown (Statement.ofText s).mnemonic ∧ IsKnown (Statement.ofText t).mnemonic := by
  cases h with
  | letters hknown hmnemonic hops =>
    exact ⟨hknown, hasSameParts_of_letters hmnemonic hops ▸ hknown⟩
  | ending hknown hmnemonic hops =>
    have hs : IsKnown (Statement.ofText s).mnemonic := by
      rwa [mnemonic_ofText, hknown.foldEnding_eq]
    exact ⟨hs, hasSameParts_of_ending hknown hmnemonic hops ▸ hs⟩
  | registers hmnemonic hmem hops =>
    have hs := isKnown_of_mem_operandKinds hmem
    exact ⟨hs, hmnemonic ▸ hs⟩
  | form hsame => exact hsame.isKnown

end Respells

/-- Statements that have been written in other ways, step by step, keep their instructions, and
their mnemonics are known unless nothing has changed. -/
theorem keeps_of_reflTransGen {s t : Text} (h : Relation.ReflTransGen Respells s t) :
    Keeps s t ∧ (s = t ∨
      IsKnown (Statement.ofText s).mnemonic ∧ IsKnown (Statement.ofText t).mnemonic) := by
  induction h with
  | refl => exact ⟨.refl s, .inl rfl⟩
  | tail _ hstep ih =>
    obtain ⟨hkeeps, hknown⟩ := ih
    refine ⟨hkeeps.trans hstep.keeps, .inr ⟨?_, hstep.isKnown.2⟩⟩
    rcases hknown with rfl | ⟨hknown, -⟩
    · exact hstep.isKnown.1
    · exact hknown

/-! ### Sources -/

/-- Two lines have the same label and section, and the statement of the first has been written in
other ways, as often as one likes. -/
structure SourceLine.Respells (line line' : SourceLine) : Prop where
  /-- Both change the section in the same way or not at all. -/
  region : Region.ofLine? line.text = Region.ofLine? line'.text
  /-- Their labels agree. -/
  label : line.label? = line'.label?
  /-- The statements have been written in other ways. -/
  statement : Relation.ReflTransGen TileCore.Respells line.statement line'.statement

theorem SourceLine.Respells.corresponds {line line' : SourceLine} (h : line.Respells line')
    (hs : IsTrimmed line.statement) (hs' : IsTrimmed line'.statement) :
    line.Corresponds ReadsAs line' := by
  obtain ⟨hkeeps, hsame | ⟨hknown, hknown'⟩⟩ := keeps_of_reflTransGen h.statement
  · refine ⟨h.region, h.label, by rw [hsame], fun texts hdot hexpand => ?_, fun _ _ hbytes => ?_⟩
    · exact ⟨hsame ▸ hdot, hkeeps texts hexpand⟩
    · exact hsame ▸ hbytes
  · obtain ⟨c, hc, hdot⟩ := head?_of_isKnown hknown hs
    obtain ⟨c', hc', hdot'⟩ := head?_of_isKnown hknown' hs'
    refine ⟨h.region, h.label, ?_, fun texts _ hexpand => ⟨?_, hkeeps texts hexpand⟩,
      fun size bytes hbytes => ?_⟩
    · rw [← List.head?_eq_none_iff, ← List.head?_eq_none_iff, hc, hc']
      exact ⟨nofun, nofun⟩
    · rw [hc']
      exact fun heq => hdot' (Option.some.inj heq)
    · -- A line of the data section begins with a dot and has not been written in another way.
      rw [head?_of_dataBytes hs hbytes] at hc
      exact absurd (Option.some.inj hc).symm hdot

/-- A source in which any lines of the code are written in other ways becomes the same program: with
mnemonics and registers in either letter case, with an ending behind a mnemonic, with other names of
the registers, or with loads, stores, indirect jumps and sums in another form. -/
theorem spellings_assemble_alike {source source' : Text} {p : Program}
    (h : assemble source = .ok p)
    (hlines : List.Forall₂ SourceLine.Respells (sourceLines source) (sourceLines source')) :
    assemble source' = .ok p :=
  assemble_eq_ok_of_corresponds (fun _ _ hreads => hreads)
    (forall₂_sourceLines_imp (fun _ _ hs hs' hline => hline.corresponds hs hs') hlines) h

/-- A load in another form, with another name of its register and with capital letters. -/
theorem respells_load :
    Relation.ReflTransGen Respells "lw a0, 4(sp)".toList "LD x10, sp, 4".toList := by
  have hform : Respells "lw a0, 4(sp)".toList "ld a0, sp, 4".toList :=
    .form (@SameForm.load _ _ "a0".toList "sp".toList "4".toList 10 2 (by decide +kernel)
      (by decide +kernel) (by decide +kernel) (by decide +kernel) (by decide +kernel))
  have hregister : SameRegister "a0".toList "x10".toList :=
    .name (r := 10) (by decide +kernel) List.mem_cons_self (by decide +kernel)
  have hs : Statement.ofText "ld a0, sp, 4".toList =
      ⟨"ld".toList, ["a0".toList, "sp".toList, "4".toList]⟩ := by decide +kernel
  have ht : Statement.ofText "ld x10, sp, 4".toList =
      ⟨"ld".toList, ["x10".toList, "sp".toList, "4".toList]⟩ := by decide +kernel
  have hnames : Respells "ld a0, sp, 4".toList "ld x10, sp, 4".toList := by
    refine @Respells.registers _ _ [.scalar, .scalar, .other] ?_ ?_ ?_
    · rw [hs, ht]
    · rw [hs]
      decide +kernel
    · rw [hs, ht]
      exact .cons (.scalar hregister) (.cons (.same _ _) (.cons (.same _ _) .nil))
  have hletters : Respells "ld x10, sp, 4".toList "LD x10, sp, 4".toList :=
    .letters (by decide +kernel) (by decide +kernel) (by decide +kernel)
  exact ((Relation.ReflTransGen.single hform).tail hnames).tail hletters

theorem spellings_assemble_alike_of_load :
    assemble "v: lw a0, 4(sp)\nhalt".toList = .ok ⟨[0x00412503, 0xFFFFFFFF], [], 0x200⟩ ∧
      List.Forall₂ SourceLine.Respells (sourceLines "v: lw a0, 4(sp)\nhalt".toList)
        (sourceLines "v: LD x10, sp, 4\nhalt".toList) ∧
      assemble "v: LD x10, sp, 4\nhalt".toList = .ok ⟨[0x00412503, 0xFFFFFFFF], [], 0x200⟩ := by
  have hp : assemble "v: lw a0, 4(sp)\nhalt".toList =
      .ok ⟨[0x00412503, 0xFFFFFFFF], [], 0x200⟩ := by decide +kernel
  have hs : sourceLines "v: lw a0, 4(sp)\nhalt".toList =
      [⟨1, "v: lw a0, 4(sp)".toList⟩, ⟨2, "halt".toList⟩] := by decide +kernel
  have ht : sourceLines "v: LD x10, sp, 4\nhalt".toList =
      [⟨1, "v: LD x10, sp, 4".toList⟩, ⟨2, "halt".toList⟩] := by decide +kernel
  have hlines : List.Forall₂ SourceLine.Respells (sourceLines "v: lw a0, 4(sp)\nhalt".toList)
      (sourceLines "v: LD x10, sp, 4\nhalt".toList) := by
    rw [hs, ht]
    exact .cons ⟨by decide +kernel, by decide +kernel, respells_load⟩
      (.cons ⟨rfl, rfl, .refl⟩ .nil)
  exact ⟨hp, hlines, spellings_assemble_alike hp hlines⟩

end TileCore

import TileCore.Proofs.Assembly.Numbers
import TileCore.Proofs.Assembly.Programs
import TileCore.Proofs.Text.LetterCase

/-!
# Offsets in addresses

The address of a load, a store or an indirect jump is an offset and a base register, one of which
stands in parentheses. It is cut at its first parenthesis. A number or a label has none of its own,
so as the offset of an address it means what it means as an operand. A part of the address of a
label is written with parentheses, the cut goes through it, and neither spelling of the address is
read, although the forms with three operands take the same offset.

## Main definitions

* `IsParen`: the two parentheses.
* `namesPart`: an operand that asks for a part of the address of a label.
* `addressSpellings`: the two ways to write an address.
* `TakesAddress`, `RefusesAddress`: what the instructions with an address make of it.

## Main results

* `notMem_of_resolveImmediate`, `notMem_of_readRegister?`: numbers, labels and registers hold no
  parenthesis.
* `resolveAddress_append`, `resolveAddress_cons`: what the two spellings are read as.
* `resolveAddress_of_resolveImmediate`: addresses with a number or a label as the offset.
* `resolveAddress_of_namesPart`: addresses with any other offset.
* `offsets_of_addresses`: the offsets that the instructions with an address take.
-/

namespace TileCore

open Text

/-! ### Parentheses -/

/-- An opening or a closing parenthesis. -/
def IsParen (c : Char) : Prop := c = '(' ∨ c = ')'

theorem IsParen.isForeign {c : Char} (hc : IsParen c) : IsForeign c := by
  rcases hc with rfl | rfl <;> decide

section Readers

variable {c : Char} {s : Text}

/-- A label holds no parenthesis. -/
theorem notMem_of_isLabel (hc : IsParen c) (h : isLabel s = true) : c ∉ s := by
  intro hmem
  have hrest := isLabelRest_of_mem h c hmem
  rcases hc with rfl | rfl <;> cases hrest

/-- A register by its number holds no parenthesis. -/
theorem notMem_of_readIndex? {letter : Char} {count i : Nat} (hc : IsParen c) (hletter : c ≠ letter)
    (h : readIndex? letter count s = some i) : c ∉ s := by
  cases s with
  | nil => exact List.not_mem_nil
  | cons d digits =>
    rw [readIndex?] at h
    split_ifs at h with heq
    obtain ⟨number, hnumber, -, hn⟩ :=
      (readNat_eq_ok_iff (by decide) (by decide)).mp (Except.toOption_eq_some_iff.mp h)
    have hdigits : c ∉ number := fun hmem =>
      hn.ne_of_mem (by decide) hmem hc.isForeign.notDigit rfl
    rw [heq, List.mem_cons, not_or]
    refine ⟨hletter, ?_⟩
    rcases hnumber with rfl | rfl
    · exact hdigits
    · exact List.not_mem_cons_of_ne_of_not_mem hc.isForeign.notSign.1 hdigits

/-- The name of a register holds no parenthesis. -/
theorem notMem_of_readRegister? {r : Nat} (hc : IsParen c) (h : readRegister? s = some r) :
    c ∉ s := by
  intro hmem
  have hlower : c ∈ lowercase (trim s) := by
    have htrim := mem_trim hmem hc.isForeign.notBlank
    rcases hc with rfl | rfl
    · exact toLower_mem_lowercase (by decide) htrim
    · exact toLower_mem_lowercase (by decide) htrim
  rw [readRegister?] at h
  cases hindex : readIndex? 'x' scalarCount (lowercase (trim s)) with
  | some i =>
    have hletter : c ≠ 'x' := by rcases hc with rfl | rfl <;> decide
    exact notMem_of_readIndex? hc hletter hindex hlower
  | none =>
    rw [hindex] at h
    obtain ⟨entry, hentry, -⟩ := Option.map_eq_some_iff.mp h
    have hname := List.find?_some hentry
    rw [beq_iff_eq] at hname
    have hnames : ∀ entry ∈ registerNames, '(' ∉ entry.1.toList ∧ ')' ∉ entry.1.toList := by decide
    obtain ⟨hopen, hclose⟩ := hnames entry (List.mem_of_find?_eq_some hentry)
    rw [← hname] at hlower
    rcases hc with rfl | rfl
    · exact hopen hlower
    · exact hclose hlower

end Readers

/-! ### Blanks -/

section Blanks

variable {labels : Labels} {s t : Text}

theorem resolveImmediate_of_trim_eq (h : trim s = trim t) :
    resolveImmediate labels s = resolveImmediate labels t := by
  simp only [resolveImmediate, h]

theorem scalarOperand_of_trim_eq {r : Nat} (h : trim s = trim t) (ht : readRegister? t = some r) :
    scalarOperand s = .ok r := by
  have hs : readRegister? s = some r := by
    simp only [readRegister?, h]
    exact ht
  rw [scalarOperand, hs]

theorem trim_ne_nil_of_readRegister? {r : Nat} (h : readRegister? s = some r) : trim s ≠ [] := by
  intro hnil
  simp only [readRegister?, hnil] at h
  cases h

end Blanks

/-! ### Parts of the address of a label -/

/-- Whether an operand asks for the upper or the lower part of the address of a label. -/
def namesPart (operand : Text) : Bool :=
  (betweenParens? "%hi(" (trim operand)).isSome || (betweenParens? "%lo(" (trim operand)).isSome

theorem eq_of_betweenParens? {mark : String} {s t : Text} (h : betweenParens? mark s = some t) :
    s = mark.toList ++ t ++ [')'] := by
  obtain ⟨rest, hrest, ht⟩ := Option.bind_eq_some_iff.mp h
  rw [eq_of_afterStart? hrest, eq_of_beforeEnd? ht, List.append_assoc]

/-- Such an operand is a mark and a label in parentheses. -/
theorem exists_mark_of_namesPart {s : Text} (h : namesPart s = true) :
    ∃ mark label : Text, (mark = "hi".toList ∨ mark = "lo".toList) ∧
      trim s = '%' :: mark ++ '(' :: label ++ [')'] := by
  rw [namesPart, Bool.or_eq_true, Option.isSome_iff_exists, Option.isSome_iff_exists] at h
  rcases h with ⟨label, h⟩ | ⟨label, h⟩
  · refine ⟨"hi".toList, label, .inl rfl, ?_⟩
    rw [eq_of_betweenParens? h]
    rfl
  · refine ⟨"lo".toList, label, .inr rfl, ?_⟩
    rw [eq_of_betweenParens? h]
    rfl

/-- Numbers and labels hold no parenthesis. -/
theorem notMem_of_resolveImmediate {labels : Labels} {s : Text} {v : Int} {c : Char}
    (h : resolveImmediate labels s = .ok v) (hpart : namesPart s = false) (hc : IsParen c) :
    c ∉ s := by
  refine fun hmem => absurd (mem_trim hmem hc.isForeign.notBlank) ?_
  rw [namesPart, Bool.or_eq_false_iff, Option.isSome_eq_false_iff, Option.isSome_eq_false_iff,
    Option.isNone_iff_eq_none, Option.isNone_iff_eq_none] at hpart
  simp only [resolveImmediate, hpart.1, hpart.2] at h
  split at h
  · next hread => exact notMem_of_readImmediate? hc.isForeign hread
  · split_ifs at h with hlabel
    exact notMem_of_isLabel hc hlabel

/-- What begins like a part but holds no closing parenthesis is no immediate. -/
theorem resolveImmediate_of_notMem (labels : Labels) {s : Text}
    (hhead : (trim s).head? = some '%') (hs : ')' ∉ s) :
    resolveImmediate labels s = .error (.invalidImmediate (trim s)) := by
  have hparen (mark : String) : betweenParens? mark (trim s) = none := by
    rw [Option.eq_none_iff_forall_ne_some]
    intro label hlabel
    refine hs ((isInfix_trim s).subset ?_)
    rw [eq_of_betweenParens? hlabel]
    exact List.mem_append_right _ List.mem_cons_self
  obtain ⟨t, ht⟩ : ∃ t, trim s = '%' :: t := List.head?_eq_some_iff.mp hhead
  have hread : readImmediate? (trim s) = none := by
    rw [ht]
    exact readImmediate?_of_head (by rw [← ht, trim_trim]) (by decide) (by decide) (by decide)
  have hlabel : isLabel (trim s) = false := by
    rw [ht]
    rfl
  simp only [resolveImmediate, hread, hparen, hlabel]
  rfl

/-! ### Addresses -/

/-- The two ways to write an address with an offset. -/
def addressSpellings (offset base : Text) : List Text :=
  [offset ++ '(' :: base ++ [')'], '(' :: offset ++ ')' :: base]

section Spellings

variable {labels : Labels} {imm reg : Text} {v : Int} {r : Nat}

/-- Blanks in front of an address with its base in parentheses are trimmed away. -/
theorem exists_trim_eq_append (reg : Text) (himm : trim imm ≠ []) :
    ∃ b : Text, (∀ c ∈ b, isBlank c = true) ∧
      trim (imm ++ '(' :: reg ++ [')']) = trim imm ++ b ++ '(' :: reg ++ [')'] := by
  obtain ⟨a, b, heq, ha, hb⟩ := exists_blanks imm
  have htrimmed : IsTrimmed (trim imm ++ (b ++ '(' :: reg) ++ [')']) :=
    (isTrimmed_trim imm).append (isTrimmed_singleton (by decide)) himm (List.cons_ne_nil _ _) _
  refine ⟨b, hb, ?_⟩
  calc trim (imm ++ '(' :: reg ++ [')'])
      = trim (a ++ trim imm ++ b ++ '(' :: reg ++ [')']) := by rw [← heq]
    _ = trim (a ++ (trim imm ++ (b ++ '(' :: reg) ++ [')'])) := by simp only [List.append_assoc]
    _ = trim imm ++ (b ++ '(' :: reg) ++ [')'] := by
      rw [trim_blanks_append ha, htrimmed.trim_eq]
    _ = trim imm ++ b ++ '(' :: reg ++ [')'] := by simp only [List.append_assoc]

/-- Blanks behind an address with its offset in parentheses are trimmed away. -/
theorem exists_trim_eq_cons (imm : Text) (hreg : trim reg ≠ []) :
    ∃ a : Text, (∀ c ∈ a, isBlank c = true) ∧
      trim ('(' :: imm ++ ')' :: reg) = '(' :: imm ++ ')' :: (a ++ trim reg) := by
  obtain ⟨a, b, heq, ha, hb⟩ := exists_blanks reg
  have htrimmed : IsTrimmed (['('] ++ (imm ++ ')' :: a) ++ trim reg) :=
    (isTrimmed_singleton (by decide)).append (isTrimmed_trim reg) (List.cons_ne_nil _ _) hreg _
  refine ⟨a, ha, ?_⟩
  calc trim ('(' :: imm ++ ')' :: reg)
      = trim ('(' :: imm ++ ')' :: (a ++ trim reg ++ b)) := by rw [← heq]
    _ = trim (['('] ++ (imm ++ ')' :: a) ++ trim reg ++ b) := by
      simp only [List.append_assoc, List.cons_append, List.nil_append]
    _ = ['('] ++ (imm ++ ')' :: a) ++ trim reg := by
      rw [trim_append_blanks hb, htrimmed.trim_eq]
    _ = '(' :: imm ++ ')' :: (a ++ trim reg) := by
      simp only [List.append_assoc, List.cons_append, List.nil_append]

/-- An address with its base in parentheses is read as its base and its offset, which is zero if
nothing is written in front of the base. -/
theorem resolveAddress_append (hopen : '(' ∉ imm) (hreg : readRegister? reg = some r) :
    resolveAddress labels (imm ++ '(' :: reg ++ [')']) =
      if trim imm = [] then .ok (0, r) else (resolveImmediate labels imm).map fun v => (v, r) := by
  split_ifs with himm₀
  · obtain ⟨a, b, heq, ha, hb⟩ := exists_blanks imm
    have hblank : ∀ c ∈ imm, isBlank c = true := by
      rw [heq, himm₀, List.append_nil]
      exact List.forall_mem_append.mpr ⟨ha, hb⟩
    have htrimmed : IsTrimmed (['('] ++ reg ++ [')']) :=
      (isTrimmed_singleton (by decide)).append (isTrimmed_singleton (by decide))
        (List.cons_ne_nil _ _) (List.cons_ne_nil _ _) _
    have htrim : trim (imm ++ '(' :: reg ++ [')']) = '(' :: (reg ++ [')']) := by
      rw [List.append_assoc, trim_blanks_append hblank]
      exact htrimmed.trim_eq
    have hclose : ')' ∉ reg := notMem_of_readRegister? (.inr rfl) hreg
    have hsplit : splitFirst? (· == ')') (reg ++ [')']) = some (reg, []) := by
      refine splitFirst?_append (fun c hc => beq_eq_false_iff_ne.mpr ?_) (beq_self_eq_true ')')
      rintro rfl
      exact hclose hc
    simp only [resolveAddress, htrim, hsplit, scalarOperand_of_trim_eq rfl hreg]
    rfl
  · obtain ⟨b, hb, htrim⟩ := exists_trim_eq_append reg himm₀
    have hoffset : trim (trim imm ++ b) = trim imm := by
      rw [trim_append_blanks hb, trim_trim]
    have hparen : '(' ∉ trim imm ++ b := by
      rw [List.mem_append, not_or]
      exact ⟨fun h => hopen ((isInfix_trim imm).subset h), fun h => absurd (hb _ h) (by decide)⟩
    have hoffset₀ : trim (trim imm ++ b) ≠ [] := by rwa [hoffset]
    rw [resolveAddress_of_trim_eq_append labels htrim hparen hoffset₀,
      resolveImmediate_of_trim_eq hoffset, scalarOperand_of_trim_eq rfl hreg]
    cases resolveImmediate labels imm <;> rfl

/-- An address with its offset in parentheses is read as its offset and its base. -/
theorem resolveAddress_cons (hclose : ')' ∉ imm) (hreg : readRegister? reg = some r) :
    resolveAddress labels ('(' :: imm ++ ')' :: reg) =
      (resolveImmediate labels imm).map fun v => (v, r) := by
  have hreg₀ := trim_ne_nil_of_readRegister? hreg
  obtain ⟨a, ha, htrim⟩ := exists_trim_eq_cons imm hreg₀
  have hbase : trim (a ++ trim reg) = trim reg := by
    rw [trim_blanks_append ha, trim_trim]
  have hbase₀ : trim (a ++ trim reg) ≠ [] := by rwa [hbase]
  rw [resolveAddress_of_trim_eq_cons labels htrim hclose hbase₀,
    scalarOperand_of_trim_eq hbase hreg]
  cases resolveImmediate labels imm <;> rfl

/-- An offset without a parenthesis of its own is the offset of an address in both spellings. -/
theorem resolveAddress_of_mem_addressSpellings (himm₀ : trim imm ≠ [])
    (hparen : ∀ c, IsParen c → c ∉ imm) (hreg : readRegister? reg = some r) :
    ∀ addr ∈ addressSpellings imm reg,
      resolveAddress labels addr = (resolveImmediate labels imm).map fun v => (v, r) := by
  intro addr haddr
  rw [addressSpellings, List.mem_cons, List.mem_singleton] at haddr
  rcases haddr with rfl | rfl
  · rw [resolveAddress_append (hparen '(' (.inl rfl)) hreg, if_neg himm₀]
  · exact resolveAddress_cons (hparen ')' (.inr rfl)) hreg

/-- A number or a label is the offset of an address in both spellings. -/
theorem resolveAddress_of_resolveImmediate (himm : resolveImmediate labels imm = .ok v)
    (hreg : readRegister? reg = some r) (hpart : namesPart imm = false) :
    ∀ addr ∈ addressSpellings imm reg, resolveAddress labels addr = .ok (v, r) := by
  intro addr haddr
  rw [resolveAddress_of_mem_addressSpellings (trim_ne_nil_of_resolveImmediate himm)
    (fun c hc => notMem_of_resolveImmediate himm hpart hc) hreg addr haddr, himm]
  rfl

/-- A part of the address of a label is the offset of no address. -/
theorem resolveAddress_of_namesPart (labels : Labels) (himm : namesPart imm = true)
    (hreg : trim reg ≠ []) :
    ∀ addr ∈ addressSpellings imm reg,
      ∃ s, resolveAddress labels addr = .error (.invalidImmediate s) := by
  obtain ⟨mark, label, hmark, htrim⟩ := exists_mark_of_namesPart himm
  have hopen : '(' ∉ '%' :: mark := by rcases hmark with rfl | rfl <;> decide
  have hclose : ')' ∉ '%' :: mark := by rcases hmark with rfl | rfl <;> decide
  intro addr haddr
  rw [addressSpellings, List.mem_cons, List.mem_singleton] at haddr
  rcases haddr with rfl | rfl
  · -- The first parenthesis is the one behind the mark, and the mark alone is the offset.
    have himm₀ : trim imm ≠ [] := by
      rw [htrim]
      exact List.cons_ne_nil _ _
    obtain ⟨b, -, haddr⟩ := exists_trim_eq_append reg himm₀
    have hsplit : trim (imm ++ '(' :: reg ++ [')']) =
        '%' :: mark ++ '(' :: (label ++ ')' :: b ++ '(' :: reg) ++ [')'] := by
      rw [haddr, htrim]
      simp only [List.append_assoc, List.cons_append, List.nil_append]
    have hhead : (trim ('%' :: mark)).head? = some '%' :=
      head?_trim_append (a := []) (fun c hc => absurd hc List.not_mem_nil) (by decide)
    have hoffset : trim ('%' :: mark) ≠ [] := fun h => by
      rw [h] at hhead
      cases hhead
    rw [resolveAddress_of_trim_eq_append labels hsplit hopen hoffset,
      resolveImmediate_of_notMem labels hhead hclose]
    exact ⟨_, rfl⟩
  · -- The first closing parenthesis is that of the part, or one in its label.
    obtain ⟨a, b, heq, ha, -⟩ := exists_blanks imm
    obtain ⟨c, -, haddr⟩ := exists_trim_eq_cons imm hreg
    obtain ⟨u, w, hlabel, hu⟩ : ∃ u w, label ++ [')'] = u ++ ')' :: w ∧ ')' ∉ u :=
      List.eq_append_cons_of_mem (List.mem_append_right label List.mem_cons_self)
    have hsplit : trim ('(' :: imm ++ ')' :: reg) =
        '(' :: (a ++ '%' :: (mark ++ '(' :: u)) ++ ')' :: (w ++ b ++ ')' :: (c ++ trim reg)) := by
      have hpart : trim imm = '%' :: (mark ++ '(' :: (u ++ ')' :: w)) := by
        simp only [htrim, List.append_assoc, List.cons_append, hlabel]
      rw [haddr, heq, hpart]
      simp only [List.append_assoc, List.cons_append]
    have hhead : (trim (a ++ '%' :: (mark ++ '(' :: u))).head? = some '%' :=
      head?_trim_append ha (by decide)
    have hparen : ')' ∉ a ++ '%' :: (mark ++ '(' :: u) := by
      rw [← List.cons_append, List.mem_append, List.mem_append, not_or, not_or]
      exact ⟨fun h => absurd (ha _ h) (by decide), hclose, List.not_mem_cons_of_ne_of_not_mem
        (by decide) hu⟩
    have hbase : trim (w ++ b ++ ')' :: (c ++ trim reg)) ≠ [] :=
      List.ne_nil_of_mem (mem_trim (c := ')') (by simp) (by decide))
    rw [resolveAddress_of_trim_eq_cons labels hsplit hparen hbase,
      resolveImmediate_of_notMem labels hhead hparen]
    exact ⟨_, rfl⟩

end Spellings

/-! ### Instructions with an address -/

/-- The instructions with an address take the offset and the base register out of it, as the forms
with three operands take them from operands of their own. -/
structure TakesAddress (labels : Labels) (addr imm reg : Text) (v : Int) (r : Nat) : Prop where
  /-- What the address is read as. -/
  address : resolveAddress labels addr = .ok (v, r)
  /-- Loads. -/
  load : ∀ pc name rd,
    Mnemonic.load.read labels pc name [rd, addr] = Mnemonic.load.read labels pc name [rd, reg, imm]
  /-- Stores, which in the other form name the base register first. -/
  store : ∀ pc name rs2,
    Mnemonic.store.read labels pc name [rs2, addr] =
      Mnemonic.store.read labels pc name [reg, rs2, imm]
  /-- Indirect jumps. -/
  jalr : ∀ pc name rd,
    Mnemonic.jalr.read labels pc name [rd, addr] = Mnemonic.jalr.read labels pc name [rd, reg, imm]
  /-- Loads of a tile, which have no other form. -/
  tileLoad : ∀ pc name md stride,
    Mnemonic.tileLoad.read labels pc name [md, stride, addr] = (do
      let md ← tileOperand md
      let stride ← scalarOperand stride
      let imm ← checkSigned name 11 v
      return .tileLoad md r stride imm)
  /-- Stores of a tile. -/
  tileStore : ∀ pc name md stride,
    Mnemonic.tileStore.read labels pc name [md, stride, addr] = (do
      let md ← tileOperand md
      let stride ← scalarOperand stride
      let imm ← checkSigned name 11 v
      return .tileStore md r stride imm)

/-- No instruction takes the address, and all of them give the same cause. -/
structure RefusesAddress (labels : Labels) (addr : Text) (cause : AssemblyCause) : Prop where
  /-- Why the address is not read. -/
  address : resolveAddress labels addr = .error cause
  /-- Loads. -/
  load : ∀ pc name rd, Mnemonic.load.read labels pc name [rd, addr] = .error cause
  /-- Stores. -/
  store : ∀ pc name rs2, Mnemonic.store.read labels pc name [rs2, addr] = .error cause
  /-- Indirect jumps. -/
  jalr : ∀ pc name rd, Mnemonic.jalr.read labels pc name [rd, addr] = .error cause
  /-- Loads of a tile. -/
  tileLoad : ∀ pc name md stride,
    Mnemonic.tileLoad.read labels pc name [md, stride, addr] = .error cause
  /-- Stores of a tile. -/
  tileStore : ∀ pc name md stride,
    Mnemonic.tileStore.read labels pc name [md, stride, addr] = .error cause

section Instructions

variable {labels : Labels} {addr imm reg : Text} {v : Int} {r : Nat}

theorem takesAddress_of_resolveAddress (haddr : resolveAddress labels addr = .ok (v, r))
    (himm : resolveImmediate labels imm = .ok v) (hreg : readRegister? reg = some r) :
    TakesAddress labels addr imm reg v r := by
  have hbase : scalarOperand reg = .ok r := scalarOperand_of_trim_eq rfl hreg
  refine ⟨haddr, fun pc name rd => ?_, fun pc name rs2 => ?_, fun pc name rd => ?_,
    fun pc name md stride => ?_, fun pc name md stride => ?_⟩
  all_goals simp only [Mnemonic.read, haddr, hbase, himm]
  all_goals rfl

theorem refusesAddress_of_resolveAddress {cause : AssemblyCause}
    (haddr : resolveAddress labels addr = .error cause) : RefusesAddress labels addr cause := by
  refine ⟨haddr, fun pc name rd => ?_, fun pc name rs2 => ?_, fun pc name rd => ?_,
    fun pc name md stride => ?_, fun pc name md stride => ?_⟩
  all_goals simp only [Mnemonic.read, haddr]
  all_goals rfl

/-- An immediate and a register make an address in two spellings. The instructions take it when the
immediate is a number or a label, and refuse it when it is a part of the address of a label. -/
theorem offsets_of_addresses (himm : resolveImmediate labels imm = .ok v)
    (hreg : readRegister? reg = some r) :
    ∀ addr ∈ addressSpellings imm reg,
      (namesPart imm = false → TakesAddress labels addr imm reg v r) ∧
        (namesPart imm = true → ∃ s, RefusesAddress labels addr (.invalidImmediate s)) := by
  intro addr haddr
  refine ⟨fun hpart => ?_, fun hpart => ?_⟩
  · exact takesAddress_of_resolveAddress
      (resolveAddress_of_resolveImmediate himm hreg hpart addr haddr) himm hreg
  · obtain ⟨s, hs⟩ := resolveAddress_of_namesPart labels hpart
      (trim_ne_nil_of_readRegister? hreg) addr haddr
    exact ⟨s, refusesAddress_of_resolveAddress hs⟩

end Instructions

/-- The labels of a source with one word of data. -/
def wordLabels : Labels := [("v".toList, 0x200)]

theorem offsets_of_addresses_of_word :
    TakesAddress wordLabels "( v )sp".toList " v ".toList "sp".toList 0x200 2 ∧
      ∃ s, RefusesAddress wordLabels "%lo(v)(x2)".toList (.invalidImmediate s) := by
  have hlabel : resolveImmediate wordLabels " v ".toList = .ok 0x200 := by decide +kernel
  have hpart : resolveImmediate wordLabels "%lo(v)".toList = .ok 0x200 := by decide +kernel
  have hsp : readRegister? "sp".toList = some 2 := by decide
  have hx2 : readRegister? "x2".toList = some 2 := by decide
  exact ⟨(offsets_of_addresses hlabel hsp _ (by decide)).1 (by decide),
    (offsets_of_addresses hpart hx2 _ (by decide)).2 (by decide)⟩

/-- The form with three operands takes an offset that neither spelling of the address takes. -/
theorem lower_part_refused_in_address :
    resolveImmediate wordLabels "%lo(v)".toList = .ok 0x200 ∧
      readRegister? "x2".toList = some 2 ∧
      resolveAddress wordLabels "%lo(v)(x2)".toList = .error (.invalidImmediate "%lo".toList) ∧
      resolveAddress wordLabels "(%lo(v))x2".toList = .error (.invalidImmediate "%lo(v".toList) ∧
      assemble ".data\nv: .word 1\n.text\nlw x1, x2, %lo(v)".toList =
        .ok ⟨[0x20012083], [1, 0, 0, 0], 0x200⟩ ∧
      assemble ".data\nv: .word 1\n.text\nlw x1, %lo(v)(x2)".toList =
        .error ⟨4, .invalidImmediate "%lo".toList⟩ :=
  ⟨by decide +kernel, by decide, rfl, rfl, by decide +kernel, by decide +kernel⟩

end TileCore

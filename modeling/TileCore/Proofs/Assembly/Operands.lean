import TileCore.Assembly.Listing
import TileCore.Proofs.Text.Decimal
import TileCore.Proofs.Text.Pieces

/-!
# Reading written operands

Registers by number, numbers in decimal and addresses made of both are read back as what they were
written for.

## Main definitions

* `isOperandChar`: the characters of these operands.

## Main results

* `scalarOperand_scalarText`, `tileOperand_tileRegisterText`: registers.
* `readImmediate?_integerText`, `resolveImmediate_integerText`: numbers.
* `readImmediate?_of_isLabel`: labels are no numbers.
* `resolveImmediate_hi`, `resolveImmediate_lo`: the parts of the address of a label.
* `resolveAddress_of_trim_eq_append`, `resolveAddress_of_trim_eq_cons`: the two ways to write an
  address.
* `resolveAddress_addressText`: addresses in a listing.
-/

namespace TileCore

open Text

/-! ### Characters -/

/-- The characters of registers by number, numbers in decimal and addresses. -/
def isOperandChar (c : Char) : Bool := c.isLower || c.isDigit || c == '-' || c == '(' || c == ')'

/-- A character of the seven-bit range beyond the blanks is no blank. -/
theorem isBlank_eq_false {c : Char} (hlow : 0x21 ≤ c.toNat) (hhigh : c.toNat < 0x80) :
    isBlank c = false := by
  simp only [isBlank, List.any_eq_false, Bool.and_eq_true, decide_eq_true_eq]
  intro r hr
  simp only [blankRanges, List.mem_cons, List.not_mem_nil, or_false] at hr
  rcases hr with rfl | rfl | rfl | rfl | rfl | rfl | rfl | rfl | rfl | rfl <;> simp <;> omega

theorem toNat_of_isOperandChar {c : Char} (h : isOperandChar c = true) :
    0x21 ≤ c.toNat ∧ c.toNat < 0x80 := by
  simp only [isOperandChar, Bool.or_eq_true, beq_iff_eq] at h
  rcases h with (((h | h) | rfl) | rfl) | rfl
  · have := toNat_of_isLower h
    omega
  · have := toNat_of_isDigit h
    omega
  · decide
  · decide
  · decide

theorem isBlank_of_isOperandChar {c : Char} (h : isOperandChar c = true) : isBlank c = false :=
  isBlank_eq_false (toNat_of_isOperandChar h).1 (toNat_of_isOperandChar h).2

theorem isOperandChar_of_isDigit {c : Char} (h : c.isDigit = true) : isOperandChar c = true := by
  simp [isOperandChar, h]

/-- A row of such characters is not changed by trimming. -/
theorem trim_of_isOperandChar {s : Text} (h : ∀ c ∈ s, isOperandChar c = true) : trim s = s :=
  (isTrimmed_of_forall fun c hc => isBlank_of_isOperandChar (h c hc)).trim_eq

/-- Nor by lower-casing. -/
theorem lowercase_of_isOperandChar {s : Text} (h : ∀ c ∈ s, isOperandChar c = true) :
    lowercase s = s := by
  refine lowercase_eq_self fun c hc => ⟨(toNat_of_isOperandChar (h c hc)).2, ?_⟩
  have hc := h c hc
  simp only [isOperandChar, Bool.or_eq_true, beq_iff_eq] at hc
  have hupper (d : Char) (hd : 0x5B ≤ d.toNat ∨ d.toNat ≤ 0x40) : d.isUpper = false := by
    rw [Bool.eq_false_iff]
    intro h
    have := toNat_of_isUpper h
    omega
  rcases hc with (((hc | hc) | rfl) | rfl) | rfl
  · have := toNat_of_isLower hc
    exact hupper c (by omega)
  · have := toNat_of_isDigit hc
    exact hupper c (by omega)
  · decide
  · decide
  · decide

theorem isOperandChar_toDigits (n : Nat) : ∀ c ∈ Nat.toDigits 10 n, isOperandChar c = true :=
  fun c hc => isOperandChar_of_isDigit ((isDecimal_toDigits n).digits c hc)

/-! ### Registers -/

theorem isOperandChar_scalarText (i : Nat) : ∀ c ∈ scalarText i, isOperandChar c = true := by
  rw [scalarText, toList_toString]
  exact List.forall_mem_cons.mpr ⟨by decide, isOperandChar_toDigits i⟩

theorem isOperandChar_tileRegisterText (i : Nat) :
    ∀ c ∈ tileRegisterText i, isOperandChar c = true := by
  rw [tileRegisterText, toList_toString]
  exact List.forall_mem_cons.mpr ⟨by decide, isOperandChar_toDigits i⟩

theorem readIndex?_toDigits {letter : Char} {i count : Nat} (h : i < count) :
    readIndex? letter count (letter :: Nat.toDigits 10 i) = some i := by
  rw [readIndex?, if_pos rfl, readNat_toDigits (by omega)]
  rfl

theorem readRegister?_scalarText {i : Nat} (h : i < scalarCount) :
    readRegister? (scalarText i) = some i := by
  simp only [readRegister?, trim_of_isOperandChar (isOperandChar_scalarText i),
    lowercase_of_isOperandChar (isOperandChar_scalarText i)]
  rw [scalarText, toList_toString, readIndex?_toDigits h]
  rfl

theorem scalarOperand_scalarText {i : Nat} (h : i < scalarCount) :
    scalarOperand (scalarText i) = .ok i := by
  rw [scalarOperand, readRegister?_scalarText h]

theorem tileOperand_tileRegisterText {i : Nat} (h : i < tileCount) :
    tileOperand (tileRegisterText i) = .ok i := by
  have hread : readTile? (tileRegisterText i) = some i := by
    rw [readTile?, trim_of_isOperandChar (isOperandChar_tileRegisterText i),
      lowercase_of_isOperandChar (isOperandChar_tileRegisterText i), tileRegisterText,
      toList_toString, readIndex?_toDigits h]
  rw [tileOperand, hread]

/-! ### Numbers -/

theorem integerText_of_nonneg {z : Int} (h : 0 ≤ z) :
    integerText z = Nat.toDigits 10 z.toNat := by
  rw [integerText, Int.toString_eq_repr, Int.repr_eq_if, if_pos h, Nat.toList_repr]

theorem integerText_of_neg {z : Int} (h : z < 0) :
    integerText z = '-' :: Nat.toDigits 10 (-z).toNat := by
  rw [integerText, Int.toString_eq_repr, Int.repr_eq_if, if_neg (by omega), String.toList_append,
    Nat.toList_repr]
  rfl

theorem isOperandChar_integerText (z : Int) : ∀ c ∈ integerText z, isOperandChar c = true := by
  by_cases h : 0 ≤ z
  · rw [integerText_of_nonneg h]
    exact isOperandChar_toDigits _
  · rw [integerText_of_neg (by omega)]
    exact List.forall_mem_cons.mpr ⟨by decide, isOperandChar_toDigits _⟩

theorem integerText_ne_nil (z : Int) : integerText z ≠ [] := by
  by_cases h : 0 ≤ z
  · rw [integerText_of_nonneg h]
    exact Nat.toDigits_ne_nil
  · rw [integerText_of_neg (by omega)]
    exact List.cons_ne_nil _ _

theorem ne_paren_of_mem_integerText {z : Int} {c : Char} (hc : c ∈ integerText z) : c ≠ '(' := by
  rintro rfl
  by_cases h : 0 ≤ z
  · rw [integerText_of_nonneg h] at hc
    exact absurd ((isDecimal_toDigits _).digits _ hc) (by decide)
  · rw [integerText_of_neg (by omega), List.mem_cons] at hc
    rcases hc with hc | hc
    · exact absurd hc (by decide)
    · exact absurd ((isDecimal_toDigits _).digits _ hc) (by decide)

/-- Decimal digits carry no mark of another base. -/
theorem readMagnitude?_of_isDecimal {s : Text} (hs : IsDecimal s) :
    readMagnitude? s = readInt? 10 s := by
  have hmark (c : Char) (h : c.isDigit = false) : c ∉ s := fun hc => by
    rw [hs.digits c hc] at h
    cases h
  unfold readMagnitude?
  split
  · exact absurd (by simp) (hmark 'x' (by decide))
  · exact absurd (by simp) (hmark 'o' (by decide))
  · exact absurd (by simp) (hmark 'b' (by decide))
  · next c t _ _ _ => rw [if_pos (hs.digits c List.mem_cons_self)]
  · exact absurd rfl hs.ne_nil

theorem readMagnitude?_toDigits {n : Nat} (h : n ≤ maxInt64) :
    readMagnitude? (lowercase (Nat.toDigits 10 n)) = some (n : Int) := by
  rw [lowercase_of_isOperandChar (isOperandChar_toDigits n),
    readMagnitude?_of_isDecimal (isDecimal_toDigits n), readInt?_toDigits h]

theorem readImmediate?_integerText {z : Int} (h : z.natAbs ≤ maxInt64) :
    readImmediate? (integerText z) = some z := by
  rw [readImmediate?, trim_of_isOperandChar (isOperandChar_integerText z)]
  by_cases hz : 0 ≤ z
  · rw [integerText_of_nonneg hz]
    have hsign (c : Char) (hc : c.isDigit = false) : c ∉ Nat.toDigits 10 z.toNat := fun hmem => by
      rw [(isDecimal_toDigits _).digits c hmem] at hc
      cases hc
    split
    · next s heq => exact absurd (by rw [heq]; simp) (hsign '-' (by decide))
    · next s heq => exact absurd (by rw [heq]; simp) (hsign '+' (by decide))
    · rw [readMagnitude?_toDigits (by omega), Int.toNat_of_nonneg hz]
  · rw [integerText_of_neg (by omega)]
    simp only [readMagnitude?_toDigits (show (-z).toNat ≤ maxInt64 by omega), Option.map_some,
      negate64_of_nonneg (Int.natCast_nonneg _)]
    congr 1
    omega

theorem resolveImmediate_integerText (labels : Labels) {z : Int} (h : z.natAbs ≤ maxInt64) :
    resolveImmediate labels (integerText z) = .ok z := by
  simp only [resolveImmediate, trim_of_isOperandChar (isOperandChar_integerText z),
    readImmediate?_integerText h]

/-! ### Labels -/

theorem toNat_of_isLabelRest {c : Char} (h : isLabelRest c = true) :
    0x21 ≤ c.toNat ∧ c.toNat < 0x80 := by
  have hclass : (((c.isUpper || c.isLower) || c.isDigit) || c == '_' || c == '.') = true := h
  simp only [Bool.or_eq_true, beq_iff_eq] at hclass
  rcases hclass with (((h | h) | h) | rfl) | rfl
  · have := toNat_of_isUpper h
    omega
  · have := toNat_of_isLower h
    omega
  · have := toNat_of_isDigit h
    omega
  · decide
  · decide

theorem isLabelRest_of_isLabelStart {c : Char} (h : isLabelStart c = true) :
    isLabelRest c = true := by
  change ((c.isAlpha || c.isDigit) || c == '_' || c == '.') = true
  simp only [isLabelStart, Bool.or_eq_true] at h ⊢
  rcases h with (h | h) | h
  · exact .inl (.inl (.inl h))
  · exact .inl (.inr h)
  · exact .inr h

theorem isLabelRest_of_mem {s : Text} (h : isLabel s = true) : ∀ c ∈ s, isLabelRest c = true := by
  cases s with
  | nil => cases h
  | cons c s =>
    rw [isLabel, Bool.and_eq_true, List.all_eq_true] at h
    exact List.forall_mem_cons.mpr ⟨isLabelRest_of_isLabelStart h.1, h.2⟩

/-- A label has no blanks at its ends. -/
theorem trim_of_isLabel {s : Text} (h : isLabel s = true) : trim s = s := by
  refine (isTrimmed_of_forall fun c hc => ?_).trim_eq
  obtain ⟨hlow, hhigh⟩ := toNat_of_isLabelRest (isLabelRest_of_mem h c hc)
  exact isBlank_eq_false hlow hhigh

/-- In lower case a label does not begin with a digit either. -/
theorem isDigit_toLower_of_isLabelStart {c : Char} (h : isLabelStart c = true) :
    c.toLower.isDigit = false := by
  have hsmall : ∀ n < 0x80, isLabelStart (Char.ofNat n) = true →
      (Char.ofNat n).toLower.isDigit = false := by decide
  have := hsmall c.toNat (toNat_of_isLabelRest (isLabelRest_of_isLabelStart h)).2
  rw [Char.ofNat_toNat] at this
  exact this h

theorem readMagnitude?_of_not_isDigit {c : Char} (h : c.isDigit = false) (s : Text) :
    readMagnitude? (c :: s) = none := by
  have hzero : c ≠ '0' := by
    rintro rfl
    cases h
  unfold readMagnitude?
  split
  · next heq => exact absurd (List.cons.inj heq).1 hzero
  · next heq => exact absurd (List.cons.inj heq).1 hzero
  · next heq => exact absurd (List.cons.inj heq).1 hzero
  · next heq =>
    obtain ⟨rfl, rfl⟩ := List.cons.inj heq
    rw [h]
    rfl
  · next heq => cases heq

/-- What begins with neither a sign nor a digit is no number. -/
theorem readImmediate?_of_head {c : Char} {s : Text} (htrim : trim (c :: s) = c :: s)
    (hsmall : c.toNat < 0x80) (hsign : c ≠ '-' ∧ c ≠ '+') (hdigit : c.toLower.isDigit = false) :
    readImmediate? (c :: s) = none := by
  have hlower : lowercase (c :: s) = c.toLower :: lowercaseAfter [c] s := by
    have hne (d : Char) (hd : 0x80 ≤ d.toNat) : c ≠ d := by
      rintro rfl
      omega
    rw [lowercase, lowercaseAfter, lowerAt, if_neg (hne 'İ' (by decide)),
      if_neg (hne 'Σ' (by decide)), lowerChar, if_pos hsmall]
    rfl
  rw [readImmediate?, htrim]
  split
  · next heq => exact absurd (List.cons.inj heq).1 hsign.1
  · next heq => exact absurd (List.cons.inj heq).1 hsign.2
  · rw [hlower, readMagnitude?_of_not_isDigit hdigit]

/-- A label is no number. -/
theorem readImmediate?_of_isLabel {s : Text} (h : isLabel s = true) : readImmediate? s = none := by
  have htrim := trim_of_isLabel h
  cases s with
  | nil => cases h
  | cons c s =>
    rw [isLabel, Bool.and_eq_true] at h
    have hstart := h.1
    have hsmall := (toNat_of_isLabelRest (isLabelRest_of_isLabelStart hstart)).2
    have hne (d : Char) (hd : isLabelStart d = false) : c ≠ d := by
      rintro rfl
      rw [hd] at hstart
      cases hstart
    exact readImmediate?_of_head htrim hsmall ⟨hne '-' (by decide), hne '+' (by decide)⟩
      (isDigit_toLower_of_isLabelStart hstart)

/-- A label between a mark and a parenthesis has no blanks at its ends. -/
theorem trim_markedLabel {mark : String} {label : Text}
    (hmark : mark.toList.all (fun c => !isBlank c) = true) (h : isLabel label = true) :
    trim (mark.toList ++ label ++ [')']) = mark.toList ++ label ++ [')'] := by
  refine (isTrimmed_of_forall fun c hc => ?_).trim_eq
  rw [List.mem_append, List.mem_append, List.mem_singleton] at hc
  rcases hc with (hc | hc) | rfl
  · simpa using List.all_eq_true.mp hmark c hc
  · obtain ⟨hlow, hhigh⟩ := toNat_of_isLabelRest (isLabelRest_of_mem h c hc)
    exact isBlank_eq_false hlow hhigh
  · decide

theorem betweenParens?_append (mark : String) (s : Text) :
    betweenParens? mark (mark.toList ++ s ++ [')']) = some s := by
  rw [betweenParens?, List.append_assoc, afterStart?_append, Option.bind_some, beforeEnd?_append]

section Marked

variable {labels : Labels} {label : Text} {addr : Word}

theorem lookupLabel_of_isLabel (h : isLabel label = true)
    (haddr : labels.lookup label = some addr) :
    lookupLabel labels label = .ok (addr.toNat : Int) := by
  rw [lookupLabel, trim_of_isLabel h, haddr]

/-- The upper part of the address of a label. -/
theorem resolveImmediate_hi (h : isLabel label = true) (haddr : labels.lookup label = some addr) :
    resolveImmediate labels ("%hi(".toList ++ label ++ [')']) = .ok (upperPart addr.toNat) := by
  have hmark : "%hi(".toList.all (fun c => !isBlank c) = true := by decide
  have htrim := trim_markedLabel hmark h
  have hread : readImmediate? ("%hi(".toList ++ label ++ [')']) = none :=
    readImmediate?_of_head htrim (by decide) (by decide) (by decide)
  simp only [resolveImmediate, htrim, hread, betweenParens?_append,
    lookupLabel_of_isLabel h haddr]
  rfl

/-- The lower part of the address of a label. -/
theorem resolveImmediate_lo (h : isLabel label = true) (haddr : labels.lookup label = some addr) :
    resolveImmediate labels ("%lo(".toList ++ label ++ [')']) = .ok (lowerPart addr.toNat) := by
  have hmark : "%lo(".toList.all (fun c => !isBlank c) = true := by decide
  have htrim := trim_markedLabel hmark h
  have hread : readImmediate? ("%lo(".toList ++ label ++ [')']) = none :=
    readImmediate?_of_head htrim (by decide) (by decide) (by decide)
  have hhi : betweenParens? "%hi(" ("%lo(".toList ++ label ++ [')']) = none := rfl
  simp only [resolveImmediate, htrim, hread, hhi, betweenParens?_append,
    lookupLabel_of_isLabel h haddr]
  rfl

end Marked

/-! ### Addresses -/

theorem trim_ne_nil_of_resolveImmediate {labels : Labels} {s : Text} {v : Int}
    (h : resolveImmediate labels s = .ok v) : trim s ≠ [] := by
  intro hnil
  simp only [resolveImmediate, hnil] at h
  cases h

section Addresses

variable (labels : Labels) {addr offset base : Text}

/-- An address with its base in parentheses. -/
theorem resolveAddress_of_trim_eq_append (haddr : trim addr = offset ++ '(' :: base ++ [')'])
    (hparen : '(' ∉ offset) (hoffset : trim offset ≠ []) :
    resolveAddress labels addr = (do
      let imm ← resolveImmediate labels offset
      let rs1 ← scalarOperand base
      return (imm, rs1)) := by
  have hsplit : splitFirst? (· == '(') (trim addr) = some (offset, base ++ [')']) := by
    rw [haddr, List.append_assoc, List.cons_append]
    refine splitFirst?_append (fun c hc => beq_eq_false_iff_ne.mpr ?_) (beq_self_eq_true '(')
    rintro rfl
    exact hparen hc
  unfold resolveAddress
  dsimp only
  split
  · next inner hinner =>
    exfalso
    rw [haddr] at hinner
    cases offset with
    | nil => exact hoffset rfl
    | cons c offset =>
      rw [List.cons_append, List.cons_append] at hinner
      exact hparen ((List.cons.inj hinner).1 ▸ List.mem_cons_self)
  · simp only [hsplit, beforeEnd?_append, if_neg hoffset]

/-- An address with its offset in parentheses. -/
theorem resolveAddress_of_trim_eq_cons (haddr : trim addr = '(' :: offset ++ ')' :: base)
    (hparen : ')' ∉ offset) (hbase : trim base ≠ []) :
    resolveAddress labels addr = (do
      let imm ← resolveImmediate labels offset
      let rs1 ← scalarOperand base
      return (imm, rs1)) := by
  have hsplit : splitFirst? (· == ')') (offset ++ ')' :: base) = some (offset, base) := by
    refine splitFirst?_append (fun c hc => beq_eq_false_iff_ne.mpr ?_) (beq_self_eq_true ')')
    rintro rfl
    exact hparen hc
  rw [List.cons_append] at haddr
  simp only [resolveAddress, haddr, hsplit, if_neg hbase]

end Addresses

theorem isOperandChar_addressText (imm : Int) (base : Nat) :
    ∀ c ∈ addressText imm base, isOperandChar c = true := by
  intro c hc
  rw [addressText, List.mem_append, List.mem_append, List.mem_cons, List.mem_singleton] at hc
  rcases hc with (hc | rfl | hc) | rfl
  · exact isOperandChar_integerText imm c hc
  · decide
  · exact isOperandChar_scalarText base c hc
  · decide

theorem resolveAddress_addressText (labels : Labels) {imm : Int} {base : Nat}
    (himm : imm.natAbs ≤ maxInt64) (hbase : base < scalarCount) :
    resolveAddress labels (addressText imm base) = .ok (imm, base) := by
  have htrim : trim (addressText imm base) = integerText imm ++ '(' :: scalarText base ++ [')'] :=
    trim_of_isOperandChar (isOperandChar_addressText imm base)
  have hparen : '(' ∉ integerText imm := fun hmem => ne_paren_of_mem_integerText hmem rfl
  have hoffset := resolveImmediate_integerText labels himm
  rw [resolveAddress_of_trim_eq_append labels htrim hparen
    (trim_ne_nil_of_resolveImmediate hoffset), hoffset, scalarOperand_scalarText hbase]
  rfl

end TileCore

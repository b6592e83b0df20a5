import TileCore.Proofs.Text.Numerals

/-!
# The case of seven-bit letters

Texts that differ in the case of their seven-bit letters only have the same lower case. The final
form of a sigma asks for the letters around it, but only for whether they have case, and in this a
small letter and its capital letter agree.

## Main definitions

* `Text.SameLetters`: texts that differ in the case of seven-bit letters only.

## Main results

* `Text.toLower_mem_lowercase`: the letters of the lower case.
* `Text.SameLetters.lowercase_eq`: such texts have the same lower case.
* `Text.SameLetters.trim`: they are the same letters without the blanks at their ends.
-/

namespace TileCore.Text

/-- Two texts differ in the case of seven-bit letters only. -/
def SameLetters (s t : Text) : Prop := s.map Char.toLower = t.map Char.toLower

instance (s t : Text) : Decidable (SameLetters s t) := inferInstanceAs (Decidable (_ = _))

/-! ### Small letters -/

/-- What every capital letter of the seven-bit range has in common with its small letter, every
character has in common with its small letter. -/
theorem toLower_eq_of_forall_isUpper {α : Type} (f : Char → α)
    (h : ∀ n < 0x80, (Char.ofNat n).isUpper = true → f (Char.ofNat n).toLower = f (Char.ofNat n))
    (c : Char) : f c.toLower = f c := by
  by_cases hupper : c.isUpper = true
  · have hc := toNat_of_isUpper hupper
    exact of_forall_ascii (P := fun c => c.isUpper = true → f c.toLower = f c) h (by omega) hupper
  · have hsame : c.toLower = c := dif_neg fun hrange => hupper (decide_eq_true hrange)
    rw [hsame]

theorem isBlank_toLower (c : Char) : isBlank c.toLower = isBlank c :=
  toLower_eq_of_forall_isUpper isBlank (by decide +kernel) c

theorem isCased_toLower (c : Char) : isCased c.toLower = isCased c :=
  toLower_eq_of_forall_isUpper isCased (by decide +kernel) c

/-- No letter of the seven-bit range is transparent to the end of a word. -/
theorem isCaseIgnorable_of_isAlpha {c : Char} (h : c.isAlpha = true) :
    isCaseIgnorable c = false := by
  have hapart : ∀ r ∈ caseIgnorableRanges, r.2 < 65 ∨ (90 < r.1 ∧ r.2 < 97) ∨ 122 < r.1 := by
    decide +kernel
  have hc : (65 ≤ c.toNat ∧ c.toNat ≤ 90) ∨ (97 ≤ c.toNat ∧ c.toNat ≤ 122) := by
    rcases Bool.or_eq_true_iff.mp h with hupper | hlower
    · exact .inl (toNat_of_isUpper hupper)
    · exact .inr (toNat_of_isLower hlower)
  rw [isCaseIgnorable, inRanges, List.any_eq_false]
  intro r hr
  have := hapart r hr
  simp only [Bool.and_eq_true, decide_eq_true_eq]
  omega

theorem isCaseIgnorable_toLower (c : Char) : isCaseIgnorable c.toLower = isCaseIgnorable c := by
  refine toLower_eq_of_forall_isUpper isCaseIgnorable (fun n hn hupper => ?_) c
  have hlower : ∀ n < 0x80, (Char.ofNat n).isUpper = true →
      (Char.ofNat n).toLower.isLower = true := by decide
  rw [isCaseIgnorable_of_isAlpha (Bool.or_eq_true_iff.mpr (.inl hupper)),
    isCaseIgnorable_of_isAlpha (Bool.or_eq_true_iff.mpr (.inr (hlower n hn hupper)))]

theorem toLower_toLower (c : Char) : c.toLower.toLower = c.toLower :=
  toLower_eq_of_forall_isUpper Char.toLower (by decide +kernel) c

theorem toNat_toLower {c : Char} (h : c.toNat < 0x80) : c.toLower.toNat < 0x80 :=
  of_forall_ascii (P := fun c => c.toLower.toNat < 0x80) (by decide) h

theorem meetsCased_map_toLower (s : Text) : meetsCased (s.map Char.toLower) = meetsCased s := by
  have hsame : (isCaseIgnorable ∘ Char.toLower) = isCaseIgnorable :=
    funext isCaseIgnorable_toLower
  rw [meetsCased, meetsCased, List.dropWhile_map, hsame]
  cases s.dropWhile isCaseIgnorable with
  | nil => rfl
  | cons c rest => exact isCased_toLower c

theorem lowerAt_map_toLower (before : Text) (c : Char) (after : Text) :
    lowerAt (before.map Char.toLower) c.toLower (after.map Char.toLower) =
      lowerAt before c after := by
  by_cases hc : c.toNat < 0x80
  · rw [lowerAt_of_ascii hc, lowerAt_of_ascii (toNat_toLower hc), toLower_toLower]
  · rw [toLower_of_not_ascii hc, lowerAt, lowerAt, meetsCased_map_toLower, meetsCased_map_toLower]

/-- The lower case of a text does not depend on the case of its seven-bit letters. -/
theorem lowercase_map_toLower (s : Text) : lowercase (s.map Char.toLower) = lowercase s := by
  have hafter (before : Text) : lowercaseAfter (before.map Char.toLower) (s.map Char.toLower) =
      lowercaseAfter before s := by
    induction s generalizing before with
    | nil => rfl
    | cons c s ih =>
      rw [List.map_cons, lowercaseAfter, lowercaseAfter, lowerAt_map_toLower, ← List.map_cons, ih]
  exact hafter []

/-- The small letter of a seven-bit character of a text is in its lower case. -/
theorem toLower_mem_lowercase {s : Text} {c : Char} (hc : c.toNat < 0x80) (h : c ∈ s) :
    c.toLower ∈ lowercase s := by
  have hafter (before : Text) : c.toLower ∈ lowercaseAfter before s := by
    induction s generalizing before with
    | nil => cases h
    | cons d s ih =>
      rw [lowercaseAfter, List.mem_append]
      rcases List.mem_cons.mp h with rfl | h
      · rw [lowerAt_of_ascii hc]
        exact .inl List.mem_cons_self
      · exact .inr (ih h _)
  exact hafter []

theorem trim_map_toLower (s : Text) : trim (s.map Char.toLower) = (trim s).map Char.toLower := by
  have hsame : (isBlank ∘ Char.toLower) = isBlank := funext isBlank_toLower
  simp only [trim, trimLeft, trimRight, List.dropWhile_map, hsame, ← List.map_reverse]

/-! ### Texts with the same letters -/

namespace SameLetters

variable {s t : Text}

theorem symm (h : SameLetters s t) : SameLetters t s := Eq.symm h

theorem lowercase_eq (h : SameLetters s t) : lowercase s = lowercase t := by
  rw [← lowercase_map_toLower s, h, lowercase_map_toLower]

theorem trim (h : SameLetters s t) : SameLetters (trim s) (trim t) := by
  rw [SameLetters, ← trim_map_toLower, h, trim_map_toLower]

end SameLetters

end TileCore.Text

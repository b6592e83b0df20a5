import TileCore.Text.Numeral

/-!
# Reading decimal numerals

A number written in decimal is read back as long as it keeps below the limit, because reading adds
one digit after the other to a number that only grows.

## Main definitions

* `Text.IsDecimal`: a row of decimal digits.

## Main results

* `Text.readDigits_of_isDigit`: reading digits behind a number.
* `Text.readNat_toDigits`, `Text.readInt?_toDigits`: reading the decimal digits of a number.
-/

namespace TileCore.Text

/-- A row of decimal digits, at least one. -/
structure IsDecimal (s : Text) : Prop where
  /-- There is a digit. -/
  ne_nil : s ≠ []
  /-- There is nothing else. -/
  digits : ∀ c ∈ s, c.isDigit = true

theorem isDecimal_toDigits (n : Nat) : IsDecimal (Nat.toDigits 10 n) :=
  ⟨Nat.toDigits_ne_nil, fun _ hc => Nat.isDigit_of_mem_toDigits (by decide) (by decide) hc⟩

theorem toList_toString (n : Nat) : (toString n).toList = Nat.toDigits 10 n := Nat.toList_repr

theorem toNat_of_isDigit {c : Char} (h : c.isDigit = true) : 48 ≤ c.toNat ∧ c.toNat ≤ 57 := by
  simp only [Char.isDigit, Bool.and_eq_true, decide_eq_true_eq] at h
  exact ⟨h.1, h.2⟩

theorem toNat_of_isLower {c : Char} (h : c.isLower = true) : 97 ≤ c.toNat ∧ c.toNat ≤ 122 := by
  have hbounds : (decide (c.val ≥ 'a'.val) && decide (c.val ≤ 'z'.val)) = true := h
  rw [Bool.and_eq_true, decide_eq_true_eq, decide_eq_true_eq] at hbounds
  exact ⟨hbounds.1, hbounds.2⟩

theorem toNat_of_isUpper {c : Char} (h : c.isUpper = true) : 65 ≤ c.toNat ∧ c.toNat ≤ 90 := by
  have hbounds : c.val ≥ 'A'.val ∧ c.val ≤ 'Z'.val := of_decide_eq_true h
  exact ⟨hbounds.1, hbounds.2⟩

theorem digitValue?_of_isDigit {c : Char} (h : c.isDigit = true) :
    digitValue? 10 c = some (c.toNat - '0'.toNat) := by
  have hrange := toNat_of_isDigit h
  have hzero : '0'.toNat = 48 := rfl
  have hlt : c.toNat - '0'.toNat < 10 := by omega
  rw [digitValue?, if_pos h, Option.filter_some, decide_eq_true hlt]
  rfl

theorem le_ofDigitChars (s : Text) (acc : Nat) : acc ≤ Nat.ofDigitChars 10 s acc := by
  induction s generalizing acc with
  | nil => simp
  | cons c s ih =>
    rw [Nat.ofDigitChars_cons]
    have := ih (10 * acc + (c.toNat - '0'.toNat))
    omega

/-- Digits are read behind a number if the whole stays below the limit. -/
theorem readDigits_of_isDigit {s : Text} (hs : ∀ c ∈ s, c.isDigit = true) {limit acc : Nat}
    (hlimit : Nat.ofDigitChars 10 s acc ≤ limit) :
    readDigits 10 limit acc s = .ok (Nat.ofDigitChars 10 s acc) := by
  induction s generalizing acc with
  | nil => simp [readDigits]
  | cons c s ih =>
    obtain ⟨hc, hs⟩ := List.forall_mem_cons.mp hs
    rw [Nat.ofDigitChars_cons] at hlimit ⊢
    have hnext := Nat.le_trans (le_ofDigitChars s _) hlimit
    rw [readDigits, digitValue?_of_isDigit hc]
    simp only [if_pos hnext]
    exact ih hs hlimit

theorem IsDecimal.readNat {s : Text} (hs : IsDecimal s) {limit : Nat}
    (hlimit : Nat.ofDigitChars 10 s 0 ≤ limit) :
    Text.readNat 10 limit s = .ok (Nat.ofDigitChars 10 s 0) := by
  have hread := readDigits_of_isDigit hs.digits hlimit
  rw [← hread]
  have hplus : ('+' : Char) ∉ s := fun h => absurd (hs.digits _ h) (by decide)
  unfold Text.readNat
  split
  · exact absurd rfl hs.ne_nil
  · exact absurd List.mem_cons_self hplus
  · rfl

theorem IsDecimal.readInt? {s : Text} (hs : IsDecimal s)
    (hlimit : Nat.ofDigitChars 10 s 0 ≤ maxInt64) :
    Text.readInt? 10 s = some (Nat.ofDigitChars 10 s 0 : Int) := by
  have hminus : ('-' : Char) ∉ s := fun h => absurd (hs.digits _ h) (by decide)
  unfold Text.readInt?
  split
  · exact absurd List.mem_cons_self hminus
  · rw [hs.readNat hlimit]
    rfl

theorem readNat_toDigits {n limit : Nat} (h : n ≤ limit) :
    readNat 10 limit (Nat.toDigits 10 n) = .ok n := by
  have hlimit : Nat.ofDigitChars 10 (Nat.toDigits 10 n) 0 ≤ limit := by
    rwa [Nat.ofDigitChars_ten_toDigits]
  have hread := (isDecimal_toDigits n).readNat hlimit
  rwa [Nat.ofDigitChars_ten_toDigits] at hread

theorem readInt?_toDigits {n : Nat} (h : n ≤ maxInt64) :
    readInt? 10 (Nat.toDigits 10 n) = some (n : Int) := by
  have hread := (isDecimal_toDigits n).readInt?
  rw [Nat.ofDigitChars_ten_toDigits] at hread
  exact hread h

end TileCore.Text

import Mathlib.Data.List.Forall2
import Mathlib.Data.Nat.Digits.Defs
import TileCore.Proofs.Text.Decimal
import TileCore.Proofs.Text.Pieces

/-!
# Numerals in any base

Which texts are numerals, said without reading them: a row of digits of a base, in either letter
case, stands for the number with these digits. Reading adds one digit after the other to a number
that only grows, so the limit can be checked at the end as well, and what is read is exactly the
numerals up to the limit. A signed numeral may carry one sign of its own, and what it may come to
depends on that sign.

## Main definitions

* `Text.IsDigit`: the digits of a base.
* `Text.IsNumeral`: rows of digits and their numbers.
* `Text.Sign`: no sign or one of the two signs.

## Main results

* `Text.readDigits_eq_ok_iff`: what reading digits behind a number comes to.
* `Text.readInt?_eq_some_iff`: the signed numerals.
* `Text.ascii_of_lowercase`: seven-bit characters come from seven-bit characters, the k apart.
-/

namespace TileCore.Text

/-! ### Digits -/

/-- A property of seven-bit characters holds if it holds of each of them. -/
theorem of_forall_ascii {P : Char → Prop} (h : ∀ n < 0x80, P (Char.ofNat n)) {c : Char}
    (hc : c.toNat < 0x80) : P c := by
  have hlow := h c.toNat hc
  rwa [Char.ofNat_toNat] at hlow

/-- The digit of a value in a base, in either letter case. -/
def IsDigit (base d : Nat) (c : Char) : Prop :=
  d < base ∧ (c = d.digitChar ∨ c = d.digitChar.toUpper)

instance (base d : Nat) (c : Char) : Decidable (IsDigit base d c) :=
  inferInstanceAs (Decidable (_ ∧ (_ ∨ _)))

/-- A row of digits of a base and the number that it stands for; the first digit counts most. -/
def IsNumeral (base : Nat) (s : Text) (n : Nat) : Prop :=
  s ≠ [] ∧ ∃ ds, List.Forall₂ (IsDigit base) ds s ∧ n = Nat.ofDigits base ds.reverse

section Digits

variable {base d : Nat} {c : Char}

theorem IsDigit.ascii (hbase : base ≤ 16) (h : IsDigit base d c) : c.toNat < 0x80 := by
  have hall : ∀ d < 16, d.digitChar.toNat < 0x80 ∧ d.digitChar.toUpper.toNat < 0x80 := by decide
  obtain ⟨hlow, hup⟩ := hall d (Nat.lt_of_lt_of_le h.1 hbase)
  rcases h.2 with rfl | rfl
  · exact hlow
  · exact hup

theorem isDigit_iff_sixteen (hbase : base ≤ 16) :
    IsDigit base d c ↔ d < base ∧ IsDigit 16 d c := by
  simp only [IsDigit]
  exact ⟨fun h => ⟨h.1, by omega, h.2⟩, fun h => ⟨h.1, h.2.2⟩⟩

theorem ascii_of_digitValue? (h : digitValue? base c = some d) : c.toNat < 0x80 := by
  rw [digitValue?] at h
  split_ifs at h with hdigit hlower hupper
  · have := toNat_of_isDigit hdigit
    omega
  · have := toNat_of_isLower hlower
    omega
  · have := toNat_of_isUpper hupper
    omega
  · cases h

/-- The characters that are read as digits. -/
theorem digitValue?_eq_some_iff (hbase : base ≤ 16) :
    digitValue? base c = some d ↔ IsDigit base d c := by
  have hlow : ∀ n < 0x80, ∀ d < 16, digitValue? 16 (Char.ofNat n) = some d ↔
      IsDigit 16 d (Char.ofNat n) := by
    decide +kernel
  have hvalue : digitValue? base c = some d ↔ d < base ∧ digitValue? 16 c = some d := by
    simp only [digitValue?, Option.filter_eq_some_iff, decide_eq_true_eq]
    constructor
    · rintro ⟨hv, hd⟩
      exact ⟨hd, hv, by omega⟩
    · rintro ⟨hd, hv, -⟩
      exact ⟨hv, hd⟩
  rw [hvalue, isDigit_iff_sixteen hbase]
  refine and_congr_right fun hd => ?_
  by_cases hc : c.toNat < 0x80
  · exact of_forall_ascii (P := fun c => ∀ d < 16, digitValue? 16 c = some d ↔ IsDigit 16 d c)
      hlow hc d (by omega)
  · exact ⟨fun h => absurd (ascii_of_digitValue? h) hc, fun h => absurd (h.ascii le_rfl) hc⟩

end Digits

/-! ### Rows of digits -/

section Rows

variable {base limit acc n : Nat} {s : Text}

/-- A number grows as digits follow. -/
theorem le_append_digits (hbase : 0 < base) (ds : List Nat) (acc : Nat) :
    acc ≤ base ^ ds.length * acc + Nat.ofDigits base ds.reverse :=
  Nat.le_add_right_of_le (Nat.le_mul_of_pos_left acc (Nat.pow_pos hbase))

theorem append_digits_cons (base d acc : Nat) (ds : List Nat) :
    base ^ (d :: ds).length * acc + Nat.ofDigits base (d :: ds).reverse =
      base ^ ds.length * (base * acc + d) + Nat.ofDigits base ds.reverse := by
  rw [Nat.ofDigits_reverse_cons, List.length_cons, Nat.pow_succ]
  ring

/-- Reading digits behind a number. -/
theorem readDigits_eq_ok_iff (hpos : 0 < base) (hbase : base ≤ 16) (hacc : acc ≤ limit) :
    readDigits base limit acc s = .ok n ↔ n ≤ limit ∧ ∃ ds, List.Forall₂ (IsDigit base) ds s ∧
      n = base ^ ds.length * acc + Nat.ofDigits base ds.reverse := by
  induction s generalizing acc with
  | nil =>
    constructor
    · rintro ⟨⟩
      exact ⟨hacc, [], .nil, by simp⟩
    · rintro ⟨-, _, ⟨⟩, rfl⟩
      simp [readDigits]
  | cons c s ih =>
    rw [readDigits]
    constructor
    · intro h
      split at h
      · cases h
      · next d hd =>
        split_ifs at h with hnext
        obtain ⟨hle, ds, hall, rfl⟩ := (ih hnext).mp h
        exact ⟨hle, d :: ds, .cons ((digitValue?_eq_some_iff hbase).mp hd) hall,
          (append_digits_cons base d acc ds).symm⟩
    · rintro ⟨hle, _, hall, hn⟩
      cases hall with
      | @cons d _ ds _ hdigit hall =>
        rw [append_digits_cons] at hn
        have hnext : base * acc + d ≤ limit :=
          Nat.le_trans (hn ▸ le_append_digits hpos ds _) hle
        rw [(digitValue?_eq_some_iff hbase).mpr hdigit]
        simp only [if_pos hnext]
        exact (ih hnext).mpr ⟨hle, ds, hall, hn⟩

/-- Reading a row of digits. -/
theorem readDigits_zero_eq_ok_iff (hpos : 0 < base) (hbase : base ≤ 16) (hs : s ≠ []) :
    readDigits base limit 0 s = .ok n ↔ n ≤ limit ∧ IsNumeral base s n := by
  rw [readDigits_eq_ok_iff hpos hbase (Nat.zero_le limit)]
  simp only [IsNumeral, Nat.mul_zero, Nat.zero_add, and_iff_right hs]

end Rows

/-! ### Signs -/

/-- No sign or one of the two signs. -/
inductive Sign
  | none | plus | minus
  deriving DecidableEq

namespace Sign

/-- A sign as it is written. -/
def text : Sign → Text
  | none => []
  | plus => ['+']
  | minus => ['-']

/-- What a sign makes of one. -/
def factor : Sign → Int
  | none | plus => 1
  | minus => -1

/-- The largest number that fits a signed 64-bit register behind the sign. -/
def limit : Sign → Nat
  | none | plus => maxInt64
  | minus => maxInt64 + 1

end Sign

section Signed

variable {base limit n : Nat} {s : Text} {c : Char}

theorem IsNumeral.exists_cons (h : IsNumeral base s n) : ∃ c t, s = c :: t :=
  List.exists_cons_of_ne_nil h.1

theorem IsNumeral.exists_isDigit (h : IsNumeral base s n) (hc : c ∈ s) :
    ∃ d, IsDigit base d c := by
  obtain ⟨-, ds, hall, -⟩ := h
  induction hall with
  | nil => cases hc
  | @cons d e ds s hdigit _ ih =>
    rcases List.mem_cons.mp hc with rfl | hc
    · exact ⟨d, hdigit⟩
    · exact ih hc

/-- What is no digit is not in a numeral. -/
theorem IsNumeral.ne_of_mem (hbase : base ≤ 16) (h : IsNumeral base s n) (hc : c ∈ s) {e : Char}
    (he : ∀ d < 16, ¬IsDigit 16 d e) : c ≠ e := by
  rintro rfl
  obtain ⟨d, hdigit⟩ := h.exists_isDigit hc
  obtain ⟨hd, hdigit⟩ := (isDigit_iff_sixteen hbase).mp hdigit
  exact he d (by omega) hdigit

theorem IsNumeral.ascii (hbase : base ≤ 16) (h : IsNumeral base s n) :
    ∀ c ∈ s, c.toNat < 0x80 := by
  intro c hc
  obtain ⟨d, hdigit⟩ := h.exists_isDigit hc
  exact hdigit.ascii hbase

theorem IsNumeral.isDecimal (h : IsNumeral 10 s n) : IsDecimal s where
  ne_nil := h.1
  digits := by
    have hall : ∀ d < 10, d.digitChar.isDigit = true ∧ d.digitChar.toUpper.isDigit = true := by
      decide
    intro c hc
    obtain ⟨d, hd, hdigit⟩ := h.exists_isDigit hc
    rcases hdigit with rfl | rfl
    · exact (hall d hd).1
    · exact (hall d hd).2

theorem readNat_cons (hc : c ≠ '+') (t : Text) :
    readNat base limit (c :: t) = readDigits base limit 0 (c :: t) := by
  unfold readNat
  split
  · next heq => cases heq
  · next heq =>
    cases heq
    exact absurd rfl hc
  · rfl

theorem readInt?_of_not_minus (h : ∀ c t, s ≠ '-' :: c :: t) :
    readInt? base s = (readNat base maxInt64 s).toOption.map Int.ofNat := by
  unfold readInt?
  split
  · next c t => exact absurd rfl (h c t)
  · rfl

theorem readInt?_minus_cons (base : Nat) (c : Char) (t : Text) :
    readInt? base ('-' :: c :: t) =
      (readDigits base (maxInt64 + 1) 0 (c :: t)).toOption.map fun n : Nat => -(n : Int) := by
  rw [readInt?]
  cases readDigits base (maxInt64 + 1) 0 (c :: t) <;> rfl

theorem Except.toOption_eq_some_iff {ε α : Type} {x : Except ε α} {a : α} :
    x.toOption = some a ↔ x = .ok a := by
  cases x <;> simp [Except.toOption]

theorem readNat_eq_ok_iff (hpos : 0 < base) (hbase : base ≤ 16) :
    readNat base limit s = .ok n ↔
      ∃ t, (s = t ∨ s = '+' :: t) ∧ n ≤ limit ∧ IsNumeral base t n := by
  constructor
  · intro h
    unfold readNat at h
    split at h
    · cases h
    · next c t =>
      exact ⟨c :: t, .inr rfl, (readDigits_zero_eq_ok_iff hpos hbase (List.cons_ne_nil c t)).mp h⟩
    · next hne _ => exact ⟨s, .inl rfl, (readDigits_zero_eq_ok_iff hpos hbase hne).mp h⟩
  · rintro ⟨t, hs, hn⟩
    obtain ⟨c, t, rfl⟩ := hn.2.exists_cons
    have hc : c ≠ '+' := hn.2.ne_of_mem hbase List.mem_cons_self (by decide)
    have hread := (readDigits_zero_eq_ok_iff hpos hbase (List.cons_ne_nil c t)).mpr hn
    rcases hs with rfl | rfl
    · rwa [readNat_cons hc]
    · exact hread

/-- The signed numerals: a row of digits behind a sign of their own or behind none, which fits a
signed 64-bit register. -/
theorem readInt?_eq_some_iff (hpos : 0 < base) (hbase : base ≤ 16) {z : Int} :
    readInt? base s = some z ↔ ∃ sign : Sign, ∃ t n, s = sign.text ++ t ∧ IsNumeral base t n ∧
      n ≤ sign.limit ∧ z = sign.factor * n := by
  constructor
  · intro h
    by_cases hminus : ∃ c t, s = '-' :: c :: t
    · obtain ⟨c, t, rfl⟩ := hminus
      rw [readInt?_minus_cons] at h
      obtain ⟨n, hread, rfl⟩ := Option.map_eq_some_iff.mp h
      obtain ⟨hle, hn⟩ := (readDigits_zero_eq_ok_iff hpos hbase (List.cons_ne_nil c t)).mp
        (Except.toOption_eq_some_iff.mp hread)
      exact ⟨.minus, c :: t, n, rfl, hn, hle, (Int.neg_one_mul _).symm⟩
    · rw [readInt?_of_not_minus fun c t hs => hminus ⟨c, t, hs⟩] at h
      obtain ⟨n, hread, rfl⟩ := Option.map_eq_some_iff.mp h
      obtain ⟨t, hs, hle, hn⟩ :=
        (readNat_eq_ok_iff hpos hbase).mp (Except.toOption_eq_some_iff.mp hread)
      rcases hs with rfl | rfl
      · exact ⟨.none, s, n, rfl, hn, hle, (Int.one_mul _).symm⟩
      · exact ⟨.plus, t, n, rfl, hn, hle, (Int.one_mul _).symm⟩
  · rintro ⟨sign, t, n, rfl, hn, hle, rfl⟩
    obtain ⟨c, t, rfl⟩ := hn.exists_cons
    have hc : c ≠ '-' := hn.ne_of_mem hbase List.mem_cons_self (by decide)
    cases sign with
    | none =>
      have hread : readNat base maxInt64 (c :: t) = .ok n :=
        (readNat_eq_ok_iff hpos hbase).mpr ⟨c :: t, .inl rfl, hle, hn⟩
      rw [Sign.text, List.nil_append, Sign.factor, Int.one_mul,
        readInt?_of_not_minus fun _ _ hs => hc (List.cons.inj hs).1, hread]
      rfl
    | plus =>
      have hread : readNat base maxInt64 ('+' :: c :: t) = .ok n :=
        (readNat_eq_ok_iff hpos hbase).mpr ⟨c :: t, .inr rfl, hle, hn⟩
      rw [Sign.text, List.singleton_append, Sign.factor, Int.one_mul,
        readInt?_of_not_minus fun _ _ hs => absurd (List.cons.inj hs).1 (by decide), hread]
      rfl
    | minus =>
      have hread : readDigits base (maxInt64 + 1) 0 (c :: t) = .ok n :=
        (readDigits_zero_eq_ok_iff hpos hbase (List.cons_ne_nil c t)).mpr ⟨hle, hn⟩
      rw [Sign.text, List.singleton_append, Sign.factor, Int.neg_one_mul, readInt?_minus_cons,
        hread]
      rfl

end Signed

/-! ### Lower case -/

section LowerCase

theorem toNat_ofNat {n : Nat} (h : n.isValidChar) : (Char.ofNat n).toNat = n := by
  rw [Char.ofNat, dif_pos h]
  rfl

/-- The partners of other characters are no seven-bit characters either, but for that of the sign
for one kelvin. -/
theorem lowerChar_of_not_ascii {c : Char} (h : ¬c.toNat < 0x80) :
    0x80 ≤ (lowerChar c).toNat ∨ lowerChar c = 'k' := by
  have hruns : ∀ r ∈ lowerRuns, (r.first = r.last ∧ (r.first : Int) + r.shift = 0x6B) ∨
      (0x80 ≤ (r.first : Int) + r.shift ∧ ((r.last : Int) + r.shift < 0xD800 ∨
        0xDFFF < (r.first : Int) + r.shift ∧ (r.last : Int) + r.shift < 0x110000)) := by
    decide +kernel
  rw [lowerChar, if_neg h]
  split
  · next r hr =>
    have hin := List.find?_some hr
    simp only [LowerRun.contains, Bool.and_eq_true, decide_eq_true_eq] at hin
    obtain ⟨⟨hfirst, hlast⟩, -⟩ := hin
    rcases hruns r (List.mem_of_find?_eq_some hr) with ⟨hone, hkelvin⟩ | ⟨hlow, hvalid⟩
    · have hc : ((c.toNat : Int) + r.shift).toNat = 0x6B := by omega
      rw [hc]
      exact .inr rfl
    · rw [toNat_ofNat (by simp only [Nat.isValidChar]; omega)]
      omega
  · exact .inl (Nat.le_of_not_lt h)

theorem ascii_of_lowercaseAfter {before s : Text}
    (h : ∀ c ∈ lowercaseAfter before s, c.toNat < 0x80 ∧ c ≠ 'k') : ∀ c ∈ s, c.toNat < 0x80 := by
  induction s generalizing before with
  | nil => simp
  | cons c s ih =>
    rw [lowercaseAfter, List.forall_mem_append] at h
    obtain ⟨hat, hrest⟩ := h
    refine List.forall_mem_cons.mpr ⟨?_, ih hrest⟩
    by_contra hc
    rw [lowerAt] at hat
    split_ifs at hat with hdot hsigma hfinal
    · exact absurd (hat '\u0307' (by simp)).1 (by decide)
    · exact absurd (hat 'ς' (by simp)).1 (by decide)
    · exact absurd (hat 'σ' (by simp)).1 (by decide)
    · obtain ⟨hsmall, hk⟩ := hat _ (List.mem_singleton_self _)
      rcases lowerChar_of_not_ascii hc with hlarge | hkelvin
      · omega
      · exact hk hkelvin

/-- A text whose lower case has only seven-bit characters, and no k among them, has only seven-bit
characters itself. -/
theorem ascii_of_lowercase {s : Text} (h : ∀ c ∈ lowercase s, c.toNat < 0x80 ∧ c ≠ 'k') :
    ∀ c ∈ s, c.toNat < 0x80 :=
  ascii_of_lowercaseAfter h

theorem toLower_of_not_ascii {c : Char} (h : ¬c.toNat < 0x80) : c.toLower = c := by
  refine dif_neg fun hc => h ?_
  have hle : c.toNat ≤ 90 := hc.2
  omega

/-- A letter is its small letter or the capital letter of that. -/
theorem eq_toLower_or (c : Char) : c = c.toLower ∨ c = c.toLower.toUpper := by
  by_cases hc : c.toNat < 0x80
  · exact of_forall_ascii (P := fun c => c = c.toLower ∨ c = c.toLower.toUpper) (by decide) hc
  · rw [toLower_of_not_ascii hc]
    exact .inl rfl

theorem map_toLower_eq_text_iff {s : Text} {sign : Sign} :
    s.map Char.toLower = sign.text ↔ s = sign.text := by
  constructor
  · intro h
    have hsingle {d : Char} (hd : d.toUpper = d) (hs : s.map Char.toLower = [d]) : s = [d] := by
      obtain ⟨c, t, rfl, hc, ht⟩ := List.map_eq_cons_iff.mp hs
      obtain rfl := List.map_eq_nil_iff.mp ht
      rcases eq_toLower_or c with h | h
      · rw [h, hc]
      · rw [h, hc, hd]
    cases sign with
    | none => exact List.map_eq_nil_iff.mp h
    | plus => exact hsingle (by decide) h
    | minus => exact hsingle (by decide) h
  · rintro rfl
    cases sign <;> decide

/-- A small letter is the same digit. -/
theorem isDigit_toLower {base d : Nat} {c : Char} (hbase : base ≤ 16) :
    IsDigit base d c.toLower ↔ IsDigit base d c := by
  have hlow : ∀ n < 0x80, ∀ d < 16, IsDigit 16 d (Char.ofNat n).toLower ↔
      IsDigit 16 d (Char.ofNat n) := by
    decide +kernel
  by_cases hc : c.toNat < 0x80
  · rw [isDigit_iff_sixteen hbase, isDigit_iff_sixteen hbase]
    exact and_congr_right fun hd =>
      of_forall_ascii (P := fun c => ∀ d < 16, IsDigit 16 d c.toLower ↔ IsDigit 16 d c) hlow hc d
        (by omega)
  · rw [toLower_of_not_ascii hc]

theorem isNumeral_map_toLower {base n : Nat} {s : Text} (hbase : base ≤ 16) :
    IsNumeral base (s.map Char.toLower) n ↔ IsNumeral base s n := by
  simp only [IsNumeral, List.forall₂_map_right_iff, isDigit_toLower hbase, ne_eq,
    List.map_eq_nil_iff]

end LowerCase

end TileCore.Text

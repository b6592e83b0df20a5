import TileCore.Assembly.Program
import TileCore.Proofs.Assembly.Operands
import TileCore.Proofs.Text.Numerals

/-!
# Which operands are numbers

A number is written with a sign or without one, in decimal or behind the mark of another base, in
either letter case. The reader of operands takes every such number that fits a signed 64-bit
register and gives it its value. It takes more than these: it removes the sign, then the mark of the
base, and hands what is left to a reader of signed numerals, so a second sign behind the mark counts
as well. Without a mark there is no room for a second sign, since a digit has to come first. The
first sign is taken in a signed 64-bit register, where the least number overflows into itself.

## Main definitions

* `wrap64`: what a signed 64-bit register makes of a number.
* `IsLiteral`: the numbers as they are meant to be written.
* `IsDoublySigned`: the numbers with a second sign.

## Main results

* `readMagnitude?_lowercase_eq_some_iff`: what is read behind the sign.
* `numbers_in_every_base`: which operands are read as numbers, and their values.
-/

namespace TileCore

open Text

/-- The marks of the bases, in either letter case. Decimal digits have none. -/
def baseMarks : List (Text × Nat) :=
  [([], 10), ("0x".toList, 16), ("0X".toList, 16), ("0o".toList, 8), ("0O".toList, 8),
    ("0b".toList, 2), ("0B".toList, 2)]

/-- A text spells a number: at most one sign, the mark of a base or none, and digits of this base,
for a number that fits a signed 64-bit register on either side of zero. -/
def IsLiteral (s : Text) (z : Int) : Prop :=
  ∃ sign : Sign, ∃ mark ∈ baseMarks, ∃ digits n, s = sign.text ++ (mark.1 ++ digits) ∧
    IsNumeral mark.2 digits n ∧ n ≤ maxInt64 ∧ z = sign.factor * n

/-- What a signed 64-bit register makes of a number. -/
def wrap64 (z : Int) : Int := z.bmod 0x10000000000000000

/-- A text spells a number with a second sign between the mark of its base and its digits. With two
minus signs the number may be one too large for a signed 64-bit register, and overflows. -/
def IsDoublySigned (s : Text) (z : Int) : Prop :=
  ∃ sign inner : Sign, inner ≠ .none ∧ ∃ mark ∈ baseMarks, mark.1 ≠ [] ∧ ∃ digits n,
    s = sign.text ++ (mark.1 ++ (inner.text ++ digits)) ∧ IsNumeral mark.2 digits n ∧
      n ≤ inner.limit ∧ z = wrap64 (sign.factor * (inner.factor * n))

/-! ### What is read behind the sign -/

/-- A text spells a number behind one of the marks, where another sign may follow unless there is no
mark. -/
def Spells (marks : List (Text × Nat)) (s : Text) (z : Int) : Prop :=
  ∃ mark ∈ marks, ∃ inner : Sign, (mark.1 = [] → inner = .none) ∧ ∃ digits n,
    s = mark.1 ++ (inner.text ++ digits) ∧ IsNumeral mark.2 digits n ∧ n ≤ inner.limit ∧
      z = inner.factor * n

/-- The marks in lower case. -/
def smallMarks : List (Text × Nat) :=
  [([], 10), ("0x".toList, 16), ("0o".toList, 8), ("0b".toList, 2)]

theorem base_of_mem_smallMarks : ∀ mark ∈ smallMarks, 0 < mark.2 ∧ mark.2 ≤ 16 := by decide

/-- Behind a mark stands a signed numeral of its base. -/
theorem readMagnitude?_append {mark : Text × Nat} (hmark : mark ∈ smallMarks) (hne : mark.1 ≠ [])
    (t : Text) : readMagnitude? (mark.1 ++ t) = readInt? mark.2 t := by
  simp only [smallMarks, List.mem_cons, List.not_mem_nil, or_false] at hmark
  rcases hmark with rfl | rfl | rfl | rfl
  · exact absurd rfl hne
  all_goals rfl

theorem spells_of_readInt? (mark : Text × Nat) (hmark : mark ∈ smallMarks) (hne : mark.1 ≠ [])
    {t : Text} {z : Int} (h : readInt? mark.2 t = some z) : Spells smallMarks (mark.1 ++ t) z := by
  obtain ⟨hpos, hbase⟩ := base_of_mem_smallMarks mark hmark
  obtain ⟨inner, digits, n, rfl, hn⟩ := (readInt?_eq_some_iff hpos hbase).mp h
  exact ⟨mark, hmark, inner, fun hnil => absurd hnil hne, digits, n, rfl, hn⟩

theorem readMagnitude?_eq_some_iff {s : Text} {z : Int} :
    readMagnitude? s = some z ↔ Spells smallMarks s z := by
  constructor
  · intro h
    unfold readMagnitude? at h
    split at h
    · exact spells_of_readInt? ("0x".toList, 16) (by decide) (by decide) h
    · exact spells_of_readInt? ("0o".toList, 8) (by decide) (by decide) h
    · exact spells_of_readInt? ("0b".toList, 2) (by decide) (by decide) h
    · next c t _ _ _ =>
      split_ifs at h with hc
      obtain ⟨inner, digits, n, hs, hn⟩ := (readInt?_eq_some_iff (by decide) (by decide)).mp h
      have hinner : inner = .none := by
        cases inner with
        | none => rfl
        | plus =>
          obtain ⟨rfl, -⟩ := List.cons.inj hs
          exact absurd hc (by decide)
        | minus =>
          obtain ⟨rfl, -⟩ := List.cons.inj hs
          exact absurd hc (by decide)
      exact ⟨([], 10), by decide, inner, fun _ => hinner, digits, n, hs, hn⟩
    · cases h
  · rintro ⟨mark, hmark, inner, hinner, digits, n, rfl, hn⟩
    obtain ⟨hpos, hbase⟩ := base_of_mem_smallMarks mark hmark
    have hread : readInt? mark.2 (inner.text ++ digits) = some z :=
      (readInt?_eq_some_iff hpos hbase).mpr ⟨inner, digits, n, rfl, hn⟩
    by_cases hnil : mark.1 = []
    · have hten : ∀ mark ∈ smallMarks, mark.1 = [] → mark.2 = 10 := by decide
      have hdecimal : IsNumeral 10 digits n := hten mark hmark hnil ▸ hn.1
      rw [hten mark hmark hnil, hinner hnil, Sign.text, List.nil_append] at hread
      rw [hnil, hinner hnil, Sign.text, List.nil_append, List.nil_append,
        readMagnitude?_of_isDecimal hdecimal.isDecimal, hread]
    · rw [readMagnitude?_append hmark hnil, hread]

/-! ### Letter case -/

/-- The marks are those in lower case with their letters in either case. -/
theorem mem_baseMarks_iff {mark : Text} {base : Nat} :
    (mark, base) ∈ baseMarks ↔ (mark.map Char.toLower, base) ∈ smallMarks := by
  constructor
  · have hall : ∀ mark ∈ baseMarks, (mark.1.map Char.toLower, mark.2) ∈ smallMarks := by decide
    exact hall (mark, base)
  · intro h
    have hcases {d : Char} (hmark : mark.map Char.toLower = ['0', d]) :
        mark = ['0', d] ∨ mark = ['0', d.toUpper] := by
      obtain ⟨c, t, rfl, hc, ht⟩ := List.map_eq_cons_iff.mp hmark
      obtain ⟨c', t, rfl, hc', ht⟩ := List.map_eq_cons_iff.mp ht
      obtain rfl := List.map_eq_nil_iff.mp ht
      have hzero : c = '0' := by
        rcases eq_toLower_or c with h | h
        · rw [h, hc]
        · rw [h, hc]
          rfl
      rcases eq_toLower_or c' with h | h <;> rw [hc'] at h
      · exact .inl (by rw [hzero, h])
      · exact .inr (by rw [hzero, h])
    simp only [smallMarks, List.mem_cons, Prod.mk.injEq, List.not_mem_nil, or_false,
      List.map_eq_nil_iff] at h
    rcases h with ⟨rfl, rfl⟩ | ⟨hmark, rfl⟩ | ⟨hmark, rfl⟩ | ⟨hmark, rfl⟩
    · decide
    all_goals rcases hcases hmark with rfl | rfl <;> decide

/-- The letters of a number may be of either case. -/
theorem spells_map_toLower_iff {s : Text} {z : Int} :
    Spells smallMarks (s.map Char.toLower) z ↔ Spells baseMarks s z := by
  constructor
  · rintro ⟨mark, hmark, inner, hinner, digits, n, hs, hn, hrest⟩
    obtain ⟨mark', t, rfl, hmark', ht⟩ := List.map_eq_append_iff.mp hs
    obtain ⟨sign, digits', rfl, hsign, rfl⟩ := List.map_eq_append_iff.mp ht
    obtain rfl := map_toLower_eq_text_iff.mp hsign
    have hbase := (base_of_mem_smallMarks mark hmark).2
    refine ⟨(mark', mark.2), mem_baseMarks_iff.mpr (by rwa [hmark']), inner, fun hnil => hinner ?_,
      digits', n, rfl, (isNumeral_map_toLower hbase).mp hn, hrest⟩
    exact hmark'.symm.trans (List.map_eq_nil_iff.mpr hnil)
  · rintro ⟨⟨mark, base⟩, hmark, inner, hinner, digits, n, rfl, hn, hrest⟩
    have hsmall := mem_baseMarks_iff.mp hmark
    have hbase := (base_of_mem_smallMarks _ hsmall).2
    refine ⟨_, hsmall, inner, fun hnil => hinner (List.map_eq_nil_iff.mp hnil),
      digits.map Char.toLower, n, ?_, (isNumeral_map_toLower hbase).mpr hn, hrest⟩
    rw [List.map_append, List.map_append, map_toLower_eq_text_iff.mpr rfl]

/-- A character that stands in no number, nor around one. -/
structure IsForeign (c : Char) : Prop where
  /-- It is no blank. -/
  notBlank : isBlank c = false
  /-- It is no digit. -/
  notDigit : ∀ d < 16, ¬IsDigit 16 d c
  /-- It is in no mark of a base. -/
  notMark : ∀ mark ∈ baseMarks, c ∉ mark.1
  /-- It is no sign. -/
  notSign : c ≠ '+' ∧ c ≠ '-'

instance (c : Char) : Decidable (IsForeign c) :=
  decidable_of_iff (isBlank c = false ∧ (∀ d < 16, ¬IsDigit 16 d c) ∧
    (∀ mark ∈ baseMarks, c ∉ mark.1) ∧ c ≠ '+' ∧ c ≠ '-')
    ⟨fun ⟨hblank, hdigit, hmark, hsign⟩ => ⟨hblank, hdigit, hmark, hsign⟩,
      fun h => ⟨h.notBlank, h.notDigit, h.notMark, h.notSign⟩⟩

theorem IsForeign.notMem_text {c : Char} (hc : IsForeign c) (sign : Sign) : c ∉ sign.text := by
  cases sign with
  | none => exact List.not_mem_nil
  | plus => exact fun h => hc.notSign.1 (List.mem_singleton.mp h)
  | minus => exact fun h => hc.notSign.2 (List.mem_singleton.mp h)

theorem Spells.notMem {s : Text} {z : Int} {c : Char} (hc : IsForeign c)
    (h : Spells baseMarks s z) : c ∉ s := by
  obtain ⟨mark, hmark, inner, -, digits, n, rfl, hn, -⟩ := h
  have hbase : ∀ mark ∈ baseMarks, mark.2 ≤ 16 := by decide
  simp only [List.mem_append, not_or]
  exact ⟨hc.notMark mark hmark, hc.notMem_text inner,
    fun hmem => hn.ne_of_mem (hbase mark hmark) hmem hc.notDigit rfl⟩

/-- The characters of a number are seven-bit characters, and no k is among them. -/
theorem Spells.ascii {marks : List (Text × Nat)} {s : Text} {z : Int}
    (hmarks : ∀ mark ∈ marks, mark.2 ≤ 16 ∧ ∀ c ∈ mark.1, c.toNat < 0x80 ∧ c ≠ 'k')
    (h : Spells marks s z) : ∀ c ∈ s, c.toNat < 0x80 ∧ c ≠ 'k' := by
  obtain ⟨mark, hmark, inner, -, digits, n, rfl, hn, -⟩ := h
  obtain ⟨hbase, hchars⟩ := hmarks mark hmark
  have hinner : ∀ c ∈ inner.text, c.toNat < 0x80 ∧ c ≠ 'k' := by cases inner <;> decide
  intro c hc
  rcases List.mem_append.mp hc with hc | hc
  · exact hchars c hc
  · rcases List.mem_append.mp hc with hc | hc
    · exact hinner c hc
    · exact ⟨hn.ascii hbase c hc, hn.ne_of_mem hbase hc (by decide)⟩

/-- What is read behind the sign, in any letter case. -/
theorem readMagnitude?_lowercase_eq_some_iff {s : Text} {z : Int} :
    readMagnitude? (lowercase s) = some z ↔ Spells baseMarks s z := by
  rw [readMagnitude?_eq_some_iff, ← spells_map_toLower_iff]
  constructor
  · intro h
    rwa [lowercase_of_ascii (ascii_of_lowercase (h.ascii (by decide)))] at h
  · intro h
    have hascii := (spells_map_toLower_iff.mp h).ascii (by decide)
    rwa [lowercase_of_ascii fun c hc => (hascii c hc).1]

/-! ### The sign -/

theorem wrap64_of_mem {z : Int} (h : -0x8000000000000000 ≤ z ∧ z < 0x8000000000000000) :
    wrap64 z = z :=
  Int.bmod_eq_of_le h.1 h.2

theorem negate64_eq_wrap64 {z : Int} (h : -0x8000000000000000 ≤ z ∧ z < 0x8000000000000000) :
    negate64 z = wrap64 (-z) := by
  rw [negate64]
  split_ifs with hleast
  · rw [hleast]
    rfl
  · exact (wrap64_of_mem (by omega)).symm

/-- The sign of a literal does not overflow. -/
theorem wrap64_factor_mul (sign : Sign) {n : Nat} (h : n ≤ maxInt64) :
    wrap64 (sign.factor * n) = sign.factor * n := by
  rw [maxInt64] at h
  refine wrap64_of_mem ?_
  cases sign <;> rw [Sign.factor] <;> omega

/-- What stands behind the sign fits a signed 64-bit register. -/
theorem Spells.mem_range {marks : List (Text × Nat)} {s : Text} {z : Int} (h : Spells marks s z) :
    -0x8000000000000000 ≤ z ∧ z < 0x8000000000000000 := by
  obtain ⟨mark, -, inner, -, digits, n, -, -, hle, rfl⟩ := h
  cases inner <;> simp only [Sign.limit, Sign.factor, maxInt64] at hle ⊢ <;> omega

/-- Behind the sign of a number there is no other sign at once. -/
theorem Spells.exists_cons {s : Text} {z : Int} (h : Spells baseMarks s z) :
    ∃ c t, s = c :: t ∧ c ≠ '+' ∧ c ≠ '-' := by
  obtain ⟨mark, hmark, inner, hinner, digits, n, rfl, hn, -⟩ := h
  have hmarks : ∀ mark ∈ baseMarks, mark.2 ≤ 16 ∧ (mark.1 ≠ [] → mark.1.head? = some '0') := by
    decide
  obtain ⟨hbase, hzero⟩ := hmarks mark hmark
  by_cases hnil : mark.1 = []
  · obtain ⟨c, t, rfl⟩ := hn.exists_cons
    rw [hnil, hinner hnil]
    exact ⟨c, t, rfl, hn.ne_of_mem hbase List.mem_cons_self (by decide),
      hn.ne_of_mem hbase List.mem_cons_self (by decide)⟩
  · obtain ⟨rest, hrest⟩ := List.head?_eq_some_iff.mp (hzero hnil)
    rw [hrest]
    exact ⟨'0', _, rfl, by decide, by decide⟩

theorem readImmediate?_eq_some_iff {s : Text} {z : Int} :
    readImmediate? s = some z ↔ ∃ sign : Sign, ∃ t y, trim s = sign.text ++ t ∧
      Spells baseMarks t y ∧ z = wrap64 (sign.factor * y) := by
  have hplain {t : Text} {y : Int} (h : Spells baseMarks t y) : wrap64 (1 * y) = y := by
    rw [Int.one_mul, wrap64_of_mem h.mem_range]
  have hminus {t : Text} {y : Int} (h : Spells baseMarks t y) : wrap64 (-1 * y) = negate64 y := by
    rw [Int.neg_one_mul, negate64_eq_wrap64 h.mem_range]
  constructor
  · intro h
    unfold readImmediate? at h
    split at h
    · next t ht =>
      obtain ⟨y, hread, rfl⟩ := Option.map_eq_some_iff.mp h
      have hspells := readMagnitude?_lowercase_eq_some_iff.mp hread
      exact ⟨.minus, t, y, ht, hspells, (hminus hspells).symm⟩
    · next t ht =>
      have hspells := readMagnitude?_lowercase_eq_some_iff.mp h
      exact ⟨.plus, t, z, ht, hspells, (hplain hspells).symm⟩
    · have hspells := readMagnitude?_lowercase_eq_some_iff.mp h
      exact ⟨.none, trim s, z, rfl, hspells, (hplain hspells).symm⟩
  · rintro ⟨sign, t, y, ht, hspells, rfl⟩
    have hread := readMagnitude?_lowercase_eq_some_iff.mpr hspells
    unfold readImmediate?
    cases sign with
    | none =>
      obtain ⟨c, t', rfl, hplus, hminus⟩ := hspells.exists_cons
      rw [Sign.text, List.nil_append] at ht
      rw [ht, Sign.factor, hplain hspells]
      split
      · next heq => exact absurd (List.cons.inj heq).1 hminus
      · next heq => exact absurd (List.cons.inj heq).1 hplus
      · exact hread
    | plus =>
      rw [ht, Sign.factor, hplain hspells]
      exact hread
    | minus =>
      rw [ht, Sign.factor, hminus hspells]
      exact Option.map_eq_some_iff.mpr ⟨y, hread, rfl⟩

example : readImmediate? "-0x-8000000000000000".toList = some (-0x8000000000000000) := by
  decide +kernel

/-- What stands in no number is not in an operand that is read as one. -/
theorem notMem_of_readImmediate? {s : Text} {z : Int} {c : Char} (hc : IsForeign c)
    (h : readImmediate? s = some z) : c ∉ s := by
  obtain ⟨sign, t, y, ht, hspells, -⟩ := readImmediate?_eq_some_iff.mp h
  intro hmem
  have hmem' := mem_trim hmem hc.notBlank
  rw [ht, List.mem_append] at hmem'
  exact hmem'.elim (hc.notMem_text sign) (hspells.notMem hc)

/-- A second sign stands behind the first character. -/
theorem IsDoublySigned.exists_mem_tail {s : Text} {z : Int} (h : IsDoublySigned s z) :
    '+' ∈ s.tail ∨ '-' ∈ s.tail := by
  obtain ⟨sign, inner, hinner, mark, -, hmark, digits, n, rfl, -⟩ := h
  have hbehind : ∀ c ∈ inner.text, c ∈ (sign.text ++ (mark.1 ++ (inner.text ++ digits))).tail := by
    obtain ⟨d, rest, hd⟩ := List.exists_cons_of_ne_nil hmark
    intro c hc
    have hrest : c ∈ rest ++ (inner.text ++ digits) :=
      List.mem_append_right _ (List.mem_append_left _ hc)
    rw [hd]
    cases sign with
    | none => exact hrest
    | plus | minus => exact List.mem_cons_of_mem d hrest
  cases inner with
  | none => exact absurd rfl hinner
  | plus => exact .inl (hbehind '+' List.mem_cons_self)
  | minus => exact .inr (hbehind '-' List.mem_cons_self)

/-- The sign of a literal is its first character. -/
theorem IsLiteral.ne_sign_of_mem_tail {s : Text} {z : Int} (h : IsLiteral s z) :
    ∀ c ∈ s.tail, c ≠ '+' ∧ c ≠ '-' := by
  obtain ⟨sign, mark, hmark, digits, n, rfl, hn, -⟩ := h
  have hmarks : ∀ mark ∈ baseMarks, mark.2 ≤ 16 ∧ ∀ c ∈ mark.1, c ≠ '+' ∧ c ≠ '-' := by decide
  obtain ⟨hbase, hplain⟩ := hmarks mark hmark
  have hbehind : ∀ c ∈ mark.1 ++ digits, c ≠ '+' ∧ c ≠ '-' := by
    intro c hc
    rcases List.mem_append.mp hc with hc | hc
    · exact hplain c hc
    · exact ⟨hn.ne_of_mem hbase hc (by decide), hn.ne_of_mem hbase hc (by decide)⟩
  intro c hc
  cases sign with
  | none => exact hbehind c (List.mem_of_mem_tail hc)
  | plus | minus => exact hbehind c hc

/-- The operands that are read as numbers are the literals and the numbers with a second sign behind
the mark of their base, and their values are the numbers that they spell, of which only one with two
signs may overflow. The literals are those without a sign behind the first character. -/
theorem numbers_in_every_base (s : Text) (z : Int) :
    (readImmediate? s = some z ↔ IsLiteral (trim s) z ∨ IsDoublySigned (trim s) z) ∧
      (IsLiteral (trim s) z ↔
        readImmediate? s = some z ∧ ∀ c ∈ (trim s).tail, c ≠ '+' ∧ c ≠ '-') := by
  have hread : readImmediate? s = some z ↔ IsLiteral (trim s) z ∨ IsDoublySigned (trim s) z := by
    rw [readImmediate?_eq_some_iff]
    constructor
    · rintro ⟨sign, t, y, ht, ⟨mark, hmark, inner, hinner, digits, n, rfl, hn, hle, rfl⟩, rfl⟩
      by_cases hnone : inner = .none
      · subst hnone
        rw [Sign.factor, Int.one_mul]
        exact .inl ⟨sign, mark, hmark, digits, n, ht, hn, hle, wrap64_factor_mul sign hle⟩
      · exact .inr ⟨sign, inner, hnone, mark, hmark, mt hinner hnone, digits, n, ht, hn, hle, rfl⟩
    · rintro (⟨sign, mark, hmark, digits, n, ht, hn, hle, rfl⟩ |
        ⟨sign, inner, -, mark, hmark, hne, digits, n, ht, hn, hle, rfl⟩)
      · exact ⟨sign, _, n, ht, ⟨mark, hmark, .none, fun _ => rfl, digits, n, rfl, hn, hle,
          (Int.one_mul _).symm⟩, (wrap64_factor_mul sign hle).symm⟩
      · exact ⟨sign, _, _, ht, ⟨mark, hmark, inner, fun hnil => absurd hnil hne, digits, n, rfl, hn,
          hle, rfl⟩, rfl⟩
  refine ⟨hread, fun h => ⟨hread.mpr (.inl h), h.ne_sign_of_mem_tail⟩, ?_⟩
  rintro ⟨h, hsigns⟩
  refine (hread.mp h).resolve_right fun hdouble => ?_
  rcases hdouble.exists_mem_tail with hmem | hmem
  · exact (hsigns _ hmem).1 rfl
  · exact (hsigns _ hmem).2 rfl

/-- A number with its sign behind the mark is no literal, but it is read and assembled. -/
theorem sign_behind_mark_read :
    readImmediate? "0x-5".toList = some (-5) ∧ ¬IsLiteral (trim "0x-5".toList) (-5) ∧
      assemble "addi x1, x0, 0x-5".toList = .ok ⟨[0xFFB00093], [], 0x200⟩ := by
  refine ⟨by decide +kernel, fun h => ?_, by decide +kernel⟩
  have htrim : trim "0x-5".toList = "0x-5".toList := by decide
  rw [htrim] at h
  exact (h.ne_sign_of_mem_tail '-' (by decide)).2 rfl

end TileCore

import TileCore.Text.LetterCase

/-!
# Cutting and joining text

How a text that was put together from pieces is cut into the same pieces again. A text without
blanks at its ends is left alone by trimming, a separator that no piece holds is found where it was
put, and plain small letters and digits are left alone by lower-casing.

## Main definitions

* `Text.IsTrimmed`: no blank at either end.

## Main results

* `Text.splitEach_eq_splitOn`: cutting at every separator is the cut of lists.
* `Text.isTrimmed_trim`, `Text.IsTrimmed.trim_eq`: trimming removes exactly the blanks at the ends.
* `Text.exists_blanks`, `Text.trim_blanks_append`, `Text.trim_append_blanks`: the blanks around a
  text.
* `Text.trim_append_cons`: trimming does not reach past a piece without blanks at the front.
* `Text.splitFirst?_append`: cutting at the first character of a class.
* `Text.lowercase_of_ascii`, `Text.lowercase_eq_self`: lower case of seven-bit characters, and of a
  text in lower case already.
-/

namespace TileCore.Text

/-- A property of the characters of a text is decided by going through the text, and not through all
characters that there are. -/
instance (s : Text) (P : Char → Prop) [DecidablePred P] : Decidable (∀ c ∈ s, P c) :=
  List.decidableBAll P s

/-! ### Cuts -/

theorem splitEach_eq_splitOn (sep : Char) (s : Text) : splitEach sep s = s.splitOn sep := by
  induction s with
  | nil => rfl
  | cons c s ih =>
    rw [List.splitOn_cons_eq_if_modifyHead, splitEach, ih]
    by_cases h : c = sep
    · simp [h]
    · rw [if_neg h, if_neg (by simpa using h)]
      cases hs : s.splitOn sep with
      | nil => exact absurd hs (List.splitOn_ne_nil sep s)
      | cons piece pieces => rfl

theorem splitFirst?_append {p : Char → Bool} {s t : Text} {c : Char}
    (hs : ∀ d ∈ s, p d = false) (hc : p c = true) :
    splitFirst? p (s ++ c :: t) = some (s, t) := by
  have hs' : ∀ d ∈ s, (!p d) = true := fun d hd => by rw [hs d hd]; rfl
  rw [splitFirst?, List.dropWhile_append_of_pos hs', List.takeWhile_append_of_pos hs']
  simp [hc]

theorem splitFirst?_eq_none {p : Char → Bool} {s : Text} (hs : ∀ d ∈ s, p d = false) :
    splitFirst? p s = none := by
  have hs' : ∀ d ∈ s, (!p d) = true := fun d hd => by rw [hs d hd]; rfl
  have hdrop : (s ++ []).dropWhile (fun c => !p c) = [] := List.dropWhile_append_of_pos hs'
  rw [List.append_nil] at hdrop
  rw [splitFirst?, hdrop]

@[simp] theorem afterStart?_append (s t : Text) : afterStart? s (s ++ t) = some t := by
  simp [afterStart?]

@[simp] theorem beforeEnd?_append (s t : Text) : beforeEnd? t (s ++ t) = some s := by
  simp [beforeEnd?]

theorem eq_of_afterStart? {start s t : Text} (h : afterStart? start s = some t) :
    s = start ++ t := by
  unfold afterStart? at h
  split at h
  · next hstart =>
    cases h
    exact (List.prefix_iff_eq_append.mp (List.isPrefixOf_iff_prefix.mp hstart)).symm
  · cases h

theorem eq_of_beforeEnd? {final s t : Text} (h : beforeEnd? final s = some t) :
    s = t ++ final := by
  unfold beforeEnd? at h
  split at h
  · next hfinal =>
    cases h
    exact (List.suffix_iff_eq_append.mp (List.isSuffixOf_iff_suffix.mp hfinal)).symm
  · cases h

/-- A joined text has no other characters than its pieces and what separates them. -/
theorem mem_or_mem_of_mem_intercalate {sep : Text} {pieces : List Text} {c : Char}
    (h : c ∈ List.intercalate sep pieces) : c ∈ sep ∨ ∃ piece ∈ pieces, c ∈ piece := by
  induction pieces with
  | nil => cases h
  | cons piece pieces ih =>
    cases pieces with
    | nil =>
      rw [List.intercalate_singleton] at h
      exact .inr ⟨piece, List.mem_cons_self, h⟩
    | cons piece' pieces =>
      rw [List.intercalate_cons_cons, List.append_assoc, List.mem_append, List.mem_append] at h
      rcases h with h | h | h
      · exact .inr ⟨piece, List.mem_cons_self, h⟩
      · exact .inl h
      · rcases ih h with hsep | ⟨piece'', hmem, hc⟩
        · exact .inl hsep
        · exact .inr ⟨piece'', List.mem_cons_of_mem piece hmem, hc⟩

/-! ### Blanks at the ends -/

/-- No blank at either end. -/
structure IsTrimmed (s : Text) : Prop where
  /-- The first character is no blank. -/
  head : ∀ c ∈ s.head?, isBlank c = false
  /-- The last character is no blank. -/
  last : ∀ c ∈ s.getLast?, isBlank c = false

theorem dropWhile_eq_self {p : Char → Bool} {s : Text} (h : ∀ c ∈ s.head?, p c = false) :
    s.dropWhile p = s := by
  cases s with
  | nil => rfl
  | cons c s =>
    have hc := h c rfl
    rw [List.dropWhile_cons, hc]
    rfl

theorem IsTrimmed.trim_eq {s : Text} (h : IsTrimmed s) : trim s = s := by
  have hlast : ∀ c ∈ s.reverse.head?, isBlank c = false := by
    rw [List.head?_reverse]
    exact h.last
  rw [trim, trimRight, trimLeft, dropWhile_eq_self h.head, dropWhile_eq_self hlast,
    List.reverse_reverse]

theorem head?_dropWhile_isBlank (s : Text) :
    ∀ c ∈ (s.dropWhile isBlank).head?, isBlank c = false := by
  intro c hc
  have := List.head?_dropWhile_not isBlank s
  rw [Option.mem_def.mp hc] at this
  exact this

theorem isPrefix_trim (s : Text) : trim s <+: trimLeft s := by
  rw [trim, trimRight, ← List.reverse_suffix, List.reverse_reverse]
  exact List.dropWhile_suffix isBlank

theorem isTrimmed_trim (s : Text) : IsTrimmed (trim s) := by
  refine ⟨fun c hc => ?_, fun c hc => ?_⟩
  · -- What is left of the front after cutting the back is the front.
    refine head?_dropWhile_isBlank s c ?_
    obtain ⟨rest, hrest⟩ := isPrefix_trim s
    change c ∈ (trimLeft s).head?
    rw [← hrest, List.head?_append]
    rw [Option.mem_def.mp hc]
    rfl
  · refine head?_dropWhile_isBlank (trimLeft s).reverse c ?_
    rwa [trim, trimRight, List.getLast?_reverse] at hc

theorem isInfix_trim (s : Text) : trim s <:+: s := by
  have hleft : trimLeft s <:+ s := List.dropWhile_suffix isBlank
  exact (isPrefix_trim s).isInfix.trans hleft.isInfix

theorem trim_trim (s : Text) : trim (trim s) = trim s := (isTrimmed_trim s).trim_eq

theorem isTrimmed_of_forall {s : Text} (h : ∀ c ∈ s, isBlank c = false) : IsTrimmed s :=
  ⟨fun c hc => h c (List.mem_of_head? hc), fun c hc => h c (List.mem_of_getLast? hc)⟩

theorem isTrimmed_singleton {c : Char} (h : isBlank c = false) : IsTrimmed [c] :=
  isTrimmed_of_forall fun _ hd => List.mem_singleton.mp hd ▸ h

/-- Between two pieces without blanks at their ends anything may stand. -/
theorem IsTrimmed.append {s t : Text} (hs : IsTrimmed s) (ht : IsTrimmed t) (hs₀ : s ≠ [])
    (ht₀ : t ≠ []) (u : Text) : IsTrimmed (s ++ u ++ t) := by
  refine ⟨fun c hc => ?_, fun c hc => ?_⟩
  · obtain ⟨a, s, rfl⟩ := List.exists_cons_of_ne_nil hs₀
    exact hs.head c hc
  · rw [List.getLast?_append, List.getLast?_eq_some_getLast ht₀, Option.some_or,
      ← List.getLast?_eq_some_getLast ht₀] at hc
    exact ht.last c hc

/-- A text is what trimming leaves of it between blanks. -/
theorem exists_blanks (s : Text) :
    ∃ a b : Text, s = a ++ trim s ++ b ∧ (∀ c ∈ a, isBlank c = true) ∧
      ∀ c ∈ b, isBlank c = true := by
  refine ⟨s.takeWhile isBlank, ((trimLeft s).reverse.takeWhile isBlank).reverse, ?_,
    fun c hc => List.all_eq_true.mp List.all_takeWhile c hc,
    fun c hc => List.all_eq_true.mp List.all_takeWhile c (List.mem_reverse.mp hc)⟩
  rw [trim, trimRight, List.append_assoc, ← List.reverse_append, List.takeWhile_append_dropWhile,
    List.reverse_reverse, trimLeft, List.takeWhile_append_dropWhile]

theorem trim_blanks_append {a : Text} (ha : ∀ c ∈ a, isBlank c = true) (s : Text) :
    trim (a ++ s) = trim s := by
  rw [trim, trimLeft, List.dropWhile_append_of_pos ha]
  rfl

theorem trim_append_blanks {b : Text} (hb : ∀ c ∈ b, isBlank c = true) (s : Text) :
    trim (s ++ b) = trim s := by
  have hright (t : Text) : trimRight (t ++ b) = trimRight t := by
    rw [trimRight, List.reverse_append,
      List.dropWhile_append_of_pos fun c hc => hb c (List.mem_reverse.mp hc)]
    rfl
  rw [trim, trimLeft, List.dropWhile_append]
  by_cases h : (s.dropWhile isBlank).isEmpty = true
  · have hdrop : (b ++ []).dropWhile isBlank = [] := List.dropWhile_append_of_pos hb
    rw [List.append_nil] at hdrop
    rw [if_pos h, hdrop, trim, trimLeft, List.isEmpty_iff.mp h]
  · rw [if_neg h, hright]
    rfl

/-- Trimming takes only blanks away. -/
theorem mem_trim {s : Text} {c : Char} (h : c ∈ s) (hc : isBlank c = false) : c ∈ trim s := by
  obtain ⟨a, b, heq, ha, hb⟩ := exists_blanks s
  rw [heq, List.mem_append, List.mem_append] at h
  rcases h with (h | h) | h
  · rw [ha c h] at hc
    cases hc
  · exact h
  · rw [hb c h] at hc
    cases hc

/-- The first character behind leading blanks is the first character of the trimmed text. -/
theorem head?_trim_append {a s : Text} {c : Char} (ha : ∀ d ∈ a, isBlank d = true)
    (hc : isBlank c = false) : (trim (a ++ c :: s)).head? = some c := by
  have hleft : trimLeft (a ++ c :: s) = c :: s := by
    rw [trimLeft, List.dropWhile_append_of_pos ha, List.dropWhile_cons, hc]
    rfl
  have hmem : c ∈ trim (a ++ c :: s) := mem_trim (by simp) hc
  obtain ⟨d, t, hd⟩ := List.exists_cons_of_ne_nil (List.ne_nil_of_mem hmem)
  have hprefix := isPrefix_trim (a ++ c :: s)
  rw [hleft, hd, List.cons_prefix_cons] at hprefix
  rw [hd, hprefix.1]
  rfl

theorem trim_cons_of_isBlank {c : Char} (h : isBlank c = true) (s : Text) :
    trim (c :: s) = trim s := by
  rw [trim, trimLeft, List.dropWhile_cons_of_pos h]
  rfl

/-- Trimming does not reach past a piece without blanks at the front. -/
theorem trim_append_cons {s : Text} (hs : s ≠ []) (hblank : ∀ d ∈ s, isBlank d = false)
    {c : Char} (hc : isBlank c = true) (t : Text) :
    trim (s ++ c :: t) = s ∨ ∃ t', trim (s ++ c :: t) = s ++ c :: t' := by
  have hleft : trimLeft (s ++ c :: t) = s ++ c :: t := by
    refine dropWhile_eq_self fun d hd => ?_
    obtain ⟨d', s, rfl⟩ := List.exists_cons_of_ne_nil hs
    cases hd
    exact hblank _ List.mem_cons_self
  have hright : s.reverse.dropWhile isBlank = s.reverse :=
    dropWhile_eq_self fun d hd => hblank d (List.mem_reverse.mp (List.mem_of_head? hd))
  rw [trim, hleft, trimRight, List.reverse_append, List.reverse_cons, List.append_assoc,
    List.singleton_append, List.dropWhile_append, List.dropWhile_cons_of_pos hc, hright]
  by_cases ht : (t.reverse.dropWhile isBlank).isEmpty = true
  · rw [if_pos ht]
    exact .inl (List.reverse_reverse s)
  · rw [if_neg ht]
    exact .inr ⟨(t.reverse.dropWhile isBlank).reverse, by simp⟩

/-! ### Letter case -/

theorem lowerAt_of_ascii {c : Char} (h : c.toNat < 0x80) (before after : Text) :
    lowerAt before c after = [c.toLower] := by
  have hdot : c ≠ 'İ' := by
    rintro rfl
    exact absurd h (by decide)
  have hsigma : c ≠ 'Σ' := by
    rintro rfl
    exact absurd h (by decide)
  rw [lowerAt, if_neg hdot, if_neg hsigma, lowerChar, if_pos h]

/-- Seven-bit characters become small letters one by one. -/
theorem lowercase_of_ascii {s : Text} (h : ∀ c ∈ s, c.toNat < 0x80) :
    lowercase s = s.map Char.toLower := by
  have hafter (before : Text) : lowercaseAfter before s = s.map Char.toLower := by
    induction s generalizing before with
    | nil => rfl
    | cons c s ih =>
      obtain ⟨hc, hs⟩ := List.forall_mem_cons.mp h
      rw [lowercaseAfter, lowerAt_of_ascii hc, ih hs]
      rfl
  exact hafter []

/-- Characters of the seven-bit range that are no capital letters stay as they are. -/
theorem lowercase_eq_self {s : Text} (h : ∀ c ∈ s, c.toNat < 0x80 ∧ c.isUpper = false) :
    lowercase s = s := by
  rw [lowercase_of_ascii fun c hc => (h c hc).1]
  have hsame : s.map Char.toLower = s.map id :=
    List.map_congr_left fun c hc => dif_neg (of_decide_eq_false (h c hc).2)
  rw [hsame, List.map_id]

end TileCore.Text

import TileCore.Proofs.Assembly.Statements

/-!
# Lines that are read again

What a source says is what is left of its lines without comments and without the blanks around them.
Nothing is lost when this is written down as a source of its own, one statement a line: no comment
starts in what a comment has been taken off, so every line is read as it stands.

## Main definitions

* `IsUncommented`: a text in which no comment starts.
* `IsLine`: what the statement of a line looks like.

## Main results

* `isUncommented_stripComment`, `IsUncommented.stripComment_eq`: taking off a comment gives such a
  text, and leaves it alone.
* `isLine_of_mem_sourceLines`: the statements of a source are of this kind.
* `map_text_sourceLines_intercalate`: statements written one a line are read as they are.
-/

namespace TileCore

open Text

/-! ### Comments -/

/-- A text in which no comment starts. -/
structure IsUncommented (s : Text) : Prop where
  /-- There is no hash sign. -/
  hash : '#' ∉ s
  /-- There are no two slashes in a row. -/
  slashes : ¬['/', '/'] <:+: s

/-- No comment starts in a piece of a text in which none starts. -/
theorem IsUncommented.of_isInfix {s t : Text} (h : IsUncommented s) (ht : t <:+: s) :
    IsUncommented t :=
  ⟨fun hhash => h.hash (ht.subset hhash), fun hslashes => h.slashes (hslashes.trans ht)⟩

theorem isUncommented_of_notMem {s : Text} (hhash : '#' ∉ s) (hslash : '/' ∉ s) :
    IsUncommented s :=
  ⟨hhash, fun hslashes => hslash (hslashes.subset List.mem_cons_self)⟩

theorem isUncommented_cons_iff {c : Char} {s : Text} :
    IsUncommented (c :: s) ↔ c ≠ '#' ∧ ¬(c = '/' ∧ s.head? = some '/') ∧ IsUncommented s := by
  have hslashes : ['/', '/'] <:+: c :: s ↔
      (c = '/' ∧ s.head? = some '/') ∨ ['/', '/'] <:+: s := by
    rw [List.infix_cons_iff, List.cons_prefix_cons, eq_comm]
    cases s with
    | nil => simp
    | cons d s => simp [eq_comm]
  constructor
  · intro h
    have hs : IsUncommented s := h.of_isInfix (List.infix_cons (List.infix_refl s))
    exact ⟨fun hc => h.hash (hc ▸ List.mem_cons_self),
      fun hc => h.slashes (hslashes.mpr (.inl hc)), hs⟩
  · rintro ⟨hc, hhead, h⟩
    refine ⟨fun hhash => ?_, fun hs => (hslashes.mp hs).elim hhead h.slashes⟩
    rcases List.mem_cons.mp hhash with heq | hmem
    · exact hc heq.symm
    · exact h.hash hmem

/-- What is left of a line is its front. -/
theorem isPrefix_stripComment (s : Text) : stripComment s <+: s := by
  induction s with
  | nil => exact List.prefix_refl []
  | cons c s ih =>
    rw [stripComment.eq_def]
    split
    · exact List.nil_prefix
    · exact List.nil_prefix
    · exact List.nil_prefix
    · next heq =>
      cases heq
      exact List.cons_prefix_cons.mpr ⟨rfl, ih⟩

/-- No comment starts in what a comment has been taken off. -/
theorem isUncommented_stripComment (s : Text) : IsUncommented (stripComment s) := by
  have hnil : IsUncommented [] := ⟨List.not_mem_nil, by simp⟩
  induction s with
  | nil => exact hnil
  | cons c s ih =>
    rw [stripComment.eq_def]
    split
    · exact hnil
    · exact hnil
    · exact hnil
    · next hhash hslashes heq =>
      cases heq
      refine isUncommented_cons_iff.mpr ⟨fun hc => hhash hc, ?_, ih⟩
      rintro ⟨rfl, hhead⟩
      obtain ⟨rest, hrest⟩ := List.head?_eq_some_iff.mp hhead
      obtain ⟨behind, hbehind⟩ := isPrefix_stripComment s
      rw [hrest, List.cons_append] at hbehind
      exact hslashes (rest ++ behind) rfl hbehind.symm

/-- Taking off the comment leaves a text alone in which none starts. -/
theorem IsUncommented.stripComment_eq {s : Text} (h : IsUncommented s) : stripComment s = s := by
  induction s with
  | nil => rfl
  | cons c s ih =>
    obtain ⟨hc, hhead, hs⟩ := isUncommented_cons_iff.mp h
    rw [stripComment.eq_def]
    split
    · next heq => cases heq
    · next heq => exact absurd (List.cons.inj heq).1 hc
    · next heq =>
      obtain ⟨rfl, rfl⟩ := List.cons.inj heq
      exact absurd ⟨rfl, rfl⟩ hhead
    · next heq =>
      cases heq
      rw [ih hs]

/-! ### Statements of lines -/

/-- What the statement of a line looks like. -/
structure IsLine (s : Text) : Prop where
  /-- It is not empty. -/
  ne_nil : s ≠ []
  /-- No comment starts in it. -/
  uncommented : IsUncommented s
  /-- There is no blank at its ends. -/
  trimmed : IsTrimmed s
  /-- It is on a single line. -/
  noBreak : '\n' ∉ s

theorem exists_of_mem_numberLines {number : Nat} {texts : List Text} {line : SourceLine}
    (h : line ∈ numberLines number texts) :
    ∃ text ∈ texts, line.text = trim (stripComment text) ∧ line.text ≠ [] := by
  induction texts generalizing number with
  | nil => cases h
  | cons text texts ih =>
    rw [numberLines] at h
    split at h
    · obtain ⟨text', hmem, htext'⟩ := ih h
      exact ⟨text', List.mem_cons_of_mem text hmem, htext'⟩
    · next hne =>
      rcases List.mem_cons.mp h with rfl | h
      · exact ⟨text, List.mem_cons_self, rfl, fun hnil => hne hnil⟩
      · obtain ⟨text', hmem, htext'⟩ := ih h
        exact ⟨text', List.mem_cons_of_mem text hmem, htext'⟩

theorem isLine_of_mem_sourceLines {source : Text} {line : SourceLine}
    (h : line ∈ sourceLines source) : IsLine line.text := by
  obtain ⟨text, hmem, htext, hne⟩ := exists_of_mem_numberLines h
  refine ⟨hne, ?_, ?_, ?_⟩
  · rw [htext]
    exact (isUncommented_stripComment text).of_isInfix (isInfix_trim _)
  · rw [htext]
    exact isTrimmed_trim _
  · intro hbreak
    rw [htext] at hbreak
    have hbreak := (isPrefix_stripComment text).subset (mem_of_mem_trim hbreak)
    exact notMem_of_mem_splitEach hmem hbreak

/-- Lines that are statements are read as they stand. -/
theorem map_text_numberLines {texts : List Text} (h : ∀ text ∈ texts, IsLine text)
    (number : Nat) : (numberLines number texts).map SourceLine.text = texts := by
  induction texts generalizing number with
  | nil => rfl
  | cons text texts ih =>
    obtain ⟨htext, htexts⟩ := List.forall_mem_cons.mp h
    rw [numberLines, htext.uncommented.stripComment_eq, htext.trimmed.trim_eq]
    split
    · next hnil => exact absurd rfl htext.ne_nil
    · rw [List.map_cons, ih htexts]

/-- Statements written one a line are read as they are. -/
theorem map_text_sourceLines_intercalate {texts : List Text} (h : ∀ text ∈ texts, IsLine text)
    (hne : texts ≠ []) :
    (sourceLines (List.intercalate ['\n'] texts)).map SourceLine.text = texts := by
  have hbreak : ∀ text ∈ texts, '\n' ∉ text := fun text htext => (h text htext).noBreak
  have hcut : splitEach '\n' (List.intercalate ['\n'] texts) = texts := by
    rw [splitEach_eq_splitOn, List.splitOn_intercalate '\n' hbreak hne]
  rw [sourceLines, hcut, map_text_numberLines h]

end TileCore

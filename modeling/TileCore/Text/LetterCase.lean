import TileCore.Text.Blank
import TileCore.Text.LetterCase.Ranges

/-!
# Lower case

Mnemonics and register names are read without regard to the case of their letters, in any script.
A capital letter becomes its lower-case partner wherever it stands, with two exceptions: the
capital I with a dot becomes two characters, and a capital sigma at the end of a word takes the
final form. A word ends where the nearest character that is not transparent to case is no letter
with case.

## Main definitions

* `lowerChar`: the lower-case partner of a character.
* `lowercase`: a text in lower case.
-/

namespace TileCore.Text

/-- Whether a code point lies in one of the ranges. -/
def inRanges (ranges : List (Nat × Nat)) (n : Nat) : Bool :=
  ranges.any fun r => r.1 ≤ n && n ≤ r.2

/-- Whether a character is a letter with case. -/
def isCased (c : Char) : Bool := inRanges casedRanges c.toNat

/-- Whether a character is transparent to the end of a word. -/
def isCaseIgnorable (c : Char) : Bool := inRanges caseIgnorableRanges c.toNat

/-- Whether the run holds a code point. -/
def LowerRun.contains (r : LowerRun) (n : Nat) : Bool :=
  r.first ≤ n && n ≤ r.last && (n - r.first) % r.step == 0

/-- The lower-case partner of a character, or the character itself. -/
def lowerChar (c : Char) : Char :=
  if c.toNat < 0x80 then c.toLower
  else
    match lowerRuns.find? fun r => r.contains c.toNat with
    | some r => Char.ofNat ((c.toNat : Int) + r.shift).toNat
    | none => c

/-- Whether the nearest character that is not transparent is a letter with case. -/
def meetsCased (s : Text) : Bool :=
  match s.dropWhile isCaseIgnorable with
  | [] => false
  | c :: _ => isCased c

/-- The lower case of `c` between the text `before`, nearest character first, and the text
`after`. -/
def lowerAt (before : Text) (c : Char) (after : Text) : Text :=
  if c = 'İ' then ['i', '\u0307']
  else if c = 'Σ' then [if meetsCased before && !meetsCased after then 'ς' else 'σ']
  else [lowerChar c]

/-- The lower case of the second text behind the first, which is nearest character first. -/
def lowercaseAfter (before : Text) : Text → Text
  | [] => []
  | c :: s => lowerAt before c s ++ lowercaseAfter (c :: before) s

/-- A text in lower case. -/
def lowercase (s : Text) : Text := lowercaseAfter [] s

end TileCore.Text

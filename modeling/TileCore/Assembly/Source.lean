import TileCore.Text.LetterCase

/-!
# Lines and statements

A source is a row of lines. A comment starts with two slashes or a hash sign and ends with its
line; what remains of a line without the blanks around it is its statement, and lines without one
are passed over. A statement is a mnemonic followed by operands between commas. A mnemonic may end
in `.i`, and the tile product may end in `.m`, without another meaning.

## Main definitions

* `SourceLine`, `sourceLines`: the statements of a source with the numbers of their lines.
* `Statement`, `Statement.ofText`: a statement taken apart.
-/

namespace TileCore

/-- A statement and the number of its line, counted from one. -/
structure SourceLine where
  /-- The number of the line. -/
  number : Nat
  /-- The statement without blanks at its ends. -/
  text : Text
  deriving DecidableEq

/-- The part of a line in front of its comment. -/
def stripComment : Text → Text
  | [] => []
  | '#' :: _ => []
  | '/' :: '/' :: _ => []
  | c :: s => c :: stripComment s

/-- The statements of lines that are counted from `number` on. -/
def numberLines : (number : Nat) → List Text → List SourceLine
  | _, [] => []
  | number, line :: lines =>
    match Text.trim (stripComment line) with
    | [] => numberLines (number + 1) lines
    | text => ⟨number, text⟩ :: numberLines (number + 1) lines

/-- The statements of a source. A carriage return at the end of a line is a blank like others. -/
def sourceLines (source : Text) : List SourceLine := numberLines 1 (Text.splitEach '\n' source)

/-- The operands between commas, without those that are blank. -/
def splitOperands (s : Text) : List Text :=
  ((Text.splitEach ',' s).map Text.trim).filter (· ≠ [])

/-- The text up to the first blank and the text behind it. -/
def splitHead (s : Text) : Text × Text := (Text.splitFirst? Text.isBlank s).getD (s, [])

/-- A mnemonic without the endings that carry no meaning. -/
def foldEnding (mnemonic : Text) : Text :=
  match Text.beforeEnd? ".i".toList mnemonic with
  | some base => base
  | none => if mnemonic = "gemm.m".toList then "gemm".toList else mnemonic

/-- A mnemonic in lower case and its operands. -/
structure Statement where
  /-- The mnemonic. -/
  mnemonic : Text
  /-- The operands, none of them blank. -/
  operands : List Text
  deriving DecidableEq

/-- A statement taken apart. -/
def Statement.ofText (s : Text) : Statement :=
  let (head, rest) := splitHead (Text.trim s)
  ⟨foldEnding (Text.lowercase head), splitOperands rest⟩

end TileCore

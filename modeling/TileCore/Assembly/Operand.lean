import TileCore.Assembly.Error
import TileCore.Text.LetterCase
import TileCore.Text.Numeral

/-!
# Operands

Registers, numbers, labels and addresses as they are written in assembly text. A register has its
number behind an `x` and one or more names that tell its use. A number is decimal or has a base
prefix. A label stands for its address, and the address of a label that is too wide for an
immediate is written in two parts, which `lui` and an addition put together again.

## Main definitions

* `readRegister?`, `readTile?`: registers.
* `readImmediate?`: numbers, whose sign is taken in 64 bits (`negate64`).
* `Labels`, `isLabel`: labels and their addresses.
* `upperPart`, `lowerPart`: the two parts of an address.
* `resolveImmediate`, `resolveTarget`, `resolveAddress`: operands that may name a label.
* `checkSigned`, `checkUpper`: whether a number fits its field.
-/

namespace TileCore

open Text

/-! ### Registers -/

/-- The names of the scalar registers beside their numbers. -/
def registerNames : List (String × Nat) :=
  [("zero", 0), ("ra", 1), ("sp", 2), ("gp", 3), ("tp", 4), ("t0", 5), ("t1", 6), ("t2", 7),
    ("s0", 8), ("fp", 8), ("s1", 9), ("a0", 10), ("a1", 11), ("a2", 12), ("a3", 13), ("a4", 14),
    ("a5", 15), ("a6", 16), ("a7", 17), ("s2", 18), ("s3", 19), ("s4", 20), ("s5", 21),
    ("s6", 22), ("s7", 23), ("s8", 24), ("s9", 25), ("s10", 26), ("s11", 27), ("t3", 28),
    ("t4", 29), ("t5", 30), ("t6", 31)]

/-- The number behind the letter of a register, below `count`. -/
def readIndex? (letter : Char) (count : Nat) : Text → Option Nat
  | c :: s => if c = letter then (readNat 10 (count - 1) s).toOption else none
  | [] => none

/-- The scalar register with the given number or name. -/
def readRegister? (s : Text) : Option Nat :=
  let s := lowercase (trim s)
  readIndex? 'x' scalarCount s <|>
    (registerNames.find? fun entry => entry.1.toList == s).map (·.2)

/-- The tile register with the given number. -/
def readTile? (s : Text) : Option Nat := readIndex? 'm' tileCount (lowercase (trim s))

/-- The scalar register that an operand names. -/
def scalarOperand (s : Text) : Except AssemblyCause Nat :=
  match readRegister? s with
  | some r => .ok r
  | none => .error (.invalidRegister s)

/-- The tile register that an operand names. -/
def tileOperand (s : Text) : Except AssemblyCause Nat :=
  match readTile? s with
  | some r => .ok r
  | none => .error (.invalidTile s)

/-! ### Numbers -/

/-- A number without its sign: the digits of a base behind its mark, or decimal digits. -/
def readMagnitude? (s : Text) : Option Int :=
  match s with
  | '0' :: 'x' :: s => readInt? 16 s
  | '0' :: 'o' :: s => readInt? 8 s
  | '0' :: 'b' :: s => readInt? 2 s
  | c :: _ => if c.isDigit then readInt? 10 s else none
  | [] => none

/-- The opposite of a number in a signed 64-bit register. The least number has no opposite there and
overflows into itself. -/
def negate64 (z : Int) : Int := if z = -0x8000000000000000 then z else -z

theorem negate64_of_nonneg {z : Int} (h : 0 ≤ z) : negate64 z = -z :=
  if_neg fun hz => absurd h (by omega)

/-- The number that an operand spells, if it spells one. -/
def readImmediate? (s : Text) : Option Int :=
  match trim s with
  | '-' :: s => (readMagnitude? (lowercase s)).map negate64
  | '+' :: s => readMagnitude? (lowercase s)
  | s => readMagnitude? (lowercase s)

/-! ### Labels -/

/-- The labels of a source and their addresses. -/
abbrev Labels := List (Text × Word)

/-- Whether a character may start a label. -/
def isLabelStart (c : Char) : Bool := c.isAlpha || c == '_' || c == '.'

/-- Whether a character may follow in a label. -/
def isLabelRest (c : Char) : Bool := c.isAlphanum || c == '_' || c == '.'

/-- Whether a text is a label. -/
def isLabel : Text → Bool
  | [] => false
  | c :: s => isLabelStart c && s.all isLabelRest

/-- The address of a label, blanks around which do not count. -/
def lookupLabel (labels : Labels) (name : Text) : Except AssemblyCause Int :=
  match labels.lookup (trim name) with
  | some addr => .ok addr.toNat
  | none => .error (.labelNotFound (trim name))

/-- The upper twenty bits of an address, rounded so that adding the lower part restores it. -/
def upperPart (addr : Int) : Int := (addr + 0x800) / 0x1000 % 0x100000

/-- The lower twelve bits of an address as a signed number. -/
def lowerPart (addr : Int) : Int := addr.bmod 0x1000

/-- The text between a mark and a closing parenthesis. -/
def betweenParens? (mark : String) (s : Text) : Option Text :=
  (afterStart? mark.toList s).bind (beforeEnd? [')'])

/-- The number, part of an address, or address that an operand stands for. -/
def resolveImmediate (labels : Labels) (operand : Text) : Except AssemblyCause Int :=
  let s := trim operand
  match readImmediate? s with
  | some z => .ok z
  | none =>
    match betweenParens? "%hi(" s with
    | some label => (lookupLabel labels label).map upperPart
    | none =>
      match betweenParens? "%lo(" s with
      | some label => (lookupLabel labels label).map lowerPart
      | none => if isLabel s then lookupLabel labels s else .error (.invalidImmediate s)

/-! ### Ranges -/

/-- A number that fits a signed field. -/
def checkSigned (mnemonic : Text) (bits : Nat) (imm : Int) : Except AssemblyCause Int :=
  if FitsSigned bits imm then .ok imm else .error (.signedRange mnemonic imm bits)

/-- The twenty bits of an upper immediate, which may be written with or without a sign. -/
def checkUpper (mnemonic : Text) (imm : Int) : Except AssemblyCause Nat :=
  if -0x80000 ≤ imm ∧ imm < 0x100000 then .ok (imm % 0x100000).toNat
  else .error (.upperRange mnemonic imm)

/-- The number of places that a shift operand spells. -/
def shiftOperand (s : Text) : Except AssemblyCause Int :=
  match readImmediate? s with
  | some z => if 0 ≤ z ∧ z ≤ 31 then .ok z else .error (.shiftRange z)
  | none => .error (.invalidShift s)

/-- The offset of a branch or jump at address `pc`: a number of bytes, or the way to a label. -/
def resolveTarget (labels : Labels) (pc : Word) (mnemonic : Text) (bits : Nat) (operand : Text) :
    Except AssemblyCause Int := do
  let imm ←
    match readImmediate? operand with
    | some z => pure z
    | none => (lookupLabel labels operand).map (· - pc.toNat)
  if imm % 2 = 0 then checkSigned mnemonic bits imm else .error (.oddOffset mnemonic imm)

/-! ### Addresses -/

/-- The offset and the base register of an address, written `offset(base)` or `(offset)base`. An
offset of zero may be left out. -/
def resolveAddress (labels : Labels) (operand : Text) : Except AssemblyCause (Int × Nat) :=
  let s := trim operand
  match s with
  | '(' :: inner =>
    match splitFirst? (· == ')') inner with
    | none => .error (.invalidAddress s)
    | some (offset, base) =>
      if trim base = [] then do
        let base ← scalarOperand offset
        return (0, base)
      else do
        let offset ← resolveImmediate labels offset
        let base ← scalarOperand base
        return (offset, base)
  | _ =>
    match splitFirst? (· == '(') s with
    | none => .error (.invalidAddress s)
    | some (offset, rest) =>
      match beforeEnd? [')'] rest with
      | none => .error .openAddress
      | some base => do
        let offset ← if trim offset = [] then pure 0 else resolveImmediate labels offset
        let base ← scalarOperand base
        return (offset, base)

end TileCore

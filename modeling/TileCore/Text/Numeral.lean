import TileCore.Text.Blank

/-!
# Whole numbers in text

A numeral is a row of digits of a base, in either letter case, with an optional sign. It is read
from the left, and reading stops at the first character that is no digit or that takes the number
over its limit, so that a numeral with two faults is refused for the first of them.

## Main definitions

* `NumeralError`: why a text is no numeral, with its `message`.
* `digitValue?`: the value of a digit.
* `readNat`: an unsigned numeral, which may carry a plus sign, up to a limit.
* `readInt?`: a signed numeral that fits a signed 64-bit register.
-/

namespace TileCore.Text

/-- Why a text is no numeral. -/
inductive NumeralError
  /-- There is nothing to read. -/
  | empty
  /-- A character is no digit of the base. -/
  | invalidDigit
  /-- The number exceeds the limit. -/
  | tooLarge
  deriving DecidableEq

/-- The wording of a numeral error. -/
def NumeralError.message : NumeralError → String
  | empty => "cannot parse integer from empty string"
  | invalidDigit => "invalid digit found in string"
  | tooLarge => "number too large to fit in target type"

/-- The value of a character as a digit of `base`, which is at most 36. -/
def digitValue? (base : Nat) (c : Char) : Option Nat :=
  let v? :=
    if c.isDigit then some (c.toNat - '0'.toNat)
    else if c.isLower then some (c.toNat - 'a'.toNat + 10)
    else if c.isUpper then some (c.toNat - 'A'.toNat + 10)
    else none
  v?.filter (· < base)

/-- Reads the digits `s` behind digits of value `acc`. -/
def readDigits (base limit : Nat) : (acc : Nat) → Text → Except NumeralError Nat
  | acc, [] => .ok acc
  | acc, c :: s =>
    match digitValue? base c with
    | none => .error .invalidDigit
    | some d =>
      if base * acc + d ≤ limit then readDigits base limit (base * acc + d) s
      else .error .tooLarge

/-- An unsigned numeral of at most `limit`. A plus sign may precede the digits; alone it is no
digit. -/
def readNat (base limit : Nat) : Text → Except NumeralError Nat
  | [] => .error .empty
  | '+' :: c :: s => readDigits base limit 0 (c :: s)
  | s => readDigits base limit 0 s

/-- The largest number that a signed 64-bit register holds. -/
def maxInt64 : Nat := 0x7FFFFFFFFFFFFFFF

/-- A signed numeral that fits a signed 64-bit register. -/
def readInt? (base : Nat) : Text → Option Int
  | '-' :: c :: s => (readDigits base (maxInt64 + 1) 0 (c :: s)).toOption.map fun n => -(n : Int)
  | s => (readNat base maxInt64 s).toOption.map Int.ofNat

end TileCore.Text

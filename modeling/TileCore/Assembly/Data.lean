import TileCore.Assembly.Operand
import TileCore.Assembly.Source
import TileCore.FloatingPoint.Literal

/-!
# Data directives

A line of the data section adds bytes to the data in front of it: numbers of four or two bytes,
numbers of half precision, or zeros. Only an alignment looks at how many bytes there are already.

## Main definitions

* `dataBytes`: the bytes that a data line adds.
-/

namespace TileCore

open Text

/-- The value of a directive. -/
def dataValue (directive value : Text) : Except AssemblyCause Int :=
  match readImmediate? value with
  | some z => .ok z
  | none => .error (.invalidValue directive value)

/-- The four bytes of a number. -/
def wordBytes (directive value : Text) : Except AssemblyCause (List Byte) := do
  let z ← dataValue directive value
  if -0x80000000 ≤ z ∧ z < 0x100000000 then return Word.toBytes (BitVec.ofInt 32 z)
  else .error (.wordRange z)

/-- The two bytes of a number. -/
def halfBytes (directive value : Text) : Except AssemblyCause (List Byte) := do
  let z ← dataValue directive value
  if -0x8000 ≤ z ∧ z < 0x10000 then return (Word.toBytes (BitVec.ofInt 32 z)).take 2
  else .error (.halfRange z)

/-- The two bytes of a number of half precision, which is read in single precision first. -/
def floatBytes (directive value : Text) : Except AssemblyCause (List Byte) :=
  match FloatingPoint.Literal.ofText? value with
  | some l =>
    let x := (Single.ofLiteral l).toHalf
    .ok [x.extractLsb' 0 8, x.extractLsb' 8 8]
  | none => .error (.invalidValue directive value)

/-- The bytes of several values, one after the other. -/
def valueBytes (bytesOf : Text → Except AssemblyCause (List Byte)) :
    List Text → Except AssemblyCause (List Byte)
  | [] => .ok []
  | value :: values => do
    let first ← bytesOf value
    let others ← valueBytes bytesOf values
    return first ++ others

/-- A number of zero bytes. -/
def spaceBytes (directive value : Text) : Except AssemblyCause (List Byte) := do
  let z ← dataValue directive value
  if z < 0 then .error (.negativeSize z) else return List.replicate z.toNat 0

/-- Whether a number is a power of two. -/
def isPowerOfTwo (n : Nat) : Bool := n != 0 && n &&& (n - 1) == 0

/-- The fewest zero bytes behind `size` bytes that make their number a multiple of the
alignment. -/
def alignBytes (size : Nat) (directive value : Text) : Except AssemblyCause (List Byte) := do
  let z ← dataValue directive value
  if isPowerOfTwo z.toNat then return List.replicate (-(size : Int) % z).toNat 0
  else .error (.alignment z)

/-- The bytes that a data line adds to `size` bytes of data. -/
def dataBytes (size : Nat) (line : Text) : Except AssemblyCause (List Byte) :=
  let (directive, rest) := splitHead line
  if directive = ".word".toList then valueBytes (wordBytes directive) (splitOperands rest)
  else if directive = ".half".toList then valueBytes (halfBytes directive) (splitOperands rest)
  else if directive = ".f16".toList then valueBytes (floatBytes directive) (splitOperands rest)
  else if directive = ".space".toList || directive = ".zero".toList then
    spaceBytes directive (trim rest)
  else if directive = ".align".toList then alignBytes size directive (trim rest)
  else .error (.dataDirective line)

end TileCore

import TileCore.Assembly.Data
import TileCore.Assembly.Shorthand

/-!
# Layout of a program

Before anything is encoded, every line gets its place. Instructions follow each other from address
zero on, four bytes each, and data from the start of the data region on; the two sections may
alternate. A label stands for the address of what follows it in its section. Addresses are words: a
section that goes beyond the last of them starts again at address zero.

## Main definitions

* `codeAddress`, `dataAddress`: the addresses of instructions and data.
* `Item`: the text of one instruction with its line and address.
* `Layout`, `Layout.place`, `Layout.ofLines`: the places of all lines.
-/

namespace TileCore

/-- The two sections. -/
inductive Region
  | code | data
  deriving DecidableEq

/-- The section that a line switches to, if it is such a line. -/
def Region.ofLine? (line : Text) : Option Region :=
  if line = ".text".toList || line = ".section .text".toList then some .code
  else if line = ".data".toList || line = ".section .data".toList then some .data
  else none

/-- The address of the `k`-th instruction, counted from zero. -/
def codeAddress (k : Nat) : Word := BitVec.ofNat 32 (4 * k)

theorem toNat_codeAddress {k : Nat} (h : k < 0x40000000) : (codeAddress k).toNat = 4 * k := by
  rw [codeAddress, BitVec.toNat_ofNat, Nat.mod_eq_of_lt (by omega)]

example : codeAddress 0x40000000 = 0 := by decide

/-- The address of the `k`-th byte of data, counted from zero. -/
def dataAddress (k : Nat) : Word := BitVec.ofNat 32 (dataStart + k)

theorem toNat_dataAddress {k : Nat} (h : k < 0x100000000 - 0x200) :
    (dataAddress k).toNat = dataStart + k := by
  rw [dataAddress, BitVec.toNat_ofNat, Nat.mod_eq_of_lt (by rw [dataStart]; omega)]

example : dataAddress 0x100000000 = 0x200 := by decide

/-- The text of one instruction, its line and its address. -/
structure Item where
  /-- The number of its line. -/
  line : Nat
  /-- Its address. -/
  address : Word
  /-- Its text. -/
  text : Text
  deriving DecidableEq

/-- What the lines so far have been given. -/
structure Layout where
  /-- The current section. -/
  region : Region
  /-- The instructions, by address. -/
  items : Array Item
  /-- The labels, the last one first. -/
  labels : Labels
  /-- The data. -/
  data : Array Byte
  deriving DecidableEq

namespace Layout

/-- Nothing has been placed, and the lines to come are code. -/
def empty : Layout := ⟨.code, #[], [], #[]⟩

/-- The address of what follows in the current section. -/
def here (l : Layout) : Word :=
  match l.region with
  | .code => codeAddress l.items.size
  | .data => dataAddress l.data.size

/-- Gives a label the current address. -/
def define (l : Layout) (label : Text) : Except AssemblyCause Layout :=
  if isLabel label then
    if (l.labels.lookup label).isSome then .error (.duplicateLabel label)
    else .ok { l with labels := (label, l.here) :: l.labels }
  else .error (.invalidLabel label)

/-- Defines the label in front of a statement, if there is one, and hands back the statement. -/
def placeLabel (l : Layout) (text : Text) : Except AssemblyCause (Layout × Text) :=
  match Text.splitFirst? (· == ':') text with
  | none => .ok (l, text)
  | some (label, rest) => do
    let l ← l.define (Text.trim label)
    return (l, Text.trim rest)

/-- Appends the text of an instruction. -/
def push (l : Layout) (line : Nat) (text : Text) : Layout :=
  { l with items := l.items.push ⟨line, codeAddress l.items.size, text⟩ }

/-- Appends the text of several instructions. -/
def append (l : Layout) (line : Nat) (texts : List Text) : Layout :=
  texts.foldl (fun l text => l.push line text) l

/-- Places a statement in the current section. -/
def placeStatement (l : Layout) (line : Nat) (text : Text) : Except AssemblyCause Layout :=
  match l.region with
  | .code =>
    if text.head? = some '.' then .error (.textDirective text)
    else (expand text).map (l.append line)
  | .data =>
    (dataBytes l.data.size text).map fun bytes => { l with data := l.data ++ bytes.toArray }

/-- Places a line: a change of the section, or a label, a statement, or both. -/
def place (l : Layout) (line : SourceLine) : Except AssemblyCause Layout :=
  match Region.ofLine? line.text with
  | some region => .ok { l with region := region }
  | none => do
    let (l, text) ← l.placeLabel line.text
    if text = [] then return l else l.placeStatement line.number text

/-- Places several lines. -/
def placeAll (l : Layout) : List SourceLine → Except AssemblyError Layout
  | [] => .ok l
  | line :: lines => do
    let l ← (l.place line).mapError (AssemblyError.mk line.number)
    l.placeAll lines

/-- The first instruction in the place of the data, if there are data. -/
def overflow? (l : Layout) : Option Item :=
  if l.data.size = 0 then none else l.items.find? fun item => dataStart ≤ item.address.toNat

/-- The layout of the lines of a source. -/
def ofLines (lines : List SourceLine) : Except AssemblyError Layout := do
  let l ← empty.placeAll lines
  match l.overflow? with
  | some item => .error ⟨item.line, .codeOverflow⟩
  | none => return l

end Layout

end TileCore

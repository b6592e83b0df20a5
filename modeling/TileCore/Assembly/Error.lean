import TileCore.Isa.Encoding
import TileCore.Text.Blank

/-!
# Errors in assembly text

A source that cannot be assembled is refused with a cause and the number of the line that shows it.

## Main definitions

* `AssemblyCause`, `AssemblyError`: what is wrong and where, each with its `message`.
-/

namespace TileCore

/-- What is wrong with a line. -/
inductive AssemblyCause
  /-- The text before the colon is no label. -/
  | invalidLabel (label : Text)
  /-- The label has an address already. -/
  | duplicateLabel (label : Text)
  /-- A directive among instructions. -/
  | textDirective (line : Text)
  /-- Something else than a data directive among data. -/
  | dataDirective (line : Text)
  /-- The value of a data directive cannot be read. -/
  | invalidValue (directive value : Text)
  /-- The value does not fit a word. -/
  | wordRange (value : Int)
  /-- The value does not fit half a word. -/
  | halfRange (value : Int)
  /-- A negative number of zero bytes. -/
  | negativeSize (size : Int)
  /-- An alignment that is no power of two. -/
  | alignment (value : Int)
  /-- An instruction at or behind the start of the data. -/
  | codeOverflow
  /-- Another number of operands than the usage shows. -/
  | usage (shape : String)
  /-- The same, where the message names the mnemonic. -/
  | usageOf (mnemonic : Text) (shape : String)
  /-- No scalar register has this name. -/
  | invalidRegister (name : Text)
  /-- No tile register has this name. -/
  | invalidTile (name : Text)
  /-- No line defines the label. -/
  | labelNotFound (label : Text)
  /-- The operand is neither a number nor a label. -/
  | invalidImmediate (operand : Text)
  /-- The number does not fit the signed field of the instruction. -/
  | signedRange (mnemonic : Text) (imm : Int) (bits : Nat)
  /-- The number does not fit twenty bits. -/
  | upperRange (mnemonic : Text) (imm : Int)
  /-- The number does not fit a word. -/
  | literalRange (imm : Int)
  /-- The target of a branch or jump is at an odd distance. -/
  | oddOffset (mnemonic : Text) (imm : Int)
  /-- The operand is no number of places. -/
  | invalidShift (operand : Text)
  /-- A word cannot be shifted by this number of places. -/
  | shiftRange (amount : Int)
  /-- The operand is no address. -/
  | invalidAddress (operand : Text)
  /-- The register of an address is not enclosed in parentheses. -/
  | openAddress
  /-- No instruction has this mnemonic. -/
  | unsupported (mnemonic : Text)
  /-- The instruction has no word. -/
  | encoding (reason : EncodeError)
  deriving DecidableEq

/-- The wording of a cause. -/
def AssemblyCause.message : AssemblyCause → String
  | invalidLabel label => s!"invalid label: {String.ofList label}"
  | duplicateLabel label => s!"duplicate label: {String.ofList label}"
  | textDirective line => s!"unknown text directive: {String.ofList line}"
  | dataDirective line => s!"unknown data directive: {String.ofList line}"
  | invalidValue directive value => s!"invalid {String.ofList directive}: {String.ofList value}"
  | wordRange value => s!".word outside 32 bits: {value}"
  | halfRange value => s!".half outside 16 bits: {value}"
  | negativeSize size => s!"size must be positive: {size}"
  | alignment value => s!"alignment must be a power of two: {value}"
  | codeOverflow => "code overflows into data region at 0x200"
  | usage shape => s!"expected '{shape}'"
  | usageOf mnemonic shape => s!"{String.ofList mnemonic}: expected '{shape}'"
  | invalidRegister name => s!"invalid register: {String.ofList name}"
  | invalidTile name => s!"invalid matrix register: {String.ofList name}"
  | labelNotFound label => s!"label not found: {String.ofList label}"
  | invalidImmediate operand => s!"invalid immediate: {String.ofList operand}"
  | signedRange mnemonic imm bits =>
    let least : Int := -(twoPow (bits - 1) : Int)
    let greatest : Int := (twoPow (bits - 1) : Int) - 1
    let range := s!"{bits}-bit signed range ({least}..{greatest})"
    s!"{String.ofList mnemonic}: immediate {imm} out of {range}"
  | upperRange mnemonic imm =>
    s!"{String.ofList mnemonic}: immediate {imm} out of 20-bit range"
  | literalRange imm => s!"li: immediate {imm} does not fit in 32 bits"
  | oddOffset mnemonic imm => s!"{String.ofList mnemonic}: offset {imm} must be even"
  | invalidShift operand => s!"invalid shamt: {String.ofList operand}"
  | shiftRange amount => s!"shamt out of range: {amount}"
  | invalidAddress operand => s!"invalid mem operand: {String.ofList operand}"
  | openAddress => "missing ')'"
  | unsupported mnemonic => s!"unsupported mnemonic: {String.ofList mnemonic}"
  | encoding reason => reason.message

/-- A cause and the number of its line, counted from one. -/
structure AssemblyError where
  /-- The number of the line. -/
  line : Nat
  /-- What is wrong with it. -/
  cause : AssemblyCause
  deriving DecidableEq

/-- The wording of an error. -/
def AssemblyError.message (e : AssemblyError) : String := s!"line {e.line}: {e.cause.message}"

end TileCore

import TileCore.Isa.Convention
import TileCore.Text.Blank
import TileCore.Text.Numeral

/-!
# The options of a run

A run takes options, each with one value that stands behind an equals sign or in the next argument.
Arguments are read from the left. A value behind an equals sign is looked at on the spot; one in an
argument of its own stays open until the next option or the end of the arguments. Which of several
faults is reported follows from that: an argument that has no place is reported before the open
value to its left, and the open value before the option to its right.

## Main definitions

* `RunOptions`: the options of a run.
* `OptionName`: the names of the options, their spelling and their description.
* `Argument`, `Argument.ofText`: an argument by its looks.
* `UsageError`: arguments that cannot be read, with its `message`.
* `ArgumentState`, `RunRequest.read`: reading arguments from the left.
-/

namespace TileCore

open Text

/-- The options of a run. -/
structure RunOptions where
  /-- The number of cycles after which the run is cut. -/
  limit : Nat
  /-- Where the program and its stack start. -/
  control : Control
  deriving DecidableEq

/-- Without options a run is cut at the default limit and starts at the default places. -/
def RunOptions.default : RunOptions := ⟨defaultCycleLimit, Control.default⟩

/-- The name of an option. -/
inductive OptionName
  | limit | start | stack
  deriving DecidableEq

namespace OptionName

/-- All options. -/
def all : List OptionName := [limit, start, stack]

/-- The option as it is given behind two dashes. -/
def flag : OptionName → String
  | limit => "max-iterations"
  | start => "start"
  | stack => "sp"

/-- The option with a name for its value, as messages show it. -/
def usage : OptionName → String
  | limit => "--max-iterations <MAX_ITERATIONS>"
  | start => "--start <START>"
  | stack => "--sp <SP>"

/-- What the option is for. -/
def purpose : OptionName → String
  | limit => "Cycles after which the run is cut"
  | start => "Initial program counter"
  | stack => "Initial stack pointer"

/-- The option of the given name. -/
def ofFlag? (name : Text) : Option OptionName := all.find? fun o => o.flag.toList == name

/-- The lines that explain the options. -/
def help : List String :=
  "Usage: run IMAGE [OPTIONS]" :: "" :: "Options:" ::
    ((all.map fun o => s!"  {o.usage}  {o.purpose}") ++ ["  -h, --help  Print help"])

end OptionName

/-! ### Arguments by their looks -/

/-- An argument of a run as it looks on its own, before its place among the others counts. -/
inductive Argument
  /-- Two dashes, behind which no argument is an option. -/
  | endOfOptions
  /-- An option, with its value if that stands behind an equals sign. -/
  | option (name : OptionName) (value? : Option Text)
  /-- The wish to see the options, with a value if one stands behind an equals sign. -/
  | help (value? : Option Text)
  /-- A text that begins like an option and names none, and the part of it that is no option. -/
  | unknown (shown : Text)
  /-- A text that can be the value of an option. -/
  | plain (text : Text)
  deriving DecidableEq

/-- An argument by its looks. Behind two dashes stands a name, which ends at an equals sign. Behind
one dash every character is a name, and the first of them decides. A dash alone is plain. -/
def Argument.ofText : Text → Argument
  | ['-', '-'] => .endOfOptions
  | '-' :: '-' :: text =>
    let (name, value?) :=
      match splitFirst? (· == '=') text with
      | some (name, value) => (name, some value)
      | none => (text, none)
    match OptionName.ofFlag? name with
    | some o => .option o value?
    | none => if name = "help".toList then .help value? else .unknown ('-' :: '-' :: name)
  | '-' :: c :: _ => if c = 'h' then .help none else .unknown ['-', c]
  | text => .plain text

/-! ### Errors -/

/-- Arguments that cannot be read. -/
inductive UsageError
  /-- The value of an option is not what the option takes. -/
  | invalidValue (option : OptionName) (value : Text) (reason : String)
  /-- An option without a value. -/
  | missingValue (option : OptionName)
  /-- An option that is given twice. -/
  | repeated (option : OptionName)
  /-- The wish to see the options with a value. -/
  | helpWithValue (value : Text)
  /-- An argument that has no place. -/
  | unexpected (arg : Text)
  deriving DecidableEq

/-- The wording of a usage error. -/
def UsageError.message : UsageError → String
  | invalidValue option value reason =>
    s!"invalid value '{String.ofList value}' for '{option.usage}': {reason}"
  | missingValue option =>
    s!"a value is required for '{option.usage}' but none was supplied"
  | repeated option => s!"the argument '{option.usage}' cannot be used multiple times"
  | helpWithValue value =>
    s!"unexpected value '{String.ofList value}' for '--help' found; no more were expected"
  | unexpected arg => s!"unexpected argument '{String.ofList arg}' found"

/-! ### Values -/

/-- An address, decimal or in hexadecimal behind `0x`. -/
def readAddress (s : Text) : Except NumeralError Word :=
  let digits? :=
    match s with
    | '0' :: 'x' :: digits => some digits
    | '0' :: 'X' :: digits => some digits
    | _ => none
  let number :=
    match digits? with
    | some digits => readNat 16 0xFFFFFFFF digits
    | none => readNat 10 0xFFFFFFFF s
  number.map (BitVec.ofNat 32)

namespace RunOptions

/-- The address that is the value of an option. -/
def addressValue (option : OptionName) (value : Text) : Except UsageError Word :=
  (readAddress value).mapError fun e =>
    .invalidValue option value s!"invalid address {String.ofList value}: {e.message}"

/-- The options with one more value. -/
def set (o : RunOptions) (option : OptionName) (value : Text) : Except UsageError RunOptions :=
  match option with
  | .limit =>
    match readNat 10 0xFFFFFFFFFFFFFFFF value with
    | .ok n => .ok { o with limit := n }
    | .error e => .error (.invalidValue option value e.message)
  | .start => do
    let addr ← addressValue option value
    return { o with control := { o.control with start := addr } }
  | .stack => do
    let addr ← addressValue option value
    return { o with control := { o.control with stack := addr } }

end RunOptions

/-! ### Reading from the left -/

/-- An option in an argument of its own whose value has not been looked at. -/
structure OpenOption where
  /-- The option. -/
  name : OptionName
  /-- Its value, once the next argument has given it. -/
  value? : Option Text
  deriving DecidableEq

/-- What the arguments to the left have given. -/
structure ArgumentState where
  /-- The options with the values that have been looked at. -/
  options : RunOptions
  /-- The options that have such a value. -/
  given : List OptionName
  /-- The option that is still open. -/
  open? : Option OpenOption
  deriving DecidableEq

namespace ArgumentState

/-- Before the first argument nothing is given. -/
def start : ArgumentState := ⟨RunOptions.default, [], none⟩

/-- Looks at the value of an option; an option takes one value. -/
def give (s : ArgumentState) (option : OptionName) (value : Text) :
    Except UsageError ArgumentState :=
  if option ∈ s.given then .error (.repeated option)
  else do
    let options ← s.options.set option value
    return { s with options := options, given := option :: s.given }

/-- Looks at the value of the open option, so that none is open. -/
def close (s : ArgumentState) : Except UsageError ArgumentState :=
  match s.open? with
  | none => .ok s
  | some ⟨option, none⟩ => .error (.missingValue option)
  | some ⟨option, some value⟩ => { s with open? := none }.give option value

/-- Reads an option. -/
def option (s : ArgumentState) (name : OptionName) (value? : Option Text) :
    Except UsageError ArgumentState := do
  let s ← s.close
  match value? with
  | some value => s.give name value
  | none => return { s with open? := some ⟨name, none⟩ }

/-- Reads a text that is no option: only an option that lacks its value has a place for it. -/
def plain (s : ArgumentState) (text : Text) : Except UsageError ArgumentState :=
  match s.open? with
  | some ⟨option, none⟩ => .ok { s with open? := some ⟨option, some text⟩ }
  | _ => .error (.unexpected text)

end ArgumentState

/-- What the arguments ask for. -/
inductive RunRequest
  /-- To see the options. -/
  | help
  /-- To run with options. -/
  | run (options : RunOptions)
  deriving DecidableEq

namespace RunRequest

/-- At the end of the arguments the open option gets its value. -/
def finish (s : ArgumentState) : Except UsageError RunRequest :=
  s.close.map fun s => .run s.options

/-- Reads arguments behind those that have given `s`. -/
def readFrom (s : ArgumentState) : List Text → Except UsageError RunRequest
  | [] => finish s
  | arg :: args =>
    match Argument.ofText arg with
    | .endOfOptions =>
      match args with
      | [] => finish s
      | extra :: _ => .error (.unexpected extra)
    | .option name value? => do
      let s ← s.option name value?
      readFrom s args
    | .help none => s.close.map fun _ => .help
    | .help (some value) => .error (.helpWithValue value)
    | .unknown shown => .error (.unexpected shown)
    | .plain text => do
      let s ← s.plain text
      readFrom s args

/-- What the arguments ask for. -/
def read (args : List Text) : Except UsageError RunRequest := readFrom ArgumentState.start args

end RunRequest

end TileCore

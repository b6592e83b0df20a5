import TileCore.Assembly.Program
import TileCore.CommandLine.Options
import TileCore.Report

/-!
# Commands

The two commands of the program as functions from what they read to what they write: assembling a
source into an image, and running an image.

## Main definitions

* `CommandResult`: exit code, output, error line and image of a command.
* `assembleCommand`, `runCommand`: the commands.
-/

namespace TileCore

/-- What a command comes to. -/
structure CommandResult where
  /-- Zero if all went well. -/
  exitCode : Nat
  /-- The lines of the output. -/
  output : List String
  /-- The line that says what went wrong. -/
  error? : Option String
  /-- The image to be written. -/
  image? : Option (List Byte)

/-- A command that failed. -/
def CommandResult.failure (exitCode : Nat) (message : String) : CommandResult :=
  ⟨exitCode, [], some s!"error: {message}", none⟩

/-- Assembles a source, given by its bytes, into an image. -/
def assembleCommand (source : ByteArray) : CommandResult :=
  match String.fromUTF8? source with
  | none => .failure 1 "stream did not contain valid UTF-8"
  | some text =>
    match assemble text.toList with
    | .error e => .failure 1 e.message
    | .ok program => ⟨0, [], none, some program.image⟩

/-- Runs an image with the given arguments and reports. -/
def runCommand (image : List Byte) (args : List Text) : CommandResult :=
  match RunRequest.read args with
  | .error e => .failure 2 e.message
  | .ok .help => ⟨0, OptionName.help, none, none⟩
  | .ok (.run o) =>
    match (Core.ofImage image o.control defaultMemorySize).run o.limit with
    | (_, .error fault) => .failure 1 fault.message
    | (c, .ok outcome) => ⟨0, c.report outcome, none, none⟩

end TileCore

import TileCore.CommandLine

/-!
# The program

`asm SOURCE IMAGE` assembles a file, and `run IMAGE [OPTIONS]` runs one. This module only moves
bytes and lines between the commands and the outside.
-/

namespace TileCore

/-- Writes what a command comes to and hands back its exit code. -/
def CommandResult.emit (r : CommandResult) (imagePath? : Option String) : IO UInt32 := do
  match imagePath?, r.image? with
  | some path, some image =>
    IO.FS.writeBinFile path (ByteArray.mk (image.map fun b => UInt8.ofNat b.toNat).toArray)
  | _, _ => pure ()
  for line in r.output do
    IO.println line
  if let some line := r.error? then
    IO.eprintln line
  return UInt32.ofNat r.exitCode

/-- The bytes of a file as they go into memory. -/
def imageOfFile (path : String) : IO (List Byte) := do
  let bytes ← IO.FS.readBinFile path
  return bytes.toList.map fun b => BitVec.ofNat 8 b.toNat

/-- Runs the command that the arguments name. -/
def runProgram : List String → IO UInt32
  | ["asm", source, image] => do
    let bytes ← IO.FS.readBinFile source
    (assembleCommand bytes).emit (some image)
  | "run" :: image :: args => do
    let bytes ← imageOfFile image
    (runCommand bytes (args.map String.toList)).emit none
  | _ => do
    IO.eprintln "usage: asm SOURCE IMAGE, or run IMAGE [OPTIONS]"
    return 2

end TileCore

/-- Runs the command that the arguments name; a file that cannot be read or written ends it. -/
def main (args : List String) : IO UInt32 := do
  try
    TileCore.runProgram args
  catch e =>
    IO.eprintln ("error: " ++ toString e)
    return 1

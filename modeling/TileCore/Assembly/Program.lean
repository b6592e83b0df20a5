import TileCore.Assembly.Layout
import TileCore.Assembly.Mnemonic

/-!
# Programs

Assembling a source gives the words of its code and the bytes of its data. The image of a program
is what goes into memory at address zero: the code, zeros up to the start of the data, and the data.

## Main definitions

* `Program`, `Program.image`: an assembled program.
* `assemble`: the program of a source.
-/

namespace TileCore

/-- The bytes of several words. -/
def wordsToBytes (words : List Word) : List Byte := words.flatMap Word.toBytes

/-- Code and data. -/
structure Program where
  /-- The words of the code, from address zero on. -/
  code : List Word
  /-- The bytes of the data. -/
  data : List Byte
  /-- The address of the data. -/
  dataBase : Nat
  deriving DecidableEq

/-- The bytes of a program from address zero on. Without data the image ends with the code. -/
def Program.image (p : Program) : List Byte :=
  let code := wordsToBytes p.code
  if p.data = [] then code
  else code.take p.dataBase ++ List.replicate (p.dataBase - code.length) 0 ++ p.data

/-- The word of an item. -/
def Item.encode (labels : Labels) (item : Item) : Except AssemblyError Word :=
  match readInstruction labels item.address item.text with
  | .error cause => .error ⟨item.line, cause⟩
  | .ok i => i.encode.mapError fun e => ⟨item.line, .encoding e⟩

/-- The words of several items. -/
def encodeItems (labels : Labels) : List Item → Except AssemblyError (List Word)
  | [] => .ok []
  | item :: items => do
    let w ← item.encode labels
    let ws ← encodeItems labels items
    return w :: ws

/-- The program of a source. -/
def assemble (source : Text) : Except AssemblyError Program := do
  let l ← Layout.ofLines (sourceLines source)
  let code ← encodeItems l.labels l.items.toList
  return ⟨code, l.data.toList, dataStart⟩

end TileCore

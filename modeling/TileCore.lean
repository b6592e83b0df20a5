import TileCore.Main
import TileCore.Proofs.Assembly.ListingProgram
import TileCore.Proofs.Assembly.Literals
import TileCore.Proofs.Assembly.Refusals
import TileCore.Proofs.Machine.Effects
import TileCore.Proofs.Machine.InOrder
import TileCore.Proofs.Machine.Failures
import TileCore.Proofs.Machine.Runs
import TileCore.Proofs.Assembly.Image
import TileCore.Proofs.Machine.Faulted
import TileCore.Proofs.Machine.Loading
import TileCore.Proofs.Machine.Sessions
import TileCore.Proofs.Machine.ZeroRegister
import TileCore.Proofs.Machine.Confinement
import TileCore.Proofs.Assembly.ControlFlow
import TileCore.Proofs.Machine.LargerMemory
import TileCore.Proofs.Assembly.Regrouping
import TileCore.Proofs.Machine.Lifecycle
import TileCore.Proofs.Machine.Budgets
import TileCore.Proofs.Codec.FormatTables
import TileCore.Proofs.Machine.Arithmetic
import TileCore.Proofs.Assembly.Addresses
import TileCore.Proofs.Assembly.Alignment
import TileCore.Proofs.Machine.Faults
import TileCore.Proofs.Machine.Frames
import TileCore.Proofs.Machine.TileTransfers
import TileCore.Proofs.Assembly.Shorthands
import TileCore.Proofs.Assembly.Stack
import TileCore.Proofs.Text.Numerals
import TileCore.Proofs.Assembly.Numbers
import TileCore.Proofs.Assembly.BlankFields
import TileCore.Proofs.Assembly.Numbering
import TileCore.Proofs.Assembly.Appearance
import TileCore.Proofs.Assembly.ErrorLines
import TileCore.Proofs.Assembly.DataBytes
import TileCore.Proofs.Assembly.Directives
import TileCore.Proofs.Assembly.Correspondence
import TileCore.Proofs.Text.LetterCase
import TileCore.Proofs.Assembly.RegisterNames
import TileCore.Proofs.Assembly.Spellings
import TileCore.Proofs.Codec.Representable
import TileCore.Proofs.Machine.ByteMap
import TileCore.Proofs.Machine.TileProducts
import TileCore.Proofs.Assembly.Expansion
import TileCore.Proofs.Codec.PlaceValues
import TileCore.Proofs.Codec.SignedFields
import TileCore.Proofs.Machine.ByteRows

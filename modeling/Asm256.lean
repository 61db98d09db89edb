import Asm256.CommandLine.World
import Asm256.Main
import Asm256.Proofs.Assembled
import Asm256.Proofs.Machine.Frame
import Asm256.Proofs.Program.Reading
import Asm256.Proofs.Instruction.TreeLookup
import Asm256.Proofs.Program.Boundary
import Asm256.Proofs.Program.Safety
import Asm256.Proofs.Program.Interpreter
import Asm256.Proofs.Program.Simulation
import Asm256.Proofs.Program.Correctness
import Asm256.Proofs.Program.Targets
import Asm256.Proofs.Script.Grammar
import Asm256.Proofs.Script.Placement
import Asm256.Proofs.Script.Acceptance
import Asm256.Proofs.Listing.Sweep
import Asm256.Proofs.Listing.Assembled
import Asm256.Proofs.Outcome
import Asm256.Proofs.Listing.Written
import Asm256.Proofs.Listing.Reassembly
import Asm256.Proofs.Listing.RoundTrip
import Asm256.Proofs.Machine.Cycle
import Asm256.Proofs.Machine.Calls
import Asm256.Proofs.Machine.Decoding
import Asm256.Proofs.Machine.Data
import Asm256.Proofs.Listing.Execution
import Asm256.Proofs.Passes
import Asm256.Proofs.Script.Padding
import Asm256.Proofs.Machine.Relocation
import Asm256.Proofs.Program.Relocation
import Asm256.Proofs.Machine.Flags
import Asm256.Proofs.Machine.Independence
import Asm256.Proofs.Machine.Retry
import Asm256.Proofs.Source.Numbers
import Asm256.Proofs.Machine.Printing
import Asm256.Proofs.Machine.Manual
import Asm256.Proofs.Machine.Failure
import Asm256.Proofs.Source.Locations
import Asm256.Proofs.Source.Parsing
import Asm256.Proofs.Source.Matching
import Asm256.Proofs.Source.TabWidth
import Asm256.Proofs.CommandLine.Running
import Asm256.Proofs.Concatenation
import Asm256.Proofs.Source.Words
import Asm256.Proofs.Source.Respelling
import Asm256.Proofs.Source.Accounting
import Asm256.Proofs.Instruction.Sessions
import Asm256.Proofs.Instruction.Inverse
import Asm256.Proofs.Image.FirstError
import Asm256.Proofs.Program.Termination
import Asm256.Proofs.Listing.Tiling
import Asm256.Proofs.Byte.Wrapping
import Asm256.Proofs.Source.Renaming
import Asm256.Proofs.Renaming
import Asm256.Proofs.Machine.LineRoundTrip
import Asm256.Proofs.Byte.Numerals
import Asm256.Proofs.CommandLine.Files
import Asm256.Proofs.CommandLine.Emitting
import Asm256.Proofs.Listing.LabelNames
import Asm256.Proofs.Image.Writing
import Asm256.Proofs.Instruction.NodeSessions

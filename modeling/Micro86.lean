import Micro86.Banner
import Micro86.Command.Arguments
import Micro86.Command.Assemble
import Micro86.Command.Execute
import Micro86.Command.Reply
import Micro86.Console
import Micro86.FileTree
import Micro86.Files
import Micro86.GotoProgram.Basic
import Micro86.GotoProgram.Compile
import Micro86.GotoProgram.Statement
import Micro86.Image
import Micro86.InstructionSet.Basic
import Micro86.InstructionSet.Bundled
import Micro86.InstructionSet.Descriptor
import Micro86.InstructionSet.Role
import Micro86.Journal
import Micro86.Listing
import Micro86.Machine.Basic
import Micro86.Machine.Cpu
import Micro86.Machine.Run
import Micro86.Machine.Step
import Micro86.Main
import Micro86.Program.Basic
import Micro86.Program.Parse
import Micro86.Program.Resolve
import Micro86.Text.Blank
import Micro86.Text.DecimalDigit
import Micro86.Text.Line
import Micro86.Text.Numeral
import Micro86.Text.Printable
import Micro86.Text.Quoted
import Micro86.Text.Search
import Micro86.Text.Utf8
import Micro86.Token
import Micro86.Word
import Micro86.Proofs.Fallible
import Micro86.Proofs.Program.Acceptance
import Micro86.Proofs.Machine.Invariant
import Micro86.Proofs.InstructionSet.Bundled
import Micro86.Proofs.Program.WellFormed
import Micro86.Proofs.Program.Resolve
import Micro86.Proofs.Image
import Micro86.Proofs.Program.Semantics
import Micro86.Proofs.Machine.Simulation
import Micro86.Proofs.GotoProgram.Labels
import Micro86.Proofs.GotoProgram.Simulation
import Micro86.Proofs.GotoProgram.Reading
import Micro86.Proofs.GotoProgram.RoundTrip
import Micro86.Proofs.GotoProgram.Naming
import Micro86.Proofs.GotoProgram.Agreement
import Micro86.Proofs.Text.Search
import Micro86.Proofs.Banner
import Micro86.Proofs.Listing
import Micro86.Proofs.GotoProgram.Immediates
import Micro86.Proofs.Machine.CodeEnd
import Micro86.Proofs.InstructionSet.Renumbering
import Micro86.Proofs.Program.Renumbering
import Micro86.Proofs.Machine.Renumbering
import Micro86.Proofs.Diagnosis
import Micro86.Proofs.Command.Failures
import Micro86.Proofs.Program.Layout
import Micro86.Proofs.Program.Renaming
import Micro86.Proofs.Command.Delivery
import Micro86.Proofs.Machine.Comparison
import Micro86.Proofs.Program.Completion
import Micro86.Proofs.GotoProgram.Placement
import Micro86.Proofs.Program.Concatenation
import Micro86.Proofs.Machine.Pausing
import Micro86.Proofs.Machine.FailedStep
import Micro86.Proofs.Machine.Unbroken
import Micro86.Proofs.Machine.Arithmetic
import Micro86.Proofs.Machine.Disassembly
import Micro86.Proofs.Program.Translatable
import Micro86.Proofs.Machine.Restart
import Micro86.Proofs.InstructionSet.Grammar
import Micro86.Proofs.Word.Codec
import Micro86.Proofs.Listing.Grammar
import Micro86.Proofs.Source

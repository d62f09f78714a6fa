import WordMachine.Word
import WordMachine.Text.Hex
import WordMachine.Text.Blank
import WordMachine.Text.Visible
import WordMachine.Segment
import WordMachine.Instruction.Basic
import WordMachine.Instruction.Printer
import WordMachine.Service
import WordMachine.Host.OsError
import WordMachine.Host.Path
import WordMachine.Host.Disk
import WordMachine.Host.Log
import WordMachine.Host.Basic
import WordMachine.Image
import WordMachine.Fault
import WordMachine.Stack
import WordMachine.Machine.Basic
import WordMachine.Machine.Exec
import WordMachine.NameTable
import WordMachine.Console.Sink
import WordMachine.Console.Basic
import WordMachine.SaveStore
import WordMachine.Extension.Utility
import WordMachine.Extension.Builtin
import WordMachine.Extension.Bridge
import WordMachine.Extension.Script
import WordMachine.Extension.Sample
import WordMachine.Extension.Loader
import WordMachine.Vm.Basic
import WordMachine.Vm.Interrupt
import WordMachine.Vm.Step
import WordMachine.Vm.Config
import WordMachine.Assembly.Error
import WordMachine.Assembly.Number
import WordMachine.Assembly.Token
import WordMachine.Assembly.Item
import WordMachine.Assembly.Layout
import WordMachine.Assembly.Assemble
import WordMachine.Command.Arguments
import WordMachine.Command.Programs
import WordMachine.Main
import WordMachine.Proofs.Word
import WordMachine.Proofs.Action
import WordMachine.Proofs.Memory.ByteOrder
import WordMachine.Proofs.Memory.Segments
import WordMachine.Proofs.Memory.Images
import WordMachine.Proofs.Memory.Strings
import WordMachine.Proofs.Memory.CyclicScan
import WordMachine.Proofs.Machine.Arithmetic
import WordMachine.Proofs.Machine.Frame
import WordMachine.Proofs.Machine.Registers
import WordMachine.Proofs.Machine.Shifts
import WordMachine.Proofs.Machine.Snapshots
import WordMachine.Proofs.NameTable.Holes
import WordMachine.Proofs.NameTable.History
import WordMachine.Proofs.NameTable.Coalescing
import WordMachine.Proofs.Console.Columns
import WordMachine.Proofs.Host.Files
import WordMachine.Proofs.Host.Paths
import WordMachine.Proofs.Save.Slots
import WordMachine.Proofs.Save.PersistentArray
import WordMachine.Proofs.Save.Frame
import WordMachine.Proofs.Save.Contents
import WordMachine.Proofs.Extension.Loading
import WordMachine.Proofs.Extension.Serving
import WordMachine.Proofs.Extension.Agreement
import WordMachine.Proofs.Extension.Callbacks
import WordMachine.Proofs.Extension.Containment
import WordMachine.Proofs.Extension.LentStrings
import WordMachine.Proofs.Extension.Powers
import WordMachine.Proofs.Lockstep.Commuting
import WordMachine.Proofs.Lockstep.ListMachine
import WordMachine.Proofs.Lockstep.Instructions
import WordMachine.Proofs.Lockstep.Utilities
import WordMachine.Proofs.Lockstep.Steps
import WordMachine.Proofs.Lockstep.Faults
import WordMachine.Proofs.Lockstep.ServiceFaults
import WordMachine.Proofs.Lockstep.Refinement
import WordMachine.Proofs.Vm.Output
import WordMachine.Proofs.Vm.Parts
import WordMachine.Proofs.Vm.Advance
import WordMachine.Proofs.Vm.Reachable
import WordMachine.Proofs.Vm.Failure
import WordMachine.Proofs.Vm.Naming
import WordMachine.Proofs.Vm.Requests
import WordMachine.Proofs.Vm.Restart
import WordMachine.Proofs.Vm.Diagnostics
import WordMachine.Proofs.Vm.Printing
import WordMachine.Proofs.Vm.Storage
import WordMachine.Proofs.Vm.BulkCopy
import WordMachine.Proofs.Vm.Footprint
import WordMachine.Proofs.Vm.Landing
import WordMachine.Proofs.Vm.OwnImage
import WordMachine.Proofs.Assembly.Placement
import WordMachine.Proofs.Assembly.Program
import WordMachine.Proofs.Assembly.Spelling
import WordMachine.Proofs.Assembly.Numerals
import WordMachine.Proofs.Assembly.NumberGrammar
import WordMachine.Proofs.Assembly.Reading
import WordMachine.Proofs.Assembly.Provenance
import WordMachine.Proofs.Assembly.Reference
import WordMachine.Proofs.Assembly.Execution
import WordMachine.Proofs.Assembly.Literals
import WordMachine.Proofs.Assembly.OutputFile
import WordMachine.Proofs.Assembly.Words
import WordMachine.Proofs.Assembly.Lines
import WordMachine.Proofs.Assembly.Errors
import WordMachine.Proofs.Assembly.Partition
import WordMachine.Proofs.Assembly.Rendering
import WordMachine.Proofs.Assembly.Sections
import WordMachine.Proofs.Assembly.Positions
import WordMachine.Proofs.Assembly.Spacing
import WordMachine.Proofs.Checked.RawMachine
import WordMachine.Proofs.Checked.Mirroring
import WordMachine.Proofs.Checked.Instructions
import WordMachine.Proofs.Checked.RawLexer
import WordMachine.Proofs.Checked.Lexing
import WordMachine.Proofs.Checked.RawAssembler
import WordMachine.Proofs.Checked.Operands
import WordMachine.Proofs.Checked.Assembling
import WordMachine.Proofs.Checked.Totality
import WordMachine.Proofs.Checked.Utilities
import WordMachine.Proofs.Checked.Steps
import WordMachine.Proofs.Checked.Safety

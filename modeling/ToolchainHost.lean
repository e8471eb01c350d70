import ToolchainHost.Archive.Header
import ToolchainHost.Archive.Loader
import ToolchainHost.Bytes
import ToolchainHost.Command.Driver
import ToolchainHost.Command.Words
import ToolchainHost.Config
import ToolchainHost.Event
import ToolchainHost.Failure
import ToolchainHost.Files.Slots
import ToolchainHost.Files.Store.Basic
import ToolchainHost.Files.Store.Descriptors
import ToolchainHost.Files.Store.Nodes
import ToolchainHost.Files.System
import ToolchainHost.Guest.Engine
import ToolchainHost.Guest.Instance
import ToolchainHost.Guest.ProcessState
import ToolchainHost.Guest.Program
import ToolchainHost.Guest.Termination
import ToolchainHost.Host.Basic
import ToolchainHost.Host.FileCalls
import ToolchainHost.Host.Stdio
import ToolchainHost.Host.Transfer
import ToolchainHost.Interface
import ToolchainHost.Json.Numeral
import ToolchainHost.Json.Parser
import ToolchainHost.Json.Printer
import ToolchainHost.Json.Value
import ToolchainHost.Language
import ToolchainHost.Listing
import ToolchainHost.Mailbox
import ToolchainHost.Main
import ToolchainHost.Memory.Basic
import ToolchainHost.Memory.View
import ToolchainHost.Module.Check
import ToolchainHost.Module.Leb128
import ToolchainHost.Outcome
import ToolchainHost.Path
import ToolchainHost.Proofs.Archive.Encoding
import ToolchainHost.Proofs.Archive.Loading
import ToolchainHost.Proofs.Archive.Resumption
import ToolchainHost.Proofs.Archive.RoundTrip
import ToolchainHost.Proofs.Failures
import ToolchainHost.Proofs.Files.Catalog
import ToolchainHost.Proofs.Files.Growth
import ToolchainHost.Proofs.Files.History
import ToolchainHost.Proofs.Files.Layout
import ToolchainHost.Proofs.Files.Lookup
import ToolchainHost.Proofs.Files.Nodes
import ToolchainHost.Proofs.Files.Opening
import ToolchainHost.Proofs.Files.Registry
import ToolchainHost.Proofs.Files.Repetition
import ToolchainHost.Proofs.Files.Requests
import ToolchainHost.Proofs.Files.Slots
import ToolchainHost.Proofs.Files.Store
import ToolchainHost.Proofs.Files.System
import ToolchainHost.Proofs.Guest.Calls
import ToolchainHost.Proofs.Guest.Dependence
import ToolchainHost.Proofs.Guest.Explanation
import ToolchainHost.Proofs.Guest.Life
import ToolchainHost.Proofs.Guest.Sharing
import ToolchainHost.Proofs.Guest.Tables
import ToolchainHost.Proofs.Guest.Trace
import ToolchainHost.Proofs.Guest.Visits
import ToolchainHost.Proofs.Handshake
import ToolchainHost.Proofs.Host.Alike
import ToolchainHost.Proofs.Host.Calls
import ToolchainHost.Proofs.Host.FileCalls
import ToolchainHost.Proofs.Host.Input
import ToolchainHost.Proofs.Host.Layout
import ToolchainHost.Proofs.Host.Names
import ToolchainHost.Proofs.Host.Output
import ToolchainHost.Proofs.Host.Plain
import ToolchainHost.Proofs.Host.Residue
import ToolchainHost.Proofs.Host.Segments
import ToolchainHost.Proofs.Host.Heap
import ToolchainHost.Proofs.Host.Stdio
import ToolchainHost.Proofs.Host.Stream
import ToolchainHost.Proofs.Host.Transfer
import ToolchainHost.Proofs.Memory
import ToolchainHost.Proofs.Operation
import ToolchainHost.Proofs.Path
import ToolchainHost.Proofs.Site
import ToolchainHost.Proofs.Stems
import ToolchainHost.Proofs.Text.Cuts
import ToolchainHost.Proofs.Text.Plain
import ToolchainHost.Proofs.Text.Utf8
import ToolchainHost.Proofs.Toolchain.Reports
import ToolchainHost.Proofs.Toolchain.Stages
import ToolchainHost.Proofs.Worker
import ToolchainHost.Request
import ToolchainHost.Segment
import ToolchainHost.Site
import ToolchainHost.StringTable
import ToolchainHost.Text.Blank
import ToolchainHost.Text.Decimal
import ToolchainHost.Text.Hex
import ToolchainHost.Text.Replace
import ToolchainHost.Text.Utf8
import ToolchainHost.Toolchain.Basic
import ToolchainHost.Toolchain.CommandLine
import ToolchainHost.Toolchain.Stages
import ToolchainHost.Tree
import ToolchainHost.Worker
import ToolchainHost.Proofs.Boot
import ToolchainHost.Proofs.Views.Access
import ToolchainHost.Proofs.Views.Histories
import ToolchainHost.Proofs.Toolchain.Plans
import ToolchainHost.Proofs.Toolchain.Stopping
import ToolchainHost.Proofs.Guest.Writing
import ToolchainHost.Proofs.Toolchain.Guests
import ToolchainHost.Proofs.Toolchain.Artifacts
import ToolchainHost.Proofs.Files.Steps
import ToolchainHost.Proofs.Host.Steps
import ToolchainHost.Proofs.Host.Reads
import ToolchainHost.Proofs.Json.RoundTrip
import ToolchainHost.Proofs.Json.Reading
import ToolchainHost.Proofs.Requests
import ToolchainHost.Proofs.Events
import ToolchainHost.Proofs.Toolchain.Modules
import ToolchainHost.Proofs.Guest.Texts
import ToolchainHost.Proofs.Toolchain.Shown
import ToolchainHost.Proofs.Quiet
import ToolchainHost.Proofs.Archive.Malformed
import ToolchainHost.Proofs.Module.Cursor
import ToolchainHost.Files.Runs
import ToolchainHost.Proofs.Files.Addition
import ToolchainHost.Proofs.Host.Rejection
import ToolchainHost.Proofs.Host.Gathering
import ToolchainHost.Proofs.Host.Interruption
import ToolchainHost.Proofs.Guest.Areas
import ToolchainHost.Proofs.Host.Orphans
import ToolchainHost.Proofs.Command.Words
import ToolchainHost.Proofs.Command.Placeholder
import ToolchainHost.Proofs.Toolchain.Objects
import ToolchainHost.Proofs.Sources
import ToolchainHost.Proofs.Host.Sums
import ToolchainHost.Proofs.Spellings
import ToolchainHost.Proofs.Module.Register
import ToolchainHost.Proofs.Guest.Random
import ToolchainHost.Proofs.Command.Arguments

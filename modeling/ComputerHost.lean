import ComputerHost.Binary64
import ComputerHost.Binary64.Shortest
import ComputerHost.Breakpoint
import ComputerHost.Capability
import ComputerHost.Command.Arguments
import ComputerHost.Command.Execution
import ComputerHost.Computer
import ComputerHost.ComputerConfig
import ComputerHost.ConfigStore
import ComputerHost.Error
import ComputerHost.Event
import ComputerHost.EventQueue
import ComputerHost.FilePath
import ComputerHost.FileTree
import ComputerHost.Handle
import ComputerHost.Hook
import ComputerHost.Host.Basic
import ComputerHost.Host.Boot
import ComputerHost.Host.Clock
import ComputerHost.Host.Construction
import ComputerHost.Host.Journal
import ComputerHost.Host.Run
import ComputerHost.Host.Stage
import ComputerHost.Host.Teardown
import ComputerHost.Host.Wiring
import ComputerHost.HostConfig
import ComputerHost.HostConfig.Document
import ComputerHost.JsonTree.Basic
import ComputerHost.JsonTree.Printer
import ComputerHost.JsonTree.Reader
import ComputerHost.Library
import ComputerHost.Load.Basic
import ComputerHost.Load.Bridge
import ComputerHost.Load.Direct
import ComputerHost.Load.Operation
import ComputerHost.Load.Parser
import ComputerHost.Main
import ComputerHost.Mount
import ComputerHost.Peripheral
import ComputerHost.Plugin
import ComputerHost.Registry
import ComputerHost.Script.Instruction
import ComputerHost.Script.Interpreter
import ComputerHost.Script.Program
import ComputerHost.Script.Run
import ComputerHost.SourcePath
import ComputerHost.TaskQueue
import ComputerHost.Terminal
import ComputerHost.Text
import ComputerHost.TimerService
import ComputerHost.Tombstones
import ComputerHost.TomlTree.Basic
import ComputerHost.TomlTree.Draft
import ComputerHost.TomlTree.Number
import ComputerHost.TomlTree.Printer
import ComputerHost.TomlTree.Reader
import ComputerHost.Value
import ComputerHost.Proofs.Load.Protocol
import ComputerHost.Proofs.Load.Safety
import ComputerHost.Proofs.Load.Sequential
import ComputerHost.Proofs.Load.Refinement
import ComputerHost.Proofs.Table
import ComputerHost.Proofs.Store.Document
import ComputerHost.Proofs.Store.Files
import ComputerHost.Proofs.Host.Frame
import ComputerHost.Proofs.Host.Turn
import ComputerHost.Proofs.Host.History
import ComputerHost.Proofs.Host.Loop
import ComputerHost.Proofs.Host.Simulation
import ComputerHost.Proofs.Host.Aspect
import ComputerHost.Proofs.Host.Change
import ComputerHost.Proofs.Host.Delivery
import ComputerHost.Proofs.Host.Roster
import ComputerHost.Proofs.Host.Thread
import ComputerHost.Proofs.Host.Course
import ComputerHost.Proofs.Host.Reboot
import ComputerHost.Proofs.Host.TimerFate
import ComputerHost.Proofs.Host.References
import ComputerHost.Proofs.Host.Wiring
import ComputerHost.Proofs.Host.Wired
import ComputerHost.Proofs.Host.LinkTeardown
import ComputerHost.Proofs.Host.Footprint
import ComputerHost.Proofs.Host.Watchdog
import ComputerHost.Proofs.Host.Custody
import ComputerHost.Proofs.Host.Ledger
import ComputerHost.Proofs.Host.Ending
import ComputerHost.Proofs.Host.Emptied
import ComputerHost.Proofs.Host.Release
import ComputerHost.Proofs.Host.Core
import ComputerHost.Proofs.Host.TimerMarks
import ComputerHost.Proofs.Host.Phase
import ComputerHost.Proofs.Host.TornDown
import ComputerHost.Proofs.Host.Hooks
import ComputerHost.Proofs.Script.Loading
import ComputerHost.Proofs.Script.Smooth
import ComputerHost.Proofs.Script.Through
import ComputerHost.Proofs.Script.Transparent
import ComputerHost.Proofs.Host.Parking
import ComputerHost.Proofs.Host.Scope
import ComputerHost.Proofs.Host.Screens
import ComputerHost.Proofs.Host.Stopping
import ComputerHost.Proofs.Host.Exposure
import ComputerHost.Proofs.Script.Heedless
import ComputerHost.Proofs.Store.Neighbours
import ComputerHost.Proofs.Host.Likeness
import ComputerHost.Proofs.Host.Owners
import ComputerHost.Proofs.Host.Mirror
import ComputerHost.Proofs.Host.Reflection
import ComputerHost.Proofs.Host.MirroredMoves
import ComputerHost.Proofs.Host.Bystander
import ComputerHost.Proofs.Host.Incident
import ComputerHost.Proofs.Host.Isolation
import ComputerHost.Proofs.Host.Instances
import ComputerHost.Proofs.Host.Construction
import ComputerHost.Proofs.Host.FailedSpawn
import ComputerHost.Proofs.Host.Scene
import ComputerHost.Proofs.Host.Program
import ComputerHost.Proofs.Host.TerminalFate
import ComputerHost.Proofs.Host.Reporting
import ComputerHost.Proofs.Host.Resolution
import ComputerHost.Proofs.Script.Progress
import ComputerHost.Proofs.Store.Equivalence
import ComputerHost.Proofs.Toml.Settings
import ComputerHost.Proofs.Since
import ComputerHost.Proofs.Breakpoints
import ComputerHost.Proofs.Timer.Service
import ComputerHost.Proofs.Timer.Heap
import ComputerHost.Proofs.Host.Debounce
import ComputerHost.Proofs.Terminal.Grid
import ComputerHost.Proofs.Terminal.History
import ComputerHost.Proofs.Tasks
import ComputerHost.Proofs.Host.Mounts
import ComputerHost.Proofs.Host.Rest
import ComputerHost.Proofs.Command.Boots
import ComputerHost.Proofs.SourcePaths

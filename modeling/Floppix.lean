import Floppix.Algo.Array
import Floppix.Algo.List
import Floppix.Algo.Order
import Floppix.Algo.Resort
import Floppix.Algo.Sequence
import Floppix.Algo.Size
import Floppix.Algo.Sort
import Floppix.Core.Callbacks
import Floppix.Core.CommandLine
import Floppix.Core.Config.Acceptance
import Floppix.Core.Config.Address
import Floppix.Core.Config.Attribution
import Floppix.Core.Config.Buffer
import Floppix.Core.Config.Denotation
import Floppix.Core.Config.Dispatch
import Floppix.Core.Config.FlagHandler
import Floppix.Core.Config.Frame
import Floppix.Core.Config.Grammar
import Floppix.Core.Config.Handlers
import Floppix.Core.Config.Include
import Floppix.Core.Config.Inclusion
import Floppix.Core.Config.LastLine
import Floppix.Core.Config.LevelOrder
import Floppix.Core.Config.LineNumbers
import Floppix.Core.Config.Lines
import Floppix.Core.Config.LogHandler
import Floppix.Core.Config.Losses
import Floppix.Core.Config.Masks
import Floppix.Core.Config.Parse
import Floppix.Core.Config.Process
import Floppix.Core.Config.Reading
import Floppix.Core.Config.Rendering
import Floppix.Core.Config.Scanner
import Floppix.Core.Config.Settings
import Floppix.Core.Config.Size
import Floppix.Core.Config.Takes
import Floppix.Core.Config.Termination
import Floppix.Core.Config.TestMode
import Floppix.Core.Config.WholeFile
import Floppix.Core.Config.Wildcard
import Floppix.Core.Connection
import Floppix.Core.Contexts
import Floppix.Core.Initialisation
import Floppix.Core.Listen
import Floppix.Core.Log.Blocking
import Floppix.Core.Log.Channel
import Floppix.Core.Log.Console
import Floppix.Core.Log.File
import Floppix.Core.Log.Interrupts
import Floppix.Core.Log.Invariant
import Floppix.Core.Log.Message
import Floppix.Core.Log.Preservation
import Floppix.Core.Log.Progress
import Floppix.Core.Log.Protocol
import Floppix.Core.Log.Queue
import Floppix.Core.Log.Record
import Floppix.Core.Log.Sinks
import Floppix.Core.Log.Transcript
import Floppix.Core.Main
import Floppix.Core.Module
import Floppix.Core.Ownership
import Floppix.Core.Privileges
import Floppix.Core.Ready
import Floppix.Core.Server
import Floppix.Core.SharedObjects
import Floppix.Core.Starts
import Floppix.Core.Startup
import Floppix.Core.TestRun
import Floppix.Lib.Broadcast
import Floppix.Lib.Chain
import Floppix.Lib.Components
import Floppix.Lib.Custody
import Floppix.Lib.Descriptors
import Floppix.Lib.Doubly
import Floppix.Lib.Family
import Floppix.Lib.Fields
import Floppix.Lib.FirstDifference
import Floppix.Lib.Holding
import Floppix.Lib.Ledger
import Floppix.Lib.Levels
import Floppix.Lib.Lifetime
import Floppix.Lib.Loans
import Floppix.Lib.Merging
import Floppix.Lib.Numeral
import Floppix.Lib.Outcome
import Floppix.Lib.Pass
import Floppix.Lib.Patching
import Floppix.Lib.Region
import Floppix.Lib.Registry
import Floppix.Lib.Signed
import Floppix.Lib.Simulation
import Floppix.Lib.ThreadSum
import Floppix.Lib.Transition
import Floppix.Lib.Unicode
import Floppix.Lib.Worklist
import Floppix.System.Credentials
import Floppix.System.Errno
import Floppix.System.FileIo
import Floppix.System.Filesys
import Floppix.System.Glob
import Floppix.System.PathBuffers
import Floppix.System.Pool.Accounting
import Floppix.System.Pool.Alloc
import Floppix.System.Pool.Allocation
import Floppix.System.Pool.Arithmetic
import Floppix.System.Pool.Blocks
import Floppix.System.Pool.Cleanups
import Floppix.System.Pool.Clearing
import Floppix.System.Pool.Creation
import Floppix.System.Pool.Destruction
import Floppix.System.Pool.Emptying
import Floppix.System.Pool.Entries
import Floppix.System.Pool.ExactlyOnce
import Floppix.System.Pool.Failures
import Floppix.System.Pool.Forest
import Floppix.System.Pool.Frame
import Floppix.System.Pool.Heap
import Floppix.System.Pool.InitialSize
import Floppix.System.Pool.Intact
import Floppix.System.Pool.Invariant
import Floppix.System.Pool.Joining
import Floppix.System.Pool.Lasting
import Floppix.System.Pool.Loans
import Floppix.System.Pool.Locks
import Floppix.System.Pool.LostEntries
import Floppix.System.Pool.Matching
import Floppix.System.Pool.NewPool
import Floppix.System.Pool.Ops
import Floppix.System.Pool.Pending
import Floppix.System.Pool.Places
import Floppix.System.Pool.Reentry
import Floppix.System.Pool.Registration
import Floppix.System.Pool.Registry
import Floppix.System.Pool.Requests
import Floppix.System.Pool.Running
import Floppix.System.Pool.Shortcut
import Floppix.System.Pool.Sizes
import Floppix.System.Pool.SlotIndex
import Floppix.System.Pool.Sparing
import Floppix.System.Pool.State
import Floppix.System.Pool.Subtree
import Floppix.System.Pool.Teardown
import Floppix.System.Pool.Usage
import Floppix.System.Process
import Floppix.System.WideConversion
import Floppix.System.WideExact
import Floppix.System.WidePath
import Floppix.Util.Bytes
import Floppix.Util.Numbers
import Floppix.Util.Strings

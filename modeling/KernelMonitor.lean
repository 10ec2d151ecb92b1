import KernelMonitor.Library.LabelledRun
import KernelMonitor.Library.KeyedSearch
import KernelMonitor.Library.CText
import KernelMonitor.Library.Rounding
import KernelMonitor.Library.Binary64
import KernelMonitor.Library.Scanf
import KernelMonitor.Library.PrintedColumns
import KernelMonitor.Parser
import KernelMonitor.TextLines
import KernelMonitor.MeminfoFields
import KernelMonitor.LineCursor
import KernelMonitor.StatusUid
import KernelMonitor.Library.LastWrite
import KernelMonitor.Library.Qsort
import KernelMonitor.Library.IndexLoop
import KernelMonitor.Library.BoundedOutput
import KernelMonitor.Library.CellStore
import KernelMonitor.ProcReader
import KernelMonitor.FileRead
import KernelMonitor.Library.StripCut
import KernelMonitor.CommandLine
import KernelMonitor.ProcessMonitor
import KernelMonitor.SweepLoop
import KernelMonitor.SampleOrder
import KernelMonitor.SweepReference
import KernelMonitor.Library.ReplayLog
import KernelMonitor.Library.BoundedWindow
import KernelMonitor.EventLog
import KernelMonitor.EventWindow
import KernelMonitor.SweepFailures
import KernelMonitor.ProcessIdentity
import KernelMonitor.CpuShare
import KernelMonitor.StatRoundTrip
import KernelMonitor.Library.Buckets
import KernelMonitor.Library.Forest
import KernelMonitor.ProcessTree
import KernelMonitor.TreePaths
import KernelMonitor.SystemMonitor
import KernelMonitor.SystemRuns
import KernelMonitor.UpdateFailures
import KernelMonitor.ByteUnits
import KernelMonitor.CoreLines
import KernelMonitor.Ui
import KernelMonitor.TreeView
import KernelMonitor.Library.Utf8
import KernelMonitor.ScreenText
import KernelMonitor.TreeBudget
import KernelMonitor.TreePrefix
import KernelMonitor.TreeRows
import KernelMonitor.ProcessControl
import KernelMonitor.SweepSteps
import KernelMonitor.Collector
import KernelMonitor.CollectorRuns
import KernelMonitor.CollectorTiming
import KernelMonitor.UnlockedWrites
import KernelMonitor.MainLoop
import KernelMonitor.SignalTargets
import KernelMonitor.Selection
import KernelMonitor.ListOrder
import KernelMonitor.ListWindow
import KernelMonitor.ListScroll
import KernelMonitor.TreeKeys
import KernelMonitor.SignalIdentity
import KernelMonitor.FreshFrames
import KernelMonitor.SignalReports
import KernelMonitor.Library.RingBuffer
import KernelMonitor.BoundedBuffer
import KernelMonitor.BufferWakeups
import KernelMonitor.Library.Simulation
import KernelMonitor.Library.FairRun
import KernelMonitor.SerialProgram
import KernelMonitor.ReferenceFrames
import KernelMonitor.RefreshInterval
import KernelMonitor.FairProgram
import KernelMonitor.Quitting
import KernelMonitor.RefreshesShown
import KernelMonitor.Library.ThreadPool
import KernelMonitor.SharedCounters
import KernelMonitor.Library.Barrier
import KernelMonitor.Library.CrowdCounter
import KernelMonitor.VisitorRoom
import KernelMonitor.ReadWriteTable
import KernelMonitor.Library.LockOrder
import KernelMonitor.Transfers
import KernelMonitor.Library.Ledger
import KernelMonitor.Library.SharedScript
import KernelMonitor.Library.Typestate
import KernelMonitor.Lifetimes
import KernelMonitor.Pipeline
import KernelMonitor.Terminals
import KernelMonitor.Fifo
import KernelMonitor.JobControl

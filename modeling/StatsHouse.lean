import StatsHouse.Lib.Run
import StatsHouse.Tl
import StatsHouse.TlReader
import StatsHouse.Alloc
import StatsHouse.Lib.SearchTree
import StatsHouse.Lookup
import StatsHouse.Aggregate
import StatsHouse.Lib.Ledger
import StatsHouse.Live
import StatsHouse.History
import StatsHouse.Idle
import StatsHouse.Merge
import StatsHouse.Series
import StatsHouse.Agreement
import StatsHouse.Server
import StatsHouse.Delivery
import StatsHouse.Lib.Memory
import StatsHouse.Buffer
import StatsHouse.RecordLayout
import StatsHouse.RecordMerge
import StatsHouse.Lib.Deadline
import StatsHouse.System
import StatsHouse.Regular
import StatsHouse.Timers
import StatsHouse.Flush
import StatsHouse.EndToEnd
import StatsHouse.Lib.Generator
import StatsHouse.Splitter
import StatsHouse.Tokens
import StatsHouse.Compile
import StatsHouse.Columns
import StatsHouse.Matrix
import StatsHouse.Bounds
import StatsHouse.Contexts
import StatsHouse.Timeout
import StatsHouse.Lib.Rounding
import StatsHouse.Unique
import StatsHouse.SplitterSafe
import StatsHouse.Window
import StatsHouse.Inherit
import StatsHouse.Lib.Keywords
import StatsHouse.Options
import StatsHouse.Lib.Intern
import StatsHouse.ServerSlot
import StatsHouse.SlotAgreement
import StatsHouse.Startup
import StatsHouse.Scratch
import StatsHouse.Rows
import StatsHouse.Request
import StatsHouse.WorkerRuns
import StatsHouse.RunAgreement
import StatsHouse.Receiver
import StatsHouse.Latency
import StatsHouse.Block
import StatsHouse.Declared
import StatsHouse.Complex
import StatsHouse.Ready
import StatsHouse.BlockAgreement
import StatsHouse.MetricKeys
import StatsHouse.SeriesAccount
import StatsHouse.Totals
import StatsHouse.Configured
import StatsHouse.StreamStart
import StatsHouse.StartAgreement
import StatsHouse.Shutdown

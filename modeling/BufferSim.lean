import BufferSim.Paging.Recency
import BufferSim.Paging.Policy
import BufferSim.Paging.EvictionRule
import BufferSim.Paging.Competitive
import BufferSim.Paging.Lru
import BufferSim.Paging.Mru
import BufferSim.Paging.Pinned
import BufferSim.Paging.SecondChance
import BufferSim.Paging.Filling
import BufferSim.Paging.Scan
import BufferSim.Paging.LowerBounds
import BufferSim.Paging.ScanOptimal
import BufferSim.Paging.ScanFlush
import BufferSim.Allocation.Extents
import BufferSim.Numeric.Rounding
import BufferSim.Layout.Fields
import BufferSim.Polling.StampedCell
import BufferSim.Polling.SplitPoll
import BufferSim.Polling.Settling
import BufferSim.Cxx.StdList
import BufferSim.Cxx.CircularArray
import BufferSim.Cxx.IndexMap
import BufferSim.Cxx.Text
import BufferSim.Cxx.Integer
import BufferSim.Cxx.Double
import BufferSim.Python.Str
import BufferSim.Python.TextFile
import BufferSim.Buffer.Manager
import BufferSim.Buffer.ListBuffer
import BufferSim.Buffer.PinnedBuffer
import BufferSim.Buffer.ClockBuffer
import BufferSim.Buffer.FindVictim
import BufferSim.Buffer.FrameInvariant
import BufferSim.Buffer.Exactness
import BufferSim.Buffer.RecencyOrder
import BufferSim.Buffer.MissBounds
import BufferSim.Buffer.LowerBounds
import BufferSim.Buffer.Accounting
import BufferSim.Buffer.Ratios
import BufferSim.Buffer.RepeatedScan
import BufferSim.Buffer.ScanComparison
import BufferSim.Watcher.FileWatcher
import BufferSim.Database.SQLiteManager
import BufferSim.Database.PageOffsets
import BufferSim.Database.PageCounts
import BufferSim.Database.Attribution
import BufferSim.Database.Partition
import BufferSim.Database.FromClause
import BufferSim.Utils.Numerals
import BufferSim.Utils.MetricsReport
import BufferSim.Utils.Report
import BufferSim.Utils.TableLayout
import BufferSim.Utils.DroppedCells
import BufferSim.Utils.DisplayReader
import BufferSim.Frontend.TextToSql
import BufferSim.Frontend.App
import BufferSim.Simulator.MainLoop
import BufferSim.Simulator.Display
import BufferSim.Simulator.Accounting
import BufferSim.Simulator.FailedQuery
import BufferSim.Simulator.Interleaving
import BufferSim.Simulator.MetricsFile
import BufferSim.Simulator.DisplayFile
import BufferSim.Simulator.Settling
import BufferSim.Simulator.Program
import BufferSim.Simulator.Shutdown
import BufferSim.Simulator.Freshness
import BufferSim.Simulator.Session
import BufferSim.Simulator.Answers

import Numafac.Base.Text
import Numafac.Base.Decimal
import Numafac.Base.Scan
import Numafac.Base.ScanFront
import Numafac.Base.ScanInt
import Numafac.Base.Rounding
import Numafac.Base.Columns
import Numafac.Base.Table
import Numafac.Base.FileSteps
import Numafac.Base.CMemory
import Numafac.Base.Streams
import Numafac.Base.Memory
import Numafac.Base.PointerRing
import Numafac.Base.BitReversal
import Numafac.Base.SortedArray
import Numafac.Base.Composition
import Numafac.Base.ParallelFor
import Numafac.Base.ObjectTree
import Numafac.Script.Commands
import Numafac.Script.Bc
import Numafac.Script.Phases
import Numafac.Script.PhaseResults
import Numafac.Script.WholeRuns
import Numafac.Stream.Report
import Numafac.Stream.Kernels
import Numafac.ArchTopology.TableReaders
import Numafac.Script.RoundTrip
import Numafac.Script.Isolation
import Numafac.Script.Bandwidth
import Numafac.Script.Reruns
import Numafac.Lmbench.RangeLoop
import Numafac.Script.BufferSize
import Numafac.Lmbench.BufferLayout
import Numafac.Lmbench.LoadWalk
import Numafac.Lmbench.StrideChain
import Numafac.Lmbench.WordOrder
import Numafac.Lmbench.ThrashChain
import Numafac.Lmbench.ThrashRanges
import Numafac.Lmbench.LineChain
import Numafac.Lmbench.MemChain
import Numafac.Lmbench.ParallelWalk
import Numafac.Lmbench.Results
import Numafac.Lmbench.ResultBytes
import Numafac.Lmbench.Benchmp
import Numafac.Lmbench.BenchmpInvariant
import Numafac.Lmbench.Interval
import Numafac.Lmbench.BenchmpRuns
import Numafac.Lmbench.BenchmpProgress
import Numafac.Lmbench.Calibration
import Numafac.Lmbench.LoadReport
import Numafac.Script.LatencyRuns
import Numafac.ArchTopology.Sysfs
import Numafac.ArchTopology.CacheLevels
import Numafac.ArchTopology.CacheLoops
import Numafac.ArchTopology.SocketCpus
import Numafac.ArchTopology.CacheSiblings
import Numafac.ArchTopology.NodeCpus
import Numafac.ArchTopology.SortedIds
import Numafac.ArchTopology.NodeSockets
import Numafac.ArchTopology.NodeOfCpu
import Numafac.ArchTopology.ListCpus
import Numafac.ArchTopology.Macros
import Numafac.ArchTopology.SocketCounts
import Numafac.ArchTopology.LiveQueries
import Numafac.ArchTopology.MemorySizes
import Numafac.ArchTopology.CellReads
import Numafac.ArchTopology.LatencyMatrix
import Numafac.ArchTopology.Neighbors
import Numafac.ArchTopology.StreamBalance
import Numafac.ArchTopology.Affinity
import Numafac.Latencies.Hwloc
import Numafac.Latencies.CoreMatrix
import Numafac.Latencies.CoreSymmetry
import Numafac.Latencies.WorkingSets
import Numafac.Latencies.MatrixFile

import Dcurl.Library.Odometer
import Dcurl.Library.Machine
import Dcurl.Library.PingPong
import Dcurl.Constants
import Dcurl.Spec.Trit
import Dcurl.Spec.Curl
import Dcurl.Trinary
import Dcurl.Curl
import Dcurl.Lanes
import Dcurl.Transform
import Dcurl.TrinarySse42
import Dcurl.TrinaryConvert
import Dcurl.TrinaryBuild
import Dcurl.Search
import Dcurl.Worker
import Dcurl.Spec.Counter
import Dcurl.PowC
import Dcurl.PowAvx
import Dcurl.PowSse
import Dcurl.Pow
import Dcurl.Drivers
import Dcurl.SearchSpace
import Dcurl.ImplContext
import Dcurl.DcurlEntry
import Dcurl.CpuContext
import Dcurl.RemoteInterface
import Dcurl.RemoteProtocol
import Dcurl.PowKernel
import Dcurl.RemotePrompt
import Dcurl.Library.Columns
import Dcurl.SimdSpace
import Dcurl.Admission
import Dcurl.ContextList
import Dcurl.Lifecycle
import Dcurl.RemoteRequest
import Dcurl.RemoteWorker
import Dcurl.Spec.Preimage
import Dcurl.Verdict
import Dcurl.KernelSearch
import Dcurl.KernelLaunch
import Dcurl.CurlCalls
import Dcurl.SearchState
import Dcurl.LaneCheck
import Dcurl.HashCount
import Dcurl.KernelTransform
import Dcurl.ClContext
import Dcurl.RemoteResponse
import Dcurl.RemoteConnections
import Dcurl.EntryReturns
import Dcurl.EntryServes
import Dcurl.RemoteSlots
import Dcurl.RemoteEntry
import Dcurl.RemoteAnswers
import Dcurl.RemoteSafety
import Dcurl.RemoteReturns
import Dcurl.RemoteService
import Dcurl.RemoteSolves
import Dcurl.KernelRuns
import Dcurl.PowCl
import Dcurl.CompatCcurl
import Dcurl.Exlib
import Dcurl.Library.Heap
import Dcurl.TrinaryMemory
import Dcurl.DriverMemory
import Dcurl.ClMemory
import Dcurl.RemoteMemory
import Dcurl.ExlibMemory
import Dcurl.Library.Turn
import Dcurl.PowFpga
import Dcurl.FpgaMemory
import Dcurl.Library.Chunk
import Dcurl.CpuMemory
import Dcurl.CpuChunks

import Backdraft.Lib.Word
import Backdraft.Lib.Cycle
import Backdraft.Lib.Slots
import Backdraft.Lib.Bits
import Backdraft.Lib.Run
import Backdraft.Lib.Bytes
import Backdraft.Lib.Reading
import Backdraft.Lib.Protobuf
import Backdraft.Lib.Meter
import Backdraft.Lib.Binary64
import Backdraft.Lib.CyclicSearch
import Backdraft.Lib.LeastRecent
import Backdraft.Lib.Refine
import Backdraft.Lib.MovingWindow
import Backdraft.Lib.LongestPrefix
import Backdraft.Lib.Placement
import Backdraft.Lib.HashTable
import Backdraft.Lib.Listing
import Backdraft.Lib.Reservation
import Backdraft.Llring
import Backdraft.Llring.Concurrent
import Backdraft.Llring.ConcurrentInvariant
import Backdraft.Llring.ConcurrentSafety
import Backdraft.Llring.ConcurrentRuns
import Backdraft.PktBuffer
import Backdraft.PktBuffer.Fifo
import Backdraft.Vport.Model
import Backdraft.Vport.Segments
import Backdraft.Vport.Invariant
import Backdraft.Vport.Calls
import Backdraft.Vport.Conservation
import Backdraft.Vport.Order
import Backdraft.Vport.PoolAccount
import Backdraft.Vport.PoolSize
import Backdraft.QueueOut.CtrlBatch
import Backdraft.QueueOut.FlowTable
import Backdraft.QueueOut.FlowInvariant
import Backdraft.QueueOut.PrioLists
import Backdraft.QueueOut.Blocks
import Backdraft.QueueOut.QueueChoice
import Backdraft.SwDpCtrl
import Backdraft.FlowHash
import Backdraft.QueueOut.Model
import Backdraft.QueueOut.Effects
import Backdraft.QueueOut.Lossless
import Backdraft.QueueOut.Pause
import Backdraft.QueueOut.Shared
import Backdraft.QueueOut.SharedRuns
import Backdraft.QueueOut.CtrlStock
import Backdraft.QueueOut.CtrlLimit
import Backdraft.QueueOut.Moves
import Backdraft.QueueOut.IdleFlows
import Backdraft.Port.RateLimit
import Backdraft.Port.RateLimitRuns
import Backdraft.Port.RecordRate
import Backdraft.QueueOut.Init
import Backdraft.QueueInc.Cdq
import Backdraft.QueueInc.Resume
import Backdraft.QueueInc.Scan
import Backdraft.QueueInc.Instances
import Backdraft.Doorbell.Model
import Backdraft.Doorbell.Accounting
import Backdraft.Packet.Model
import Backdraft.Packet.RoundTrip
import Backdraft.Packet.Inside
import Backdraft.Packet.VportMsg
import Backdraft.Packet.MacAddr
import Backdraft.Packet.Overlay
import Backdraft.OverlayCtrl.Book
import Backdraft.OverlayCtrl.Store
import Backdraft.FlowMaps
import Backdraft.QueueOut.SendOverlay
import Backdraft.Client.Send
import Backdraft.Client.Poll
import Backdraft.Client.VportSelect
import Backdraft.Client.VportPoll
import Backdraft.Backpressure.Automaton
import Backdraft.Backpressure.Graph
import Backdraft.Backpressure.Spread
import Backdraft.Backpressure.Counters
import Backdraft.Backpressure.Relay
import Backdraft.Backpressure.Packets
import Backdraft.Backpressure.Ways
import Backdraft.Backpressure.Trace
import Backdraft.OutQueue.Staged
import Backdraft.OutQueue.Bpq
import Backdraft.OutQueue.BpqNetwork
import Backdraft.OutQueue.BpqRuns
import Backdraft.OutQueue.Ecnq
import Backdraft.EcnMarker.Marking
import Backdraft.Core
import Backdraft.EcnMarker.Commands
import Backdraft.EcnMarker.Balance
import Backdraft.MeasurePps
import Backdraft.Overlay.Inspect
import Backdraft.Overlay.Broker
import Backdraft.Lib.DepthFirst
import Backdraft.Pipeline.Gates
import Backdraft.Pipeline.GateInvariant
import Backdraft.Pipeline.Wiring
import Backdraft.Pipeline.TaskGraph
import Backdraft.Lib.Headroom
import Backdraft.Pipeline.Queue
import Backdraft.Pipeline.Signals
import Backdraft.Pipeline.Lossless
import Backdraft.Pipeline.LosslessRuns
import Backdraft.CuckooMap.Model
import Backdraft.CuckooMap.Invariant
import Backdraft.CuckooMap.MakeSpace
import Backdraft.CuckooMap.Emplace
import Backdraft.CuckooMap.Refinement
import Backdraft.CuckooMap.Refusal
import Backdraft.Lib.Handles
import Backdraft.Pipeline.Task
import Backdraft.Pipeline.TaskBatches
import Backdraft.Pipeline.TaskRuns

import Backdraft.QueueOut.CtrlBatch
import Backdraft.QueueOut.FlowInvariant
import Backdraft.SwDpCtrl

/-!
# The output module

`BKDRFTQueueOut` of `bkdrft_queue_out.cc`: packets of a flow enter the buffer of its block, and
`RunTask` sends from the buffers.  A flow whose buffer gets too long is paused through the shared
table, and resumed when the buffer is short again.

* `QueueOut`: the state, with the packets received, sent and freed so far;
* `processBatch`, `runTask`, `setOverlayThreshold`, `setBackpressureThreshold`, `step`.

The port takes any number of packets of each `SendPackets`; these numbers are an argument of the
calls, a pair for each `SendPacket`: for the data packets, and for the control packets of the
flush that may follow.  `RunTask` is modelled for per-flow buffers.  Statistics are left out, and
so is the overlay message itself; the pause it asks for is an argument.
-/

namespace Backdraft

open Word

/-- The state of a `BKDRFTQueueOut` and the table it writes, with the packets it was given, those
that were sent and those that were freed. -/
structure QueueOut extends FlowTable where
  countPacketsInBuffer : ℕ
  bufferLenHighWater : ℕ
  bufferLenLowWater : ℕ
  bpBufferLenHighWater : ℕ
  ctrl : CtrlBatch
  dpCtrl : SwDpCtrl
  received : List Packet
  sent : List Packet
  freed : List Packet

namespace QueueOut

/-- How a call can end the program. -/
inductive Fatal
  | table (e : FlowTable.Fatal)
  | buffer (e : PktBuffer.Fatal)
  | ctrl (e : CtrlBatch.Fatal)
  deriving DecidableEq

/-- `Init`. -/
def init (cfg : QueueOutConfig) : Option QueueOut :=
  (FlowTable.setup cfg).map fun t =>
    { t with
      countPacketsInBuffer := 0
      bufferLenHighWater := cfg.maxBufferSize * 7 % 2 ^ 32 / 8
      bufferLenLowWater := cfg.maxBufferSize / 8
      bpBufferLenHighWater := cfg.maxBufferSize * 7 % 2 ^ 32 / 8
      ctrl := CtrlBatch.init
      dpCtrl := SwDpCtrl.init
      received := []
      sent := []
      freed := [] }

/-- The module with other answers of its map of blocks and of the shared table. -/
def answering (s : QueueOut) (refuses refuses' : ℕ → Bool) : QueueOut :=
  { s with
    toFlowTable := s.toFlowTable.answering refuses
    dpCtrl := ⟨{ s.dpCtrl.flowBook with refuses := refuses' }⟩ }

/-- After `Init` the maps refuse nothing. -/
theorem answering_accepting {cfg : QueueOutConfig} {s₀ : QueueOut}
    (h₀ : QueueOut.init cfg = some s₀) :
    s₀.answering (fun _ => false) (fun _ => false) = s₀ := by
  obtain ⟨t, ht, rfl⟩ := Option.map_eq_some_iff.1 h₀
  obtain ⟨b, rfl⟩ := FlowTable.setup_eq_some ht
  rfl

/-- Replace the buffer of the block `i`. -/
def setBuffer (s : QueueOut) (i : ℕ) (b : PktBuffer Packet) : QueueOut :=
  { s with buffers := Function.update s.buffers (s.flowStatePool i).buffer b }

/-- `SendPacket` of `pkts` for the block `i`, with the number of packets sent and
`ctrl_pkt_sent`. -/
def sendPacket (cfg : QueueOutConfig) (s : QueueOut) (i : ℕ) (pkts : List Packet)
    (accept : ℕ × ℕ) : Except Fatal (QueueOut × ℕ × Bool) :=
  let sentPkts := min accept.1 pkts.length
  let s := { s with sent := s.sent ++ pkts.take sentPkts }
  if 0 < sentPkts ∧ cfg.cdq = true then
    match s.ctrl.sendCtrlPkt (s.flowStatePool i).qid (s.flowStatePool i).prio sentPkts accept.2 with
    | .error e => .error (.ctrl e)
    | .ok c => .ok ({ s with ctrl := c }, sentPkts, true)
  else .ok (s, sentPkts, false)

/-- `BufferBatch`, for a batch of which nothing was sent. -/
def bufferBatch (s : QueueOut) (i : ℕ) (batch : List Packet) : QueueOut :=
  let (b, countEnqueue) := (s.bufferOf i).pktbufferEnqueue batch
  { s.setBuffer i b with
    freed := s.freed ++ batch.drop countEnqueue
    countPacketsInBuffer := wadd 64 s.countPacketsInBuffer countEnqueue }

/-- One round of the loop of `TrySendBufferPFQ` on a block.  The result is `none` when there is
nothing to send, and otherwise whether the loop ends. -/
def sendOnce (cfg : QueueOutConfig) (s : QueueOut) (i : ℕ) (accept : ℕ × ℕ) :
    Except Fatal (QueueOut × Option Bool) :=
  match (s.bufferOf i).pktbufferPrime with
  | .error e => .error (.buffer e)
  | .ok (b, k) =>
    if k = 0 then .ok (s.setBuffer i b, none)
    else
      match (s.setBuffer i b).sendPacket cfg i (b.peek.take k) accept with
      | .error e => .error e
      | .ok (s, sentPkts, sentCtrlPkt) =>
        match b.pktbufferFlush sentPkts with
        | .error e => .error (.buffer e)
        | .ok b => .ok
          ({ s.setBuffer i b with
              countPacketsInBuffer := wsub 64 s.countPacketsInBuffer sentPkts },
            some (sentPkts < k || cfg.cdq && !sentCtrlPkt))

/-- The loop of `TrySendBufferPFQ` on a block.  `accepts` has what the port takes of each
`SendPacket`; once it is used up, the port takes nothing and the loop ends. -/
def sendFlow (cfg : QueueOutConfig) (s : QueueOut) (i : ℕ) :
    List (ℕ × ℕ) → Except Fatal (QueueOut × List (ℕ × ℕ))
  | [] =>
    match s.sendOnce cfg i (0, 0) with
    | .error e => .error e
    | .ok (s, _) => .ok (s, [])
  | accept :: accepts =>
    match s.sendOnce cfg i accept with
    | .error e => .error e
    | .ok (s, none) => .ok (s, accept :: accepts)
    | .ok (s, some true) => .ok (s, accepts)
    | .ok (s, some false) => s.sendFlow cfg i accepts

/-- The end of the visit of a block in `TrySendBufferPFQ`: a paused flow is resumed when its buffer
is short enough. -/
def resume (cfg : QueueOutConfig) (s : QueueOut) (now i : ℕ) : QueueOut :=
  if cfg.backpressure = true ∧ (s.flowStatePool i).isPaused = true ∧
      (s.bufferOf i).pktbufferCount ≤ s.bufferLenLowWater then
    { s with
      dpCtrl := s.dpCtrl.pauseFlow now 100000000 (s.flowStateFlowId i)
      flowStatePool :=
        Function.update s.flowStatePool i { s.flowStatePool i with isPaused := false } }
  else s

/-- The visits of the blocks of a priority list. -/
def visitFlows (cfg : QueueOutConfig) (s : QueueOut) (now : ℕ) :
    List ℕ → List (ℕ × ℕ) → Except Fatal (QueueOut × List (ℕ × ℕ))
  | [], accepts => .ok (s, accepts)
  | i :: is, accepts =>
    match s.sendFlow cfg i accepts with
    | .error e => .error e
    | .ok (s, accepts) => (s.resume cfg now i).visitFlows cfg now is accepts

/-- `TrySendBufferPFQ`. -/
def trySendBufferPFQ (cfg : QueueOutConfig) (s : QueueOut) (now : ℕ) (accepts : List (ℕ × ℕ)) :
    Except Fatal QueueOut :=
  match s.visitFlows cfg now (s.prioQueue 0) accepts with
  | .error e => .error e
  | .ok (s, accepts) =>
    match s.visitFlows cfg now (s.prioQueue 1) accepts with
    | .error e => .error e
    | .ok (s, _) => .ok s

/-- `Pause`. -/
def pause (s : QueueOut) (now i : ℕ) : QueueOut :=
  { s with
    dpCtrl := s.dpCtrl.pauseFlow (wadd 64 now 10000000000) 0
      (s.flowStateFlowId (s.flowStatePool i).flowId)
    flowStatePool :=
      Function.update s.flowStatePool i { s.flowStatePool i with isPaused := true } }

/-- The part of `ProcessBatchWithBuffer` on overlay messages; `duration` is set by `SendOverlay`. -/
def overlay (cfg : QueueOutConfig) (s : QueueOut) (now i duration : ℕ) : QueueOut :=
  if cfg.overlay = true ∧ s.bufferLenHighWater ≤ (s.bufferOf i).pktbufferCount ∧
      (s.flowStatePool i).noOverlayDuration < wsub 64 now (s.flowStatePool i).tsLastOverlay then
    { s with
      flowStatePool := Function.update s.flowStatePool i { s.flowStatePool i with
        tsLastOverlay := now
        overlayState := .triggered
        noOverlayDuration := duration } }
  else s

/-- The part of `ProcessBatchWithBuffer` on backpressure.  Without per-flow buffers all flows of the
queue are paused. -/
def backpressure (cfg : QueueOutConfig) (s : QueueOut) (now i : ℕ) : QueueOut :=
  if cfg.backpressure = true ∧ s.bpBufferLenHighWater < (s.bufferOf i).pktbufferCount then
    if cfg.perFlowBuffering then s.pause now i
    else s.flowBufferMapping.entries.foldl
      (fun u e =>
        if (u.flowStatePool e.2).qid = (s.flowStatePool i).qid then u.pause now e.2 else u) s
  else s

/-- `ProcessBatchWithBuffer`. -/
def processBatchWithBuffer (cfg : QueueOutConfig) (s : QueueOut) (now : ℕ) (batch : List Packet)
    (duration : ℕ) : Except Fatal QueueOut :=
  match s.toFlowTable.getFlowState cfg now (batch.headD default).flow with
  | .error e => .error (.table e)
  | .ok (t, i) =>
    .ok (((({ s with toFlowTable := t }.bufferBatch i batch).overlay cfg now i
      duration).backpressure cfg now i))

/-- `ProcessBatchLossy`. -/
def processBatchLossy (cfg : QueueOutConfig) (s : QueueOut) (now : ℕ) (batch : List Packet)
    (accept : ℕ × ℕ) : Except Fatal QueueOut :=
  match s.toFlowTable.getFlowState cfg now (batch.headD default).flow with
  | .error e => .error (.table e)
  | .ok (t, i) =>
    match { s with toFlowTable := t }.sendPacket cfg i batch accept with
    | .error e => .error e
    | .ok (s, sentPkts, _) => .ok { s with freed := s.freed ++ batch.drop sentPkts }

/-- `ProcessBatch`. -/
def processBatch (cfg : QueueOutConfig) (s : QueueOut) (now : ℕ) (adminUp : Bool)
    (batch : List Packet) (accept : ℕ × ℕ) (duration : ℕ) : Except Fatal QueueOut :=
  let s := { s with received := s.received ++ batch }
  if adminUp = false then .ok { s with freed := s.freed ++ batch }
  else
    let s := { s with ctrl := { s.ctrl with currentNs := now } }
    if cfg.cdq = true ∧ ctrlBatchSize - 1 ≤ s.ctrl.ctrlBatchUsed then
      .ok { s with
        freed := s.freed ++ batch
        ctrl := s.ctrl.tryFlushCtrlBatch accept.2 }
    else if batch.length < 1 then .ok s
    else if cfg.buffering then s.processBatchWithBuffer cfg now batch duration
    else s.processBatchLossy cfg now batch accept

/-- `RunTask`, with per-flow buffers. -/
def runTask (cfg : QueueOutConfig) (s : QueueOut) (now ctrlAccept : ℕ) (accepts : List (ℕ × ℕ)) :
    Except Fatal QueueOut :=
  let s := if cfg.cdq then { s with ctrl := s.ctrl.tryFlushCtrlBatch ctrlAccept } else s
  if 0 < s.countPacketsInBuffer then s.trySendBufferPFQ cfg now accepts else .ok s

/-- A call of the module. -/
inductive Op
  | processBatch (now : ℕ) (adminUp : Bool) (batch : List Packet) (accept : ℕ × ℕ) (duration : ℕ)
  | runTask (now ctrlAccept : ℕ) (accepts : List (ℕ × ℕ))
  /-- `CommandSetOverlayThreshold` -/
  | setOverlayThreshold (lowWater highWater : ℕ)
  /-- `CommandSetBackpressureThreshold` -/
  | setBackpressureThreshold (threshold : ℕ)

/-- One call. -/
def step (cfg : QueueOutConfig) (s : QueueOut) : Op → Except Fatal QueueOut
  | .processBatch now adminUp batch accept duration =>
    s.processBatch cfg now adminUp batch accept duration
  | .runTask now ctrlAccept accepts => s.runTask cfg now ctrlAccept accepts
  | .setOverlayThreshold lowWater highWater =>
    .ok { s with bufferLenLowWater := lowWater, bufferLenHighWater := highWater }
  | .setBackpressureThreshold threshold => .ok { s with bpBufferLenHighWater := threshold }

end QueueOut

end Backdraft

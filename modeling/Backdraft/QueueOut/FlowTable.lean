import Backdraft.Lib.HashTable
import Backdraft.PktBuffer

/-!
# The flow table of the output module

`SetupFlowControlBlockPool`, `GetFlowState` and `DeallocateFlowState` of `bkdrft_queue_out.cc`.
The module has a pool of blocks, one for each active flow.  A flow that has none gets the next
block, in cyclic order, that is free, or whose buffer is empty and that was allocated long ago.

* `Flow`, `FlowState`, `FlowTable`;
* `getFlowState`, `deallocateFlowState`;
* `of_findBlock`, `getFlowState_eq_ok`: what a lookup can do.

The hash map takes the fields that `Flow::EqualTo` compares to blocks, and may refuse a new flow;
`GetFlowState` does not look at what `Insert` returns.  Blocks and buffers
are named by numbers: the buffer of block `i` in per-flow mode is `i`, the buffer
`limited_buffers_[q]` is `max_availabe_flows + q`.  A priority list is a list, whose length is
`prio_queue_len_`; the arrays of the source have 64 places.
-/

namespace Backdraft

open Word

/-- The fields of a flow that `Flow::EqualTo` compares. -/
structure FlowTuple where
  addrSrc : ℕ
  addrDst : ℕ
  portSrc : ℕ
  portDst : ℕ
  protocol : ℕ
  deriving DecidableEq, Inhabited

/-- `struct Flow`. -/
structure Flow extends FlowTuple where
  ethDstAddr : ℕ
  ethSrcAddr : ℕ
  deriving DecidableEq, Inhabited

/-- `Flow::EqualTo`. -/
def Flow.equalTo (lf rf : Flow) : Bool :=
  decide (lf.addrSrc = rf.addrSrc ∧ lf.addrDst = rf.addrDst ∧ lf.portSrc = rf.portSrc ∧
    lf.portDst = rf.portDst ∧ lf.protocol = rf.protocol)

theorem Flow.equalTo_iff {lf rf : Flow} :
    lf.equalTo rf = true ↔ lf.toFlowTuple = rf.toFlowTuple := by
  rw [Flow.equalTo, decide_eq_true_iff, FlowTuple.mk.injEq]

/-- A packet, with the flow that `PacketToFlow` reads from its headers. -/
structure Packet where
  name : ℕ
  flow : Flow
  deriving DecidableEq, Inhabited

/-- `max_availabe_flows`. -/
def maxAvailabeFlows : ℕ := 256

/-- `flow_dealloc_limit`. -/
def flowDeallocLimit : ℕ := 100000000

/-- The settings of a `BKDRFTQueueOut` that `Init` makes and nothing changes. -/
structure QueueOutConfig where
  maxBufferSize : ℕ
  dataQueues : List ℕ
  buffering : Bool
  backpressure : Bool
  cdq : Bool
  perFlowBuffering : Bool
  overlay : Bool

/-- `enum OverlayState`. -/
inductive OverlayState
  | safe
  | triggered
  deriving DecidableEq

/-- `struct flow_state`. -/
structure FlowState where
  flowId : ℕ
  qid : ℕ
  prio : ℕ
  overlayState : OverlayState
  tsLastOverlay : ℕ
  noOverlayDuration : ℕ
  buffer : ℕ
  inUse : Bool
  lastUsed : ℕ
  isPaused : Bool

/-- The fields of `BKDRFTQueueOut` for flows.  `lastVisit` is the field of that name of
`q_info_`. -/
structure FlowTable where
  flowBufferMapping : HashTable FlowTuple ℕ
  flowStatePool : ℕ → FlowState
  flowStateFlowId : ℕ → Flow
  buffers : ℕ → PktBuffer Packet
  fspTop : ℕ
  prioQueue : ℕ → List ℕ
  lastVisit : ℕ → ℕ

namespace FlowTable

/-- How an operation can end the program. -/
inductive Fatal
  /-- `"flow state pool overflow"` -/
  | poolOverflow
  /-- without buffering the blocks have no buffer to count -/
  | nullBuffer
  | buffer (e : PktBuffer.Fatal)
  deriving DecidableEq

/-- The place of `limited_buffers_[q]`. -/
def limitedBuffer (q : ℕ) : ℕ := maxAvailabeFlows + q

/-- The table with `b` for each new buffer. -/
def withBuffers (b : PktBuffer Packet) : FlowTable where
  flowBufferMapping := ∅
  flowStatePool := fun i => ⟨i, 0, 0, .safe, 0, 0, i, false, 0, false⟩
  flowStateFlowId := fun _ => default
  buffers := fun _ => b
  fspTop := 2 ^ 32 - 1
  prioQueue := fun _ => []
  lastVisit := fun _ => 0

/-- `SetupFlowControlBlockPool`, and the initialisation of `q_info_` and `prio_queue_len_`. -/
def setup (cfg : QueueOutConfig) : Option FlowTable :=
  if cfg.buffering then (PktBuffer.newPktbuffer cfg.maxBufferSize).map withBuffers
  else some (withBuffers ⟨⟨0, 0, 0, 0, 0, 0, 0, []⟩, 0, []⟩)

/-- The buffer of a block. -/
def bufferOf (t : FlowTable) (i : ℕ) : PktBuffer Packet := t.buffers (t.flowStatePool i).buffer

/-- `DeallocateFlowState`.  The loop over the priority list looks for the entry `prio`. -/
def deallocateFlowState (cfg : QueueOutConfig) (t : FlowTable) (flow : Flow) : FlowTable :=
  match t.flowBufferMapping.lookup flow.toFlowTuple with
  | none => t
  | some i =>
    let fstate := t.flowStatePool i
    { t with
      prioQueue := Function.update t.prioQueue fstate.prio
        ((t.prioQueue fstate.prio).erase fstate.prio)
      buffers :=
        if cfg.perFlowBuffering then
          Function.update t.buffers fstate.buffer
            ((t.buffers fstate.buffer).reset cfg.maxBufferSize)
        else t.buffers
      flowBufferMapping := t.flowBufferMapping.erase flow.toFlowTuple
      flowStatePool := Function.update t.flowStatePool i { fstate with inUse := false } }

/-- The queue of `qs` that was visited least recently. -/
def leastRecentQueue (t : FlowTable) (qs : List ℕ) : ℕ :=
  (qs.foldl (fun (best : ℕ × ℕ) q => if t.lastVisit q < best.1 then (t.lastVisit q, q) else best)
    (2 ^ 64 - 1, 0)).2

/-- The queue for a new flow. -/
def chooseQueue (cfg : QueueOutConfig) (t : FlowTable) : ℕ :=
  if !cfg.cdq && !cfg.perFlowBuffering then cfg.dataQueues.headD 0
  else t.leastRecentQueue (if cfg.cdq then cfg.dataQueues.drop 1 else cfg.dataQueues)

/-- The loop of `GetFlowState` that looks for a block.  It comes back to `fsp_top_` within
`max_availabe_flows` rounds. -/
def findBlock (cfg : QueueOutConfig) (t : FlowTable) (now : ℕ) : ℕ → ℕ → Except Fatal ℕ
  | 0, _ => .error .poolOverflow
  | rounds + 1, index =>
    if index = t.fspTop then .error .poolOverflow
    else if (t.flowStatePool index).inUse = false then .ok index
    else if cfg.buffering = false then .error .nullBuffer
    else if (t.bufferOf index).pktbufferCount = 0 ∧
        flowDeallocLimit < wsub 64 now (t.flowStatePool index).lastUsed then .ok index
    else findBlock cfg t now rounds ((index + 1) % maxAvailabeFlows)

/-- The hard-coded priority of a flow. -/
def prioOf (flow : Flow) : ℕ :=
  if flow.portDst = 50 ∨ flow.portDst = 11211 ∨ flow.portSrc = 11211 then 0 else 1

/-- `GetFlowState` gives the block `index` to the flow. -/
def assign (cfg : QueueOutConfig) (t : FlowTable) (now : ℕ) (flow : Flow) (qid index : ℕ) :
    FlowTable :=
  let state := t.flowStatePool index
  { t with
    flowStateFlowId := Function.update t.flowStateFlowId index flow
    fspTop := index
    flowStatePool := Function.update t.flowStatePool index
      { state with
        qid := qid
        overlayState := .safe
        tsLastOverlay := 0
        inUse := true
        lastUsed := now
        buffer := if cfg.perFlowBuffering then state.buffer else limitedBuffer qid
        prio := prioOf flow }
    flowBufferMapping := t.flowBufferMapping.insert flow.toFlowTuple index
    prioQueue := Function.update t.prioQueue (prioOf flow)
      (t.prioQueue (prioOf flow) ++ [state.flowId]) }

/-- `GetFlowState` once it has found a block: one that is in use is reclaimed first. -/
def allocate (cfg : QueueOutConfig) (t : FlowTable) (now : ℕ) (flow : Flow) (qid index : ℕ) :
    FlowTable :=
  if (t.flowStatePool index).inUse then
    (t.deallocateFlowState cfg (t.flowStateFlowId index)).assign cfg now flow qid index
  else t.assign cfg now flow qid index

/-- `GetFlowState`, with the number of the block. -/
def getFlowState (cfg : QueueOutConfig) (t : FlowTable) (now : ℕ) (flow : Flow) :
    Except Fatal (FlowTable × ℕ) :=
  match t.flowBufferMapping.lookup flow.toFlowTuple with
  | some i =>
    .ok ({ t with lastVisit := Function.update t.lastVisit (t.flowStatePool i).qid now }, i)
  | none =>
    let qid := t.chooseQueue cfg
    let t := { t with lastVisit := Function.update t.lastVisit qid now }
    match t.findBlock cfg now maxAvailabeFlows (wadd 32 t.fspTop 1 % maxAvailabeFlows) with
    | .error e => .error e
    | .ok index => .ok (t.allocate cfg now flow qid index, index)

/-! ### What a lookup can do -/

variable {cfg : QueueOutConfig} {t t' : FlowTable} {now i : ℕ} {flow : Flow}

/-- A field that a written block has as before is the same in all blocks. -/
theorem field_update {α : Type} (field : FlowState → α) {pool : ℕ → FlowState} {b : FlowState}
    (hb : field b = field (pool i)) (j : ℕ) :
    field (Function.update pool i b j) = field (pool j) := by
  by_cases hji : j = i
  · rw [hji, Function.update_self, hb]
  · rw [Function.update_of_ne hji]

theorem setup_eq_some (h : setup cfg = some t) : ∃ b, t = withBuffers b := by
  unfold setup at h
  split_ifs at h
  · obtain ⟨b, -, hb⟩ := Option.map_eq_some_iff.1 h
    exact ⟨b, hb.symm⟩
  · exact ⟨_, (Option.some.inj h).symm⟩

/-- A block that was found is free, or it is idle: its buffer is empty, and it was allocated more
than `flow_dealloc_limit` ago. -/
theorem of_findBlock {rounds start : ℕ} (hstart : start < maxAvailabeFlows)
    (h : t.findBlock cfg now rounds start = .ok i) :
    i < maxAvailabeFlows ∧ ((t.flowStatePool i).inUse = false ∨
      (t.flowStatePool i).inUse = true ∧ (t.bufferOf i).pktbufferCount = 0 ∧
        flowDeallocLimit < wsub 64 now (t.flowStatePool i).lastUsed) := by
  induction rounds generalizing start with
  | zero => simp [findBlock] at h
  | succ rounds ih =>
    rw [findBlock] at h
    split_ifs at h with htop hfree hbuf hidle
    · cases h
      exact ⟨hstart, .inl hfree⟩
    · cases h
      exact ⟨hstart, .inr ⟨by simpa using hfree, hidle⟩⟩
    · exact ih (Nat.mod_lt _ (by decide)) h

theorem lastVisit_deallocateFlowState (cfg : QueueOutConfig) (t : FlowTable) (flow : Flow) :
    (t.deallocateFlowState cfg flow).lastVisit = t.lastVisit := by
  unfold deallocateFlowState
  split <;> rfl

/-- A lookup finds the block of the flow, or allocates one. -/
theorem getFlowState_eq_ok (h : t.getFlowState cfg now flow = .ok (t', i)) :
    (t.flowBufferMapping.lookup flow.toFlowTuple = some i ∧
      t' = { t with lastVisit := Function.update t.lastVisit (t.flowStatePool i).qid now }) ∨
    (t.flowBufferMapping.lookup flow.toFlowTuple = none ∧
      ∃ u qid, qid = t.chooseQueue cfg ∧
        u = { t with lastVisit := Function.update t.lastVisit qid now } ∧
        u.findBlock cfg now maxAvailabeFlows (wadd 32 t.fspTop 1 % maxAvailabeFlows) = .ok i ∧
        t' = u.allocate cfg now flow qid i) := by
  unfold getFlowState at h
  cases hlook : t.flowBufferMapping.lookup flow.toFlowTuple with
  | some j =>
    simp only [hlook, Except.ok.injEq, Prod.mk.injEq] at h
    obtain ⟨rfl, rfl⟩ := h
    exact .inl ⟨rfl, rfl⟩
  | none =>
    simp only [hlook] at h
    refine .inr ⟨rfl, _, t.chooseQueue cfg, rfl, rfl, ?_⟩
    cases hfind : FlowTable.findBlock cfg
        { t with lastVisit := Function.update t.lastVisit (t.chooseQueue cfg) now } now
        maxAvailabeFlows (wadd 32 t.fspTop 1 % maxAvailabeFlows) with
    | error e => simp [hfind] at h
    | ok index =>
      simp only [hfind, Except.ok.injEq, Prod.mk.injEq] at h
      obtain ⟨rfl, rfl⟩ := h
      exact ⟨rfl, rfl⟩

/-- The lookup of a flow that has a block. -/
theorem getFlowState_of_lookup (h : t.flowBufferMapping.lookup flow.toFlowTuple = some i) :
    t.getFlowState cfg now flow =
      .ok ({ t with lastVisit := Function.update t.lastVisit (t.flowStatePool i).qid now }, i) := by
  simp only [getFlowState, h]

/-- A new flow gets a block on the queue that was chosen, whether the map takes the flow or not. -/
theorem qid_getFlowState (hnone : t.flowBufferMapping.lookup flow.toFlowTuple = none)
    (hget : t.getFlowState cfg now flow = .ok (t', i)) :
    (t'.flowStatePool i).qid = t.chooseQueue cfg := by
  obtain ⟨hsome, -⟩ | ⟨-, u, qid, rfl, -, -, rfl⟩ := getFlowState_eq_ok hget
  · exact absurd (hnone.symm.trans hsome) (by simp)
  · unfold allocate
    split_ifs <;> simp [assign]

/-- A lookup that returns a block makes its visit the last one of the queue. -/
theorem lastVisit_getFlowState (hget : t.getFlowState cfg now flow = .ok (t', i)) :
    t'.lastVisit = Function.update t.lastVisit (t'.flowStatePool i).qid now := by
  cases hlook : t.flowBufferMapping.lookup flow.toFlowTuple with
  | some j =>
    rw [getFlowState_of_lookup hlook] at hget
    cases hget
    rfl
  | none =>
    rw [qid_getFlowState hlook hget]
    obtain ⟨hsome, -⟩ | ⟨-, u, qid, rfl, rfl, -, rfl⟩ := getFlowState_eq_ok hget
    · exact absurd (hlook.symm.trans hsome) (by simp)
    · unfold allocate
      split_ifs
      · exact lastVisit_deallocateFlowState ..
      · rfl

/-- A visit counts until the next one. -/
theorem le_lastVisit_getFlowState {a q : ℕ} (hget : t.getFlowState cfg now flow = .ok (t', i))
    (hnow : a ≤ now) (hq : a ≤ t.lastVisit q) : a ≤ t'.lastVisit q := by
  rw [lastVisit_getFlowState hget, Function.update_apply]
  split_ifs
  · exact hnow
  · exact hq

theorem lastVisit_getFlowState_le (hget : t.getFlowState cfg now flow = .ok (t', i))
    (hle : ∀ q, t.lastVisit q ≤ now) (q : ℕ) : t'.lastVisit q ≤ now := by
  rw [lastVisit_getFlowState hget, Function.update_apply]
  split_ifs
  · exact le_rfl
  · exact hle q

/-- The table with other answers for the flows that come. -/
def answering (t : FlowTable) (refuses : ℕ → Bool) : FlowTable :=
  { t with flowBufferMapping := { t.flowBufferMapping with refuses := refuses } }

end FlowTable

end Backdraft

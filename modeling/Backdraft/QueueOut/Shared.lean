import Backdraft.Lib.LeastRecent
import Backdraft.QueueInc.Cdq
import Backdraft.QueueOut.Effects

/-!
# One buffer for each queue

`BKDRFTQueueOut` with `buffering_` and without `per_flow_buffering_`: the flows of a queue share
the buffer `limited_buffers_[qid]`, and `RunTask` sends with `TrySendBuffer`.  For each index below
`count_queues_` this reads the first packet of the array `peek` to find a flow, primes the buffer
of that flow, and sends from the array it has read from.

* `trySendBuffer`, `runTaskShared`, `call`: these functions, with the queues that were offered to
  the port;
* `SharedBlocks`: the blocks of the flows have the buffers of queues;
* `SharedInv`: nothing has been sent, and what was received is in the buffers or freed;
* `SharedInv.processBatch`: `ProcessBatch` keeps it.

A place of `peek` from `tail` on is not a buffered packet: it was never written, since
`new_pktbuffer` leaves the array as it is allocated, or it holds a packet that was sent.  Reading
it is the result `stalePointer`.
-/

namespace Backdraft

open Word Slots FlowTable

namespace QueueOut

/-- How a call can fail to return. -/
inductive Fault
  /-- the program ends -/
  | fatal (e : Fatal)
  /-- a pointer was read that is not a buffered packet -/
  | stalePointer
  /-- the loop goes on for ever -/
  | noResult
  deriving DecidableEq

/-- `limited_buffers_[q]`. -/
def limited (s : QueueOut) (q : ℕ) : PktBuffer Packet := s.buffers (limitedBuffer q)

/-- One round of the inner loop of `TrySendBuffer`, with `sent_pkts`, `burst`, and whether the loop
ends. -/
def sendLimitedOnce (cfg : QueueOutConfig) (s : QueueOut) (now q : ℕ) (accept : ℕ × ℕ) :
    Except Fault (QueueOut × ℕ × ℕ × Bool) :=
  if (s.limited q).tail = 0 then .error .stalePointer
  else
    match s.toFlowTable.getFlowState cfg now ((s.limited q).peek.headD default).flow with
    | .error e => .error (.fatal (.table e))
    | .ok (t, i) =>
      let s := { s with toFlowTable := t }
      match (s.bufferOf i).pktbufferPrime with
      | .error e => .error (.fatal (.buffer e))
      | .ok (b, burst) =>
        let s := s.setBuffer i b
        -- the buffer that was primed need not be the one that is sent from
        if (s.limited q).tail < burst then .error .stalePointer
        else
          match s.sendPacket cfg i ((s.limited q).peek.take burst) accept with
          | .error e => .error (.fatal e)
          | .ok (s, sentPkts, sentCtrlPkt) =>
            match (s.bufferOf i).pktbufferFlush sentPkts with
            | .error e => .error (.fatal (.buffer e))
            | .ok b => .ok
              ({ s.setBuffer i b with
                  countPacketsInBuffer := wsub 64 s.countPacketsInBuffer sentPkts },
                sentPkts, burst, sentPkts < burst || cfg.cdq && !sentCtrlPkt)

/-- The inner loop of `TrySendBuffer`, for the `size` packets of the buffer of index `q`.  The last
component says whether packets were offered to the port.  Once `accepts` is used up, the port takes
nothing. -/
def sendLimited (cfg : QueueOutConfig) (s : QueueOut) (now q size : ℕ) (offered : Bool) :
    List (ℕ × ℕ) → Except Fault (QueueOut × List (ℕ × ℕ) × Bool)
  | [] =>
    if size = 0 then .ok (s, [], offered)
    else
      match s.sendLimitedOnce cfg now q (0, 0) with
      | .error e => .error e
      | .ok (s, _, burst, stop) =>
        if stop then .ok (s, [], offered || decide (0 < burst)) else .error .noResult
  | accept :: accepts =>
    if size = 0 then .ok (s, accept :: accepts, offered)
    else
      match s.sendLimitedOnce cfg now q accept with
      | .error e => .error e
      | .ok (s, sentPkts, burst, stop) =>
        if stop then .ok (s, accepts, offered || decide (0 < burst))
        else s.sendLimited cfg now q (wsub 64 size sentPkts) (offered || decide (0 < burst)) accepts

/-- The outer loop of `TrySendBuffer`, with the list of the indices offered to the port. -/
def visitLimited (cfg : QueueOutConfig) (s : QueueOut) (now : ℕ) (offered : List ℕ) :
    List ℕ → List (ℕ × ℕ) → Except Fault (QueueOut × List ℕ)
  | [], _ => .ok (s, offered)
  | q :: qs, accepts =>
    match s.sendLimited cfg now q (s.limited q).pktbufferCount false accepts with
    | .error e => .error e
    | .ok (s, accepts, true) => s.visitLimited cfg now (offered ++ [q]) qs accepts
    | .ok (s, accepts, false) => s.visitLimited cfg now offered qs accepts

/-- `TrySendBuffer`; `count_queues_` is the number of queue ids given to `Init`. -/
def trySendBuffer (cfg : QueueOutConfig) (s : QueueOut) (now : ℕ) (accepts : List (ℕ × ℕ)) :
    Except Fault (QueueOut × List ℕ) :=
  s.visitLimited cfg now [] (List.range cfg.dataQueues.length) accepts

/-- `RunTask` without per-flow buffers. -/
def runTaskShared (cfg : QueueOutConfig) (s : QueueOut) (now ctrlAccept : ℕ)
    (accepts : List (ℕ × ℕ)) : Except Fault (QueueOut × List ℕ) :=
  let s := if cfg.cdq then { s with ctrl := s.ctrl.tryFlushCtrlBatch ctrlAccept } else s
  if 0 < s.countPacketsInBuffer then s.trySendBuffer cfg now accepts else .ok (s, [])

/-- One call, for any setting of the buffers. -/
def call (cfg : QueueOutConfig) (s : QueueOut) : Op → Except Fault QueueOut
  | .runTask now ctrlAccept accepts =>
    if cfg.perFlowBuffering then (s.runTask cfg now ctrlAccept accepts).mapError .fatal
    else (s.runTaskShared cfg now ctrlAccept accepts).map Prod.fst
  | op => (s.step cfg op).mapError .fatal

/-- The queue ids that `Init` and `AcquireQueues` accept. -/
structure AcceptedQueues (cfg : QueueOutConfig) : Prop where
  pos : 0 < cfg.dataQueues.length
  length_le : cfg.dataQueues.length ≤ maxQueuesPerDir
  lt : ∀ q ∈ cfg.dataQueues, q < maxQueuesPerDir

/-- The packets in the buffers of the queues. -/
def sharedStored (s : QueueOut) : List Packet :=
  pooled maxQueuesPerDir fun q => (s.limited q).contents

end QueueOut

/-! ### Lookups -/

namespace FlowTable

variable {cfg : QueueOutConfig} {t t' : FlowTable} {now i : ℕ} {flow : Flow}

/-- The block has the buffer of a queue. -/
def HasLimited (t : FlowTable) (i : ℕ) : Prop :=
  ∃ q < maxQueuesPerDir, (t.flowStatePool i).buffer = limitedBuffer q

/-- The flows in the table have blocks with the buffer of a queue. -/
def SharedBlocks (t : FlowTable) : Prop :=
  ∀ f i, t.flowBufferMapping.lookup f = some i → t.HasLimited i

/-- The queue for a new flow is one of those given to `Init`, or 0. -/
theorem chooseQueue_lt (hqid : ∀ q ∈ cfg.dataQueues, q < maxQueuesPerDir) (t : FlowTable) :
    t.chooseQueue cfg < maxQueuesPerDir := by
  have hzero : 0 < maxQueuesPerDir := by decide
  have hpick : ∀ qs : List ℕ, (∀ q ∈ qs, q < maxQueuesPerDir) →
      t.leastRecentQueue qs < maxQueuesPerDir := by
    intro qs hqs
    rcases LeastRecent.pick_mem t.lastVisit (2 ^ 64 - 1) 0 qs with heq | hmem
    · exact heq.trans_lt hzero
    · exact hqs _ hmem
  unfold chooseQueue
  split_ifs
  · cases hqs : cfg.dataQueues with
    | nil => exact hzero
    | cons q qs => exact hqid q (by simp [hqs])
  · exact hpick _ fun q hq => hqid q (List.mem_of_mem_drop hq)
  · exact hpick _ hqid

theorem SharedBlocks.assign (h : t.SharedBlocks) (hper : cfg.perFlowBuffering = false) {qid : ℕ}
    (hq : qid < maxQueuesPerDir) : (t.assign cfg now flow qid i).SharedBlocks ∧
      (t.assign cfg now flow qid i).HasLimited i := by
  have hself : (t.assign cfg now flow qid i).HasLimited i :=
    ⟨qid, hq, by simp [FlowTable.assign, hper]⟩
  refine ⟨fun f j hj => ?_, hself⟩
  by_cases hji : j = i
  · exact hji ▸ hself
  · obtain ⟨-, hij⟩ | ⟨-, hold⟩ := HashTable.lookup_of_insert hj
    · exact absurd hij hji
    obtain ⟨q, hq', hbuf⟩ := h f j hold
    exact ⟨q, hq', by simpa [FlowTable.assign, hji] using hbuf⟩

theorem SharedBlocks.deallocate (h : t.SharedBlocks) (cfg : QueueOutConfig) (flow : Flow) :
    (t.deallocateFlowState cfg flow).SharedBlocks := by
  unfold deallocateFlowState
  split
  · exact h
  · rename_i i hlook
    intro f j hj
    have hj' : t.flowBufferMapping.lookup f = some j := by
      by_cases hf : f = flow.toFlowTuple
      · subst hf
        simp [HashTable.lookup_erase] at hj
      · exact (HashTable.lookup_erase_ne hf).symm.trans hj
    obtain ⟨q, hq, hbuf⟩ := h f j hj'
    exact ⟨q, hq, (field_update FlowState.buffer (by rfl) j).trans hbuf⟩

/-- Without per-flow buffers a lookup leaves the buffers as they are. -/
theorem SharedBlocks.getFlowState (h : t.SharedBlocks) (hper : cfg.perFlowBuffering = false)
    (hqid : ∀ q ∈ cfg.dataQueues, q < maxQueuesPerDir)
    (hok : t.getFlowState cfg now flow = .ok (t', i)) :
    t'.buffers = t.buffers ∧ t'.SharedBlocks ∧ t'.HasLimited i := by
  obtain ⟨hlook, rfl⟩ | ⟨-, u, qid, hchoose, hu, -, rfl⟩ := getFlowState_eq_ok hok
  · exact ⟨rfl, h, h _ i hlook⟩
  · have hq : qid < maxQueuesPerDir := hchoose ▸ chooseQueue_lt hqid t
    have hblocks : u.SharedBlocks := hu ▸ h
    have hbuffers : u.buffers = t.buffers := by rw [hu]
    unfold allocate
    split_ifs
    · refine ⟨?_, (hblocks.deallocate cfg _).assign hper hq⟩
      rw [← hbuffers]
      simp only [FlowTable.assign, deallocateFlowState, hper]
      split <;> rfl
    · exact ⟨hbuffers, hblocks.assign hper hq⟩

end FlowTable

namespace QueueOut

variable {cfg : QueueOutConfig} {s s' u : QueueOut} {now : ℕ} {batch : List Packet}

/-- The buffer of a queue, of which nothing was ever primed. -/
structure Unprimed (cfg : QueueOutConfig) (b : PktBuffer Packet) : Prop where
  wf : b.WF cfg.maxBufferSize
  tail : b.tail = 0

/-- The invariant of the module with one buffer for each queue. -/
structure SharedInv (cfg : QueueOutConfig) (s : QueueOut) : Prop where
  blocks : s.toFlowTable.SharedBlocks
  buffer : ∀ q, Unprimed cfg (s.limited q)
  sent : s.sent = []
  order : ∀ q, (s.limited q).contents.Sublist s.received
  perm : s.received.Perm (s.freed ++ s.sharedStored)
  count : s.countPacketsInBuffer = s.sharedStored.length

/-! ### What a call keeps -/

theorem limitedBuffer_injective : Function.Injective limitedBuffer :=
  add_right_injective maxAvailabeFlows

theorem length_sharedStored_lt (h : ∀ q, Unprimed cfg (s.limited q)) :
    s.sharedStored.length < 2 ^ 64 := by
  have hle : s.sharedStored.length ≤ maxQueuesPerDir * (2 ^ 31 + 32) :=
    length_pooled_le fun q _ => (h q).wf.length_lt.le
  have hmax : maxQueuesPerDir = 32 := rfl
  omega

namespace SharedInv

/-- A change that moves no packet. -/
theorem sameStore (h : SharedInv cfg s) (hsame : SameStore s u) : SharedInv cfg u := by
  have hlim : u.limited = s.limited := by
    funext q
    rw [limited, limited, hsame.buffers_eq]
  have hstored : u.sharedStored = s.sharedStored := by rw [sharedStored, sharedStored, hlim]
  refine ⟨fun f i hf => ?_, ?_, ?_, ?_, ?_, ?_⟩
  · rw [hsame.mapping_eq] at hf
    obtain ⟨q, hq, hbuf⟩ := h.blocks f i hf
    exact ⟨q, hq, ((hsame.block_eq i).1).trans hbuf⟩
  · rw [hlim]; exact h.buffer
  · rw [hsame.sent_eq]; exact h.sent
  · rw [hlim, hsame.received_eq]; exact h.order
  · rw [hsame.received_eq, hsame.freed_eq, hstored]; exact h.perm
  · rw [hsame.count_eq, hstored]; exact h.count

/-- Another control batch. -/
theorem setCtrl (h : SharedInv cfg s) (c : CtrlBatch) : SharedInv cfg { s with ctrl := c } :=
  ⟨h.blocks, h.buffer, h.sent, h.order, h.perm, h.count⟩

/-- A lookup moves no packet. -/
theorem looked {t : FlowTable} (h : SharedInv cfg s) (ht : t.SharedBlocks)
    (hbuf : t.buffers = s.buffers) : SharedInv cfg { s with toFlowTable := t } := by
  have hlim : limited { s with toFlowTable := t } = s.limited := by
    funext q
    exact congrFun hbuf (limitedBuffer q)
  have hstored : sharedStored { s with toFlowTable := t } = s.sharedStored := by
    rw [sharedStored, sharedStored, hlim]
  refine ⟨ht, ?_, h.sent, ?_, ?_, ?_⟩
  · rw [hlim]; exact h.buffer
  · rw [hlim]; exact h.order
  · rw [hstored]; exact h.perm
  · rw [hstored]; exact h.count

/-- A batch comes in that is freed. -/
theorem refused (h : SharedInv cfg s) (batch : List Packet) (c : CtrlBatch) :
    SharedInv cfg { s with
      received := s.received ++ batch, freed := s.freed ++ batch, ctrl := c } := by
  refine ⟨h.blocks, h.buffer, h.sent, fun q => ?_, ?_, h.count⟩
  · exact (h.order q).trans (List.sublist_append_left _ _)
  · have hsplit := perm_append_split (h.perm.trans List.perm_append_comm) 0 batch
    rw [List.take_zero, List.append_nil] at hsplit
    exact hsplit.trans List.perm_append_comm

end SharedInv

/-- Replacing the buffer of a queue replaces its packets. -/
theorem sharedStored_update {q : ℕ} {b : PktBuffer Packet}
    (hu : u.limited = Function.update s.limited q b) :
    u.sharedStored = pooled maxQueuesPerDir
      (Function.update (fun r => (s.limited r).contents) q b.contents) := by
  rw [sharedStored, hu]
  exact congrArg _ (Function.comp_update PktBuffer.contents s.limited q b)

/-- A batch enters the buffer of a queue. -/
theorem SharedInv.stocked {q n : ℕ} {b : PktBuffer Packet} (h : SharedInv cfg s)
    (hq : q < maxQueuesPerDir) (hb : Unprimed cfg b) (hn : n ≤ batch.length)
    (hcont : b.contents = (s.limited q).contents ++ batch.take n) (c : CtrlBatch) :
    SharedInv cfg { s with
      received := s.received ++ batch
      ctrl := c
      buffers := Function.update s.buffers (limitedBuffer q) b
      freed := s.freed ++ batch.drop n
      countPacketsInBuffer := wadd 64 s.countPacketsInBuffer n } := by
  set v : QueueOut := { s with
    received := s.received ++ batch
    ctrl := c
    buffers := Function.update s.buffers (limitedBuffer q) b
    freed := s.freed ++ batch.drop n
    countPacketsInBuffer := wadd 64 s.countPacketsInBuffer n } with hv
  have hlim : v.limited = Function.update s.limited q b :=
    Function.update_comp_eq_of_injective s.buffers limitedBuffer_injective q b
  have hbuffer : ∀ r, Unprimed cfg (v.limited r) := by
    rw [hlim]
    exact (Function.forall_update_iff _ _).2 ⟨hb, fun r _ => h.buffer r⟩
  have hmoved : v.sharedStored.Perm (s.sharedStored ++ batch.take n) := by
    rw [sharedStored_update hlim, hcont]
    exact perm_pooled_append hq _ _
  refine ⟨h.blocks, hbuffer, h.sent, fun r => ?_, ?_, ?_⟩
  · rw [hlim]
    by_cases hr : r = q
    · subst hr
      rw [Function.update_self, hcont]
      exact (h.order r).append (List.take_sublist n batch)
    · rw [Function.update_of_ne hr]
      exact (h.order r).trans (List.sublist_append_left _ _)
  · have hsplit := perm_append_split (h.perm.trans List.perm_append_comm) n batch
    exact hsplit.trans ((hmoved.symm.append_right _).trans List.perm_append_comm)
  · have hlen : v.sharedStored.length = s.countPacketsInBuffer + n := by
      rw [hmoved.length_eq, List.length_append, List.length_take, min_eq_left hn, h.count]
    have hlt := length_sharedStored_lt hbuffer
    change wadd 64 s.countPacketsInBuffer n = _
    rw [wadd_of_lt (by omega), hlen]

theorem bufferBatch_limited {i q : ℕ} (hi : (s.flowStatePool i).buffer = limitedBuffer q) :
    s.bufferBatch i batch = { s with
      buffers := Function.update s.buffers (limitedBuffer q)
        ((s.limited q).pktbufferEnqueue batch).1
      freed := s.freed ++ batch.drop ((s.limited q).pktbufferEnqueue batch).2
      countPacketsInBuffer :=
        wadd 64 s.countPacketsInBuffer ((s.limited q).pktbufferEnqueue batch).2 } := by
  simp only [bufferBatch, setBuffer, FlowTable.bufferOf, hi]
  rfl

/-- **`ProcessBatch` keeps the invariant.** -/
theorem SharedInv.processBatch {adminUp : Bool} {accept : ℕ × ℕ} {duration : ℕ}
    (h : SharedInv cfg s) (hbuf : cfg.buffering = true) (hper : cfg.perFlowBuffering = false)
    (hqid : AcceptedQueues cfg)
    (hok : s.processBatch cfg now adminUp batch accept duration = .ok s') : SharedInv cfg s' := by
  obtain ⟨c, rfl⟩ | ⟨c, t, i, hget, hcase⟩ := processBatch_cases hok
  · exact h.refused batch c
  · obtain ⟨hbuffers, hblocks, q, hq, hi⟩ := h.blocks.getFlowState hper hqid.lt hget
    obtain ⟨-, rfl⟩ | ⟨hlossy, -⟩ := hcase
    · have hlook := h.looked hblocks hbuffers
      obtain ⟨hwf, hle, hcont⟩ := (hlook.buffer q).wf.enqueue_spec batch
      have hstocked := hlook.stocked hq ⟨hwf, (hlook.buffer q).tail⟩ hle hcont c
      rw [bufferBatch_limited hi]
      exact (hstocked.sameStore (SameStore.overlay ..)).sameStore (SameStore.backpressure ..)
    · exact absurd (hbuf.symm.trans hlossy) (by decide)

end QueueOut

end Backdraft

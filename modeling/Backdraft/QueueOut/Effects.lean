import Backdraft.QueueOut.Model

/-!
# What the calls of the output module do

With per-flow buffers, each call is a sequence of four changes: a lookup in the flow table, a
batch that enters one buffer, packets that leave one buffer, and the pause or resumption of a
flow.

* `drained`: the state after packets left a buffer;
* `sendFlow_eq`: the loop of `TrySendBufferPFQ` on a block takes packets from the front of its
  buffer;
* `visitFlows_induction`, `trySendBufferPFQ_induction`: what each visit of a block keeps, the
  whole of `TrySendBufferPFQ` keeps;
* `processBatch_cases`: what `ProcessBatch` can do.
-/

namespace Backdraft

open Word

namespace QueueOut

variable {cfg : QueueOutConfig} {s s' : QueueOut} {now i n : ℕ}

/-- The state after the first `n` packets of the buffer of block `i` were sent: `b` is the buffer
that remains, `c` the state of the control batch. -/
def drained (s : QueueOut) (i n : ℕ) (b : PktBuffer Packet) (c : CtrlBatch) : QueueOut :=
  { s with
    buffers := Function.update s.buffers i b
    sent := s.sent ++ (s.buffers i).contents.take n
    countPacketsInBuffer := wsub 64 s.countPacketsInBuffer n
    ctrl := c }

/-- `b` is what remains of the buffer of block `i` without its first `n` packets. -/
structure Remains (cfg : QueueOutConfig) (s : QueueOut) (i n : ℕ) (b : PktBuffer Packet) :
    Prop where
  le : n ≤ (s.buffers i).contents.length
  wf : b.WF cfg.maxBufferSize
  contents_eq : b.contents = (s.buffers i).contents.drop n

theorem tableInv_drained {b : PktBuffer Packet} {c : CtrlBatch}
    (h : s.toFlowTable.TableInv cfg) (hi : i < maxAvailabeFlows) (hb : Remains cfg s i n b) :
    (s.drained i n b c).toFlowTable.TableInv cfg :=
  h.setBuffer hb.wf fun hfree => by rw [hb.contents_eq, h.empty i hi hfree, List.drop_nil]

/-- `SendPacket` sends packets from the front, and does nothing else but to announce them. -/
theorem sendPacket_eq {pkts : List Packet} {accept : ℕ × ℕ} {sentPkts : ℕ} {sentCtrl : Bool}
    (h : s.sendPacket cfg i pkts accept = .ok (s', sentPkts, sentCtrl)) :
    sentPkts = min accept.1 pkts.length ∧
      ∃ c, s' = { s with sent := s.sent ++ pkts.take sentPkts, ctrl := c } := by
  unfold sendPacket at h
  by_cases hcdq : 0 < min accept.1 pkts.length ∧ cfg.cdq = true
  · simp only [if_pos hcdq] at h
    split at h
    · cases h
    · simp only [Except.ok.injEq, Prod.mk.injEq] at h
      obtain ⟨rfl, rfl, -⟩ := h
      exact ⟨rfl, _, rfl⟩
  · simp only [if_neg hcdq, Except.ok.injEq, Prod.mk.injEq] at h
    obtain ⟨rfl, rfl, -⟩ := h
    exact ⟨rfl, s.ctrl, rfl⟩

/-- A round of the loop on a block in which there is something to send: `b` is the buffer after it
was primed. -/
theorem sendOnce_of_sendPacket {accept : ℕ × ℕ} {b : PktBuffer Packet} {c : CtrlBatch} {k : ℕ}
    {sentCtrl : Bool} (h : s.toFlowTable.TableInv cfg) (hi : i < maxAvailabeFlows)
    (hprime : (s.buffers i).pktbufferPrime = .ok (b, k)) (hbwf : b.WF cfg.maxBufferSize)
    (hbcont : b.contents = (s.buffers i).contents) (htail : b.tail = k) (hk : k ≠ 0) (hle : n ≤ k)
    (hsend : (s.setBuffer i b).sendPacket cfg i (b.peek.take k) accept =
      .ok ({ s.setBuffer i b with sent := s.sent ++ (b.peek.take k).take n, ctrl := c }, n,
        sentCtrl)) :
    ∃ b', Remains cfg s i n b' ∧ b'.ringQueue = b.ringQueue ∧
      s.sendOnce cfg i accept =
        .ok (s.drained i n b' c, some (n < k || cfg.cdq && !sentCtrl)) := by
  have hself : (s.flowStatePool i).buffer = i := h.buffer_eq i hi
  have hlen := hbwf.length_contents
  obtain ⟨b', hflush, hbwf', hbcont'⟩ := hbwf.flush_spec (htail.symm ▸ hle)
  -- the packets in `peek` are the first of the buffer
  have hfront : (b.peek.take k).take n = (s.buffers i).contents.take n := by
    rw [← hbcont, PktBuffer.contents, htail, List.take_append_of_le_length]
    rw [List.length_take, hbwf.length_peek]
    have := hbwf.tail_le
    omega
  refine ⟨b', ⟨by rw [← hbcont]; omega, hbwf', by rw [hbcont', hbcont]⟩,
    PktBuffer.ringQueue_flush hflush, ?_⟩
  simp only [sendOnce, h.bufferOf_eq hi, hprime, if_neg hk, hsend, hflush, hfront]
  simp [setBuffer, drained, hself]

/-- One round of the loop on a block. -/
theorem sendOnce_eq {accept : ℕ × ℕ} {out : Option Bool} (h : s.toFlowTable.TableInv cfg)
    (hi : i < maxAvailabeFlows) (hcount : s.countPacketsInBuffer < 2 ^ 64)
    (hok : s.sendOnce cfg i accept = .ok (s', out)) :
    ∃ n b c, Remains cfg s i n b ∧ s' = s.drained i n b c := by
  obtain ⟨b, hprime, hbwf, hbcont, htail⟩ := (h.wf i hi).prime_spec
  have hself : (s.flowStatePool i).buffer = i := h.buffer_eq i hi
  by_cases hzero : min peekSize (s.buffers i).contents.length = 0
  · simp only [sendOnce, h.bufferOf_eq hi, hprime, if_pos hzero, Except.ok.injEq,
      Prod.mk.injEq] at hok
    refine ⟨0, b, s.ctrl, ⟨Nat.zero_le _, hbwf, hbcont⟩, ?_⟩
    rw [← hok.1, setBuffer, drained, hself, wsub_of_le (Nat.zero_le _) hcount]
    simp
  · cases hsend : (s.setBuffer i b).sendPacket cfg i
        (b.peek.take (min peekSize (s.buffers i).contents.length)) accept with
    | error e =>
      simp only [sendOnce, h.bufferOf_eq hi, hprime, if_neg hzero, hsend, reduceCtorEq] at hok
    | ok r =>
      obtain ⟨u, n, sentCtrl⟩ := r
      obtain ⟨hn, c, rfl⟩ := sendPacket_eq hsend
      have hle : n ≤ min peekSize (s.buffers i).contents.length := by
        rw [hn, List.length_take]
        omega
      obtain ⟨b', hb', -, heq⟩ :=
        sendOnce_of_sendPacket h hi hprime hbwf hbcont htail hzero hle hsend
      rw [heq, Except.ok.injEq, Prod.mk.injEq] at hok
      exact ⟨n, b', c, hb', hok.1.symm⟩

/-- Two rounds are one. -/
theorem drained_drained {m : ℕ} {b b' : PktBuffer Packet} {c c' : CtrlBatch}
    (hb : Remains cfg s i n b) :
    (s.drained i n b c).drained i m b' c' = s.drained i (n + m) b' c' := by
  simp only [drained, Function.update_self, Function.update_idem, hb.contents_eq, wsub_wsub,
    List.append_assoc, List.take_add]

theorem Remains.trans {m : ℕ} {b b' : PktBuffer Packet} {c : CtrlBatch} (hb : Remains cfg s i n b)
    (hb' : Remains cfg (s.drained i n b c) i m b') : Remains cfg s i (n + m) b' := by
  have hself : (s.drained i n b c).buffers i = b := Function.update_self ..
  have hle := hb.le
  have hle' := hb'.le
  rw [hself, hb.contents_eq, List.length_drop] at hle'
  refine ⟨by omega, hb'.wf, ?_⟩
  rw [hb'.contents_eq, hself, hb.contents_eq, List.drop_drop]

/-- The loop on a block. -/
theorem sendFlow_eq {accepts rest : List (ℕ × ℕ)} (h : s.toFlowTable.TableInv cfg)
    (hi : i < maxAvailabeFlows) (hcount : s.countPacketsInBuffer < 2 ^ 64)
    (hok : s.sendFlow cfg i accepts = .ok (s', rest)) :
    ∃ n b c, Remains cfg s i n b ∧ s' = s.drained i n b c := by
  induction accepts generalizing s with
  | nil =>
    cases honce : s.sendOnce cfg i (0, 0) with
    | error e => simp [sendFlow, honce] at hok
    | ok r =>
      simp only [sendFlow, honce, Except.ok.injEq, Prod.mk.injEq] at hok
      obtain ⟨rfl, -⟩ := hok
      exact sendOnce_eq h hi hcount honce
  | cons accept accepts ih =>
    cases honce : s.sendOnce cfg i accept with
    | error e => simp [sendFlow, honce] at hok
    | ok r =>
      obtain ⟨u, out⟩ := r
      obtain ⟨n, b, c, hb, rfl⟩ := sendOnce_eq h hi hcount honce
      match out with
      | none =>
        simp only [sendFlow, honce, Except.ok.injEq, Prod.mk.injEq] at hok
        exact ⟨n, b, c, hb, hok.1.symm⟩
      | some true =>
        simp only [sendFlow, honce, Except.ok.injEq, Prod.mk.injEq] at hok
        exact ⟨n, b, c, hb, hok.1.symm⟩
      | some false =>
        simp only [sendFlow, honce] at hok
        obtain ⟨m, b', c', hb', rfl⟩ := ih (tableInv_drained h hi hb) (wsub_lt _ _) hok
        exact ⟨n + m, b', c', hb.trans hb', drained_drained hb⟩

/-! ### Pausing and resuming -/

/-- What each pause keeps, backpressure keeps. -/
theorem backpressure_induction {P : QueueOut → Prop} (hpause : ∀ u j, P u → P (u.pause now j))
    (hs : P s) (cfg : QueueOutConfig) (i : ℕ) : P (s.backpressure cfg now i) := by
  have hall : ∀ (keep : QueueOut → (_ : FlowTuple) × ℕ → Prop)
      [∀ u e, Decidable (keep u e)] (entries : List ((_ : FlowTuple) × ℕ)) (u : QueueOut), P u →
      P (entries.foldl (fun u e => if keep u e then u.pause now e.2 else u) u) := by
    intro keep _ entries
    induction entries with
    | nil => exact fun u hu => hu
    | cons e entries ih =>
      intro u hu
      rw [List.foldl_cons]
      split_ifs
      · exact ih _ (hpause u e.2 hu)
      · exact ih u hu
  unfold QueueOut.backpressure
  split_ifs
  · exact hpause s i hs
  · exact hall _ _ s hs
  · exact hs

/-- `u` differs from `s` in what is paused and in the overlay fields of the blocks only. -/
structure SameStore (s u : QueueOut) : Prop where
  mapping_eq : u.flowBufferMapping = s.flowBufferMapping
  flow_eq : u.flowStateFlowId = s.flowStateFlowId
  buffers_eq : u.buffers = s.buffers
  prioQueue_eq : u.prioQueue = s.prioQueue
  count_eq : u.countPacketsInBuffer = s.countPacketsInBuffer
  received_eq : u.received = s.received
  sent_eq : u.sent = s.sent
  freed_eq : u.freed = s.freed
  block_eq : ∀ j, (u.flowStatePool j).buffer = (s.flowStatePool j).buffer ∧
    (u.flowStatePool j).flowId = (s.flowStatePool j).flowId ∧
    (u.flowStatePool j).inUse = (s.flowStatePool j).inUse

namespace SameStore

variable {u v : QueueOut}

theorem refl (s : QueueOut) : SameStore s s :=
  ⟨rfl, rfl, rfl, rfl, rfl, rfl, rfl, rfl, fun _ => ⟨rfl, rfl, rfl⟩⟩

theorem trans (h : SameStore s u) (h' : SameStore u v) : SameStore s v where
  mapping_eq := h'.mapping_eq.trans h.mapping_eq
  flow_eq := h'.flow_eq.trans h.flow_eq
  buffers_eq := h'.buffers_eq.trans h.buffers_eq
  prioQueue_eq := h'.prioQueue_eq.trans h.prioQueue_eq
  count_eq := h'.count_eq.trans h.count_eq
  received_eq := h'.received_eq.trans h.received_eq
  sent_eq := h'.sent_eq.trans h.sent_eq
  freed_eq := h'.freed_eq.trans h.freed_eq
  block_eq := fun j => ⟨(h'.block_eq j).1.trans (h.block_eq j).1,
    (h'.block_eq j).2.1.trans (h.block_eq j).2.1, (h'.block_eq j).2.2.trans (h.block_eq j).2.2⟩

/-- Writing the block `i` with the same buffer, number and use. -/
theorem setBlock (s : QueueOut) (i : ℕ) (b : FlowState) (c : SwDpCtrl)
    (hb : b.buffer = (s.flowStatePool i).buffer ∧ b.flowId = (s.flowStatePool i).flowId ∧
      b.inUse = (s.flowStatePool i).inUse) :
    SameStore s { s with dpCtrl := c, flowStatePool := Function.update s.flowStatePool i b } := by
  refine ⟨rfl, rfl, rfl, rfl, rfl, rfl, rfl, rfl, fun j => ?_⟩
  exact ⟨FlowTable.field_update _ hb.1 j, FlowTable.field_update _ hb.2.1 j,
    FlowTable.field_update _ hb.2.2 j⟩

theorem tableInv (h : SameStore s u) (hs : s.toFlowTable.TableInv cfg) :
    u.toFlowTable.TableInv cfg where
  buffer_eq j hj := (h.block_eq j).1.trans (hs.buffer_eq j hj)
  flowId_eq j hj := (h.block_eq j).2.1.trans (hs.flowId_eq j hj)
  map_iff f j := by rw [h.mapping_eq, (h.block_eq j).2.2, h.flow_eq]; exact hs.map_iff f j
  wf j hj := by rw [h.buffers_eq]; exact hs.wf j hj
  empty j hj hfree := by rw [h.buffers_eq]; exact hs.empty j hj ((h.block_eq j).2.2 ▸ hfree)
  prio_lt := h.prioQueue_eq ▸ hs.prio_lt
  accepts := h.mapping_eq ▸ hs.accepts

theorem resume (cfg : QueueOutConfig) (s : QueueOut) (now i : ℕ) :
    SameStore s (s.resume cfg now i) := by
  unfold QueueOut.resume
  split_ifs
  · exact setBlock s i _ _ ⟨rfl, rfl, rfl⟩
  · exact refl s

theorem pause (s : QueueOut) (now i : ℕ) : SameStore s (s.pause now i) :=
  setBlock s i _ _ ⟨rfl, rfl, rfl⟩

theorem overlay (cfg : QueueOutConfig) (s : QueueOut) (now i duration : ℕ) :
    SameStore s (s.overlay cfg now i duration) := by
  unfold QueueOut.overlay
  split_ifs
  · exact setBlock s i _ s.dpCtrl ⟨rfl, rfl, rfl⟩
  · exact refl s

theorem backpressure (cfg : QueueOutConfig) (s : QueueOut) (now i : ℕ) :
    SameStore s (s.backpressure cfg now i) :=
  backpressure_induction (P := SameStore s) (fun u j hu => hu.trans (pause u now j)) (refl s) cfg i

end SameStore

/-! ### `RunTask` -/

section Visits

variable {P : QueueOut → Prop} {accepts rest : List (ℕ × ℕ)}
  (hinv : ∀ s, P s → s.toFlowTable.TableInv cfg ∧ s.countPacketsInBuffer < 2 ^ 64)
  (hvisit : ∀ s i n b c, P s → i < maxAvailabeFlows → Remains cfg s i n b →
    P ((s.drained i n b c).resume cfg now i))

include hinv hvisit

/-- What the visit of a block keeps, the visits of a list of blocks keep. -/
theorem visitFlows_induction {is : List ℕ} (his : ∀ i ∈ is, i < maxAvailabeFlows) (hs : P s)
    (hok : s.visitFlows cfg now is accepts = .ok (s', rest)) : P s' := by
  induction is generalizing s accepts with
  | nil =>
    simp only [visitFlows, Except.ok.injEq, Prod.mk.injEq] at hok
    exact hok.1 ▸ hs
  | cons i is ih =>
    have hi : i < maxAvailabeFlows := his i (List.mem_cons_self ..)
    cases hflow : s.sendFlow cfg i accepts with
    | error e => simp [visitFlows, hflow] at hok
    | ok r =>
      obtain ⟨u, accepts'⟩ := r
      simp only [visitFlows, hflow] at hok
      obtain ⟨n, b, c, hb, rfl⟩ := sendFlow_eq (hinv s hs).1 hi (hinv s hs).2 hflow
      exact ih (fun j hj => his j (List.mem_cons_of_mem _ hj)) (hvisit s i n b c hs hi hb) hok

theorem trySendBufferPFQ_induction (hs : P s)
    (hok : s.trySendBufferPFQ cfg now accepts = .ok s') : P s' := by
  unfold trySendBufferPFQ at hok
  cases hfirst : s.visitFlows cfg now (s.prioQueue 0) accepts with
  | error e => simp [hfirst] at hok
  | ok r =>
    obtain ⟨u, accepts'⟩ := r
    have hu : P u := visitFlows_induction hinv hvisit ((hinv s hs).1.prio_lt 0) hs hfirst
    simp only [hfirst] at hok
    cases hsecond : u.visitFlows cfg now (u.prioQueue 1) accepts' with
    | error e => simp [hsecond] at hok
    | ok r =>
      obtain ⟨v, rest⟩ := r
      simp only [hsecond, Except.ok.injEq] at hok
      exact hok ▸ visitFlows_induction hinv hvisit ((hinv u hu).1.prio_lt 1) hu hsecond

/-- What the visit of a block and a flush of control packets keep, `RunTask` keeps. -/
theorem runTask_induction {ctrlAccept : ℕ} (hctrl : ∀ s c, P s → P { s with ctrl := c })
    (hs : P s) (hok : s.runTask cfg now ctrlAccept accepts = .ok s') : P s' := by
  unfold runTask at hok
  simp only at hok
  split_ifs at hok with hcdq hpos hpos
  · exact trySendBufferPFQ_induction hinv hvisit (hctrl s _ hs) hok
  · exact (Except.ok.inj hok) ▸ hctrl s _ hs
  · exact trySendBufferPFQ_induction hinv hvisit hs hok
  · exact (Except.ok.inj hok) ▸ hs

end Visits

/-! ### `ProcessBatch` -/

/-- The state after the first `n` packets of a batch entered the buffer of block `i`, which is now
`b`, and the others were freed. -/
def stocked (s : QueueOut) (i n : ℕ) (b : PktBuffer Packet) (batch : List Packet) : QueueOut :=
  { s with
    buffers := Function.update s.buffers i b
    freed := s.freed ++ batch.drop n
    countPacketsInBuffer := wadd 64 s.countPacketsInBuffer n }

/-- `b` is the buffer of block `i` with the first `n` packets of the batch behind the others. -/
structure Extends (cfg : QueueOutConfig) (s : QueueOut) (i n : ℕ) (b : PktBuffer Packet)
    (batch : List Packet) : Prop where
  le : n ≤ batch.length
  wf : b.WF cfg.maxBufferSize
  contents_eq : b.contents = (s.buffers i).contents ++ batch.take n

theorem bufferBatch_eq_stocked (h : s.toFlowTable.TableInv cfg) (hi : i < maxAvailabeFlows)
    (batch : List Packet) :
    s.bufferBatch i batch = s.stocked i ((s.buffers i).pktbufferEnqueue batch).2
      ((s.buffers i).pktbufferEnqueue batch).1 batch := by
  simp only [bufferBatch, h.bufferOf_eq hi, setBuffer, h.buffer_eq i hi, stocked]

theorem bufferBatch_eq (h : s.toFlowTable.TableInv cfg) (hi : i < maxAvailabeFlows)
    (batch : List Packet) :
    ∃ n b, Extends cfg s i n b batch ∧ s.bufferBatch i batch = s.stocked i n b batch := by
  obtain ⟨hwf, hle, hcont⟩ := (h.wf i hi).enqueue_spec batch
  exact ⟨_, _, ⟨hle, hwf, hcont⟩, bufferBatch_eq_stocked h hi batch⟩

theorem tableInv_stocked {b : PktBuffer Packet} {batch : List Packet}
    (h : s.toFlowTable.TableInv cfg) (hin : (s.flowStatePool i).inUse = true)
    (hb : Extends cfg s i n b batch) : (s.stocked i n b batch).toFlowTable.TableInv cfg :=
  h.setBuffer hb.wf fun hfree => absurd (hin.symm.trans hfree) (by decide)

/-- `ProcessBatch` frees the batch, or it looks up the flow and stores the batch, or without
buffering it sends what the port takes and frees the rest. -/
theorem processBatch_cases {adminUp : Bool} {batch : List Packet} {accept : ℕ × ℕ} {duration : ℕ}
    (hok : s.processBatch cfg now adminUp batch accept duration = .ok s') :
    (∃ c, s' = { s with
      received := s.received ++ batch, freed := s.freed ++ batch, ctrl := c }) ∨
    (∃ c t i, s.toFlowTable.getFlowState cfg now (batch.headD default).flow = .ok (t, i) ∧
      (cfg.buffering = true ∧
          s' = ((({ s with
            toFlowTable := t, received := s.received ++ batch, ctrl := c }.bufferBatch
            i batch).overlay cfg now i duration).backpressure cfg now i) ∨
        cfg.buffering = false ∧ ∃ n, s' = { s with
          toFlowTable := t, received := s.received ++ batch, ctrl := c
          sent := s.sent ++ batch.take n, freed := s.freed ++ batch.drop n })) := by
  unfold processBatch at hok
  simp only at hok
  split_ifs at hok with hdown hfull hnone hbuf
  · exact .inl ⟨s.ctrl, (Except.ok.inj hok).symm⟩
  · exact .inl ⟨_, (Except.ok.inj hok).symm⟩
  · have hnil : batch = [] := List.length_eq_zero_iff.1 (by omega)
    exact .inl ⟨{ s.ctrl with currentNs := now }, by simp [hnil, ← Except.ok.inj hok]⟩
  · unfold processBatchWithBuffer at hok
    cases hget : s.toFlowTable.getFlowState cfg now (batch.headD default).flow with
    | error e => simp only [hget, reduceCtorEq] at hok
    | ok r =>
      simp only [hget, Except.ok.injEq] at hok
      exact .inr ⟨{ s.ctrl with currentNs := now }, r.1, r.2, rfl, .inl ⟨hbuf, hok.symm⟩⟩
  · unfold processBatchLossy at hok
    cases hget : s.toFlowTable.getFlowState cfg now (batch.headD default).flow with
    | error e => simp only [hget, reduceCtorEq] at hok
    | ok r =>
      obtain ⟨t, i⟩ := r
      simp only [hget] at hok
      split at hok
      · cases hok
      · rename_i u sentPkts sentCtrl hsend
        obtain ⟨-, c, rfl⟩ := sendPacket_eq hsend
        exact .inr ⟨c, t, i, rfl, .inr ⟨by simpa using hbuf, sentPkts,
          (Except.ok.inj hok).symm⟩⟩

end QueueOut

end Backdraft

import Backdraft.QueueOut.SharedRuns

/-!
# Filling the control batch

With per-flow buffers and a port that takes data packets but no control packets, the control batch
fills up: `ProcessBatch` refuses its packets one packet before the end, but `RunTask` also
announces what it sends from the buffers, and asks nothing.

* `Stock`: a state with some packets of one flow in its buffer and some control packets in use;
* `Stock.processBatch`, `Stock.runTask`: one more packet in the buffer, one more announcement;
* `exists_stock`: the whole batch but one packet is used, with two packets left in the buffer;
* `exists_limit`: two calls of `RunTask` later the program ends.
-/

namespace Backdraft

open Word Slots FlowTable

namespace CtrlBatch

variable {c : CtrlBatch}

/-- A port that takes nothing. -/
@[simp] theorem used_tryFlush_zero (c : CtrlBatch) :
    (c.tryFlushCtrlBatch 0).ctrlBatchUsed = c.ctrlBatchUsed := by
  cases hcan : c.canFlush with
  | false => rw [tryFlushCtrlBatch, flush_of_not_canFlush hcan]
  | true => rw [tryFlushCtrlBatch, (flush_fields 0 _ hcan).2.2, Nat.zero_min, Nat.sub_zero]

theorem sendCtrlPkt_of_lt (h : c.ctrlBatchUsed < ctrlBatchSize) (qid prio sentPkts accept : ℕ) :
    ∃ c' : CtrlBatch, c.sendCtrlPkt qid prio sentPkts accept = .ok (c'.tryFlushCtrlBatch accept) ∧
      c'.ctrlBatchUsed = c.ctrlBatchUsed + 1 := by
  refine ⟨{ c with
    firstCtrlPktTs := if c.ctrlBatchUsed = 0 then c.currentNs else c.firstCtrlPktTs
    ctrlBatchUsed := c.ctrlBatchUsed + 1
    payload := Function.update c.payload (c.ctrlBatch.getD c.ctrlBatchUsed default)
      (prepareCtrlPacket qid prio (sentPkts % 2 ^ 16)) }, ?_, rfl⟩
  rw [sendCtrlPkt, addCtrlPkt, if_neg (by omega)]

theorem sendCtrlPkt_of_le (h : ctrlBatchSize ≤ c.ctrlBatchUsed) (qid prio sentPkts accept : ℕ) :
    c.sendCtrlPkt qid prio sentPkts accept = .error .ctrlBatchLimit := by
  rw [sendCtrlPkt, addCtrlPkt, if_pos h]

end CtrlBatch

namespace QueueOut

variable {cfg : QueueOutConfig} {s s' u : QueueOut} {now i : ℕ} {pkts : List Packet}
  {accept : ℕ × ℕ}

theorem runTask_eq {ctrlAccept : ℕ} {accepts : List (ℕ × ℕ)} :
    s.runTask cfg now ctrlAccept accepts =
      if 0 < s.countPacketsInBuffer then
        { s with ctrl := s.flushedCtrl cfg ctrlAccept }.trySendBufferPFQ cfg now accepts
      else .ok { s with ctrl := s.flushedCtrl cfg ctrlAccept } := by
  unfold runTask flushedCtrl
  by_cases hcdq : cfg.cdq = true <;> simp [hcdq]

/-- Block 0 belongs to the flow `default`, is the only one in the priority lists, and its buffer has
`m` packets; `used` control packets wait. -/
structure Stock (cfg : QueueOutConfig) (s : QueueOut) (m used : ℕ) : Prop where
  table : s.toFlowTable.TableInv cfg
  mapped : s.flowBufferMapping.lookup (default : Flow).toFlowTuple = some 0
  high : s.prioQueue 0 = []
  low : s.prioQueue 1 = [0]
  stored : (s.buffers 0).contents.length = m
  count : s.countPacketsInBuffer = m
  used : s.ctrl.ctrlBatchUsed = used

/-- The packets of block 0 are all in the array of its buffer. -/
def Primed (s : QueueOut) : Prop := (s.buffers 0).ringQueue.contents = []

section Stock

variable {m n used : ℕ}

theorem Stock.sameStore (h : Stock cfg s m used) (hsame : SameStore s u) (hctrl : u.ctrl = s.ctrl) :
    Stock cfg u m used where
  table := hsame.tableInv h.table
  mapped := hsame.mapping_eq ▸ h.mapped
  high := hsame.prioQueue_eq ▸ h.high
  low := hsame.prioQueue_eq ▸ h.low
  stored := hsame.buffers_eq ▸ h.stored
  count := hsame.count_eq.trans h.count
  used := hctrl ▸ h.used

theorem ctrl_overlay (cfg : QueueOutConfig) (s : QueueOut) (now i duration : ℕ) :
    (s.overlay cfg now i duration).ctrl = s.ctrl := by
  unfold overlay
  split_ifs <;> rfl

theorem ctrl_backpressure (cfg : QueueOutConfig) (s : QueueOut) (now i : ℕ) :
    (s.backpressure cfg now i).ctrl = s.ctrl :=
  backpressure_induction (P := fun u => u.ctrl = s.ctrl) (fun _ _ hu => hu) rfl cfg i

theorem ctrl_resume (cfg : QueueOutConfig) (s : QueueOut) (now i : ℕ) :
    (s.resume cfg now i).ctrl = s.ctrl := by
  unfold resume
  split_ifs <;> rfl

/-- One packet enters the buffer of block 0. -/
theorem Stock.bufferBatch (h : Stock cfg s m used) (hprimed : s.Primed)
    (hsize : 2 ≤ cfg.maxBufferSize) : Stock cfg (s.bufferBatch 0 [default]) (m + 1) used := by
  have h0 : 0 < maxAvailabeFlows := by decide
  have hwf := h.table.wf 0 h0
  have hone : ((s.buffers 0).pktbufferEnqueue [default]).2 = 1 := by
    rw [hwf.enqueue_count, hprimed, List.length_nil, List.length_singleton]
    omega
  obtain ⟨hwf', hle, hcont⟩ := hwf.enqueue_spec [default]
  have hin := ((h.table.map_iff _ 0).1 h.mapped).2.1
  have hlt := hwf'.length_lt
  rw [hone, List.take_of_length_le (by simp)] at hcont
  rw [hcont, List.length_append, h.stored, List.length_singleton] at hlt
  rw [bufferBatch_eq_stocked h.table h0, hone]
  refine ⟨tableInv_stocked h.table hin ⟨by simp, hwf', by rw [hcont]; rfl⟩, h.mapped, h.high, h.low,
    ?_, ?_, h.used⟩
  · simp [stocked, hcont, h.stored]
  · change wadd 64 s.countPacketsInBuffer 1 = m + 1
    rw [h.count, wadd_of_lt (by omega)]

/-- `ProcessBatch` of one packet, before the guard holds it back. -/
theorem Stock.processBatch {t : FlowTable} (hget : s.toFlowTable.getFlowState cfg now default =
      .ok (t, 0)) (h : Stock cfg { s with toFlowTable := t } m used)
    (hprimed : Primed { s with toFlowTable := t }) (hbuf : cfg.buffering = true)
    (hsize : 2 ≤ cfg.maxBufferSize) (hused : used < ctrlBatchSize - 1) :
    ∃ s', s.call cfg (.processBatch now true [default] (0, 0) 0) = .ok s' ∧
      Stock cfg s' (m + 1) used := by
  have hctrl : s.ctrl.ctrlBatchUsed = used := h.used
  have hguard : ¬ (cfg.cdq = true ∧ ctrlBatchSize - 1 ≤ s.ctrl.ctrlBatchUsed) := by omega
  obtain ⟨v, hv⟩ : ∃ v : QueueOut, v = { s with
    toFlowTable := t
    received := s.received ++ [default]
    ctrl := { s.ctrl with currentNs := now } } := ⟨_, rfl⟩
  have hstock : Stock cfg v m used := by
    subst hv
    exact ⟨h.table, h.mapped, h.high, h.low, h.stored, h.count, h.used⟩
  have hfed := hstock.bufferBatch (by subst hv; exact hprimed) hsize
  refine ⟨((v.bufferBatch 0 [default]).overlay cfg now 0 0).backpressure cfg now 0, ?_,
    (hfed.sameStore (SameStore.overlay ..) (ctrl_overlay ..)).sameStore (SameStore.backpressure ..)
      (ctrl_backpressure ..)⟩
  simp only [call, step, QueueOut.processBatch, Bool.true_eq_false, if_false, if_neg hguard,
    List.length_singleton, Nat.lt_irrefl, if_pos hbuf, processBatchWithBuffer, List.headD_cons]
  have hget' : s.toFlowTable.getFlowState cfg now (default : Packet).flow = .ok (t, 0) := hget
  simp only [hget', Except.mapError, hv]

/-- `SendPacket` with a port that takes at most one packet, and no control packet. -/
theorem sendPacket_one (hcdq : cfg.cdq = true) (hn : n ≤ 1) (hlen : n ≤ pkts.length)
    (hused : n = 0 ∨ s.ctrl.ctrlBatchUsed < ctrlBatchSize) :
    ∃ c sentCtrl, s.sendPacket cfg i pkts (n, 0) =
        .ok ({ s with sent := s.sent ++ pkts.take n, ctrl := c }, n, sentCtrl) ∧
      c.ctrlBatchUsed = s.ctrl.ctrlBatchUsed + n := by
  unfold sendPacket
  simp only [min_eq_left hlen, hcdq, and_true]
  rcases Nat.eq_zero_or_pos n with rfl | hpos
  · exact ⟨s.ctrl, false, by simp, rfl⟩
  · obtain rfl : n = 1 := by omega
    obtain ⟨c, hc, hcused⟩ := CtrlBatch.sendCtrlPkt_of_lt (hused.resolve_left (by omega))
      (s.flowStatePool i).qid (s.flowStatePool i).prio 1 0
    exact ⟨c.tryFlushCtrlBatch 0, true, by simp [hc], by simp [hcused]⟩

/-- A round of the loop on block 0, with a port that does not take all packets. -/
theorem Stock.sendOnce (h : Stock cfg s m used) (hcdq : cfg.cdq = true) (hn : n ≤ 1) (hlt : n < m)
    (hm : m ≤ peekSize) (hused : n = 0 ∨ used < ctrlBatchSize) :
    ∃ s', s.sendOnce cfg 0 (n, 0) = .ok (s', some true) ∧ Stock cfg s' (m - n) (used + n) ∧
      s'.Primed := by
  have h0 : 0 < maxAvailabeFlows := by decide
  obtain ⟨b, hprime, hbwf, hbcont, htail⟩ := (h.table.wf 0 h0).prime_spec
  rw [h.stored, min_eq_right hm] at hprime htail
  have hlen : (b.peek.take m).length = m := by
    rw [List.length_take, hbwf.length_peek, min_eq_left hm]
  have hring : b.ringQueue.contents = [] := hbwf.ring_eq_nil (by rw [htail, hbcont, h.stored])
  obtain ⟨c, sentCtrl, hsend, hc⟩ := sendPacket_one (s := s.setBuffer 0 b) (i := 0) hcdq hn
    (hlen.symm ▸ hlt.le) (by rw [← h.used] at hused; exact hused)
  obtain ⟨b', hb', hring', heq⟩ := sendOnce_of_sendPacket h.table h0 hprime hbwf hbcont htail
    (by omega) hlt.le hsend
  refine ⟨s.drained 0 n b' c, by simp [heq, hlt], ⟨tableInv_drained h.table h0 hb', h.mapped,
    h.high, h.low, ?_, ?_, ?_⟩, ?_⟩
  · simp [drained, hb'.contents_eq, h.stored]
  · have hlt64 := (h.table.wf 0 h0).length_lt
    rw [h.stored] at hlt64
    change wsub 64 s.countPacketsInBuffer n = m - n
    rw [h.count, wsub_of_le hlt.le (by omega)]
  · exact hc.trans (congrArg (· + n) h.used)
  · simp [Primed, drained, hring', hring]

/-- The flush at the start of `RunTask`. -/
theorem Stock.flush (h : Stock cfg s m used) :
    Stock cfg { s with ctrl := s.flushedCtrl cfg 0 } m used := by
  refine ⟨h.table, h.mapped, h.high, h.low, h.stored, h.count, ?_⟩
  unfold flushedCtrl
  split_ifs
  · rw [CtrlBatch.used_tryFlush_zero, h.used]
  · exact h.used

/-- `RunTask` with a port that takes at most one packet, and no control packet. -/
theorem Stock.runTask (h : Stock cfg s m used) (now : ℕ) (hcdq : cfg.cdq = true)
    (hper : cfg.perFlowBuffering = true) (hn : n ≤ 1) (hlt : n < m) (hm : m ≤ peekSize)
    (hused : n = 0 ∨ used < ctrlBatchSize) :
    ∃ s', s.call cfg (.runTask now 0 [(n, 0)]) = .ok s' ∧ Stock cfg s' (m - n) (used + n) ∧
      s'.Primed := by
  obtain ⟨v, hv⟩ : ∃ v : QueueOut, v = { s with ctrl := s.flushedCtrl cfg 0 } := ⟨_, rfl⟩
  have hflush : Stock cfg v m used := hv ▸ h.flush
  obtain ⟨s', hsend, hstock, hprimed⟩ := hflush.sendOnce hcdq hn hlt hm hused
  have hresume := SameStore.resume cfg s' now 0
  refine ⟨s'.resume cfg now 0, ?_, hstock.sameStore hresume (ctrl_resume ..), ?_⟩
  · have hpos : 0 < s.countPacketsInBuffer := by rw [h.count]; omega
    rw [call, if_pos hper, runTask_eq, if_pos hpos, ← hv]
    simp only [trySendBufferPFQ, hflush.high, visitFlows, hflush.low, sendFlow, hsend,
      Except.mapError]
  · rw [Primed, hresume.buffers_eq]
    exact hprimed

/-- `RunTask` with a packet to send when no control packet is left. -/
theorem Stock.runTask_limit (h : Stock cfg s m ctrlBatchSize) (now : ℕ) (hcdq : cfg.cdq = true)
    (hper : cfg.perFlowBuffering = true) (hpos : 0 < m) :
    s.call cfg (.runTask now 0 [(1, 0)]) = .error (.fatal (.ctrl .ctrlBatchLimit)) := by
  obtain ⟨v, hv⟩ : ∃ v : QueueOut, v = { s with ctrl := s.flushedCtrl cfg 0 } := ⟨_, rfl⟩
  have hflush : Stock cfg v m ctrlBatchSize := hv ▸ h.flush
  have h0 : 0 < maxAvailabeFlows := by decide
  obtain ⟨b, hprime, hbwf, -, -⟩ := (hflush.table.wf 0 h0).prime_spec
  have hk : 0 < min peekSize (v.buffers 0).contents.length := by
    rw [hflush.stored]
    exact lt_min (by decide) hpos
  have hsend : (v.setBuffer 0 b).sendPacket cfg 0
      (b.peek.take (min peekSize (v.buffers 0).contents.length)) (1, 0) =
      .error (.ctrl .ctrlBatchLimit) := by
    have hsent : 0 < min 1 (b.peek.take (min peekSize (v.buffers 0).contents.length)).length := by
      rw [List.length_take, hbwf.length_peek]
      omega
    have hfull : ctrlBatchSize ≤ (v.setBuffer 0 b).ctrl.ctrlBatchUsed := hflush.used.ge
    simp only [sendPacket, hsent, hcdq, and_self, if_true, CtrlBatch.sendCtrlPkt_of_le hfull]
  have hpos' : 0 < s.countPacketsInBuffer := by rw [h.count]; exact hpos
  rw [call, if_pos hper, runTask_eq, if_pos hpos', ← hv]
  simp only [trySendBufferPFQ, hflush.high, visitFlows, hflush.low, sendFlow, QueueOut.sendOnce,
    hflush.table.bufferOf_eq h0, hprime, if_neg hk.ne', hsend, Except.mapError]

end Stock

/-- The first lookup gives block 0 to the flow. -/
theorem getFlowState_withBuffers (cfg : QueueOutConfig) (b : PktBuffer Packet) (now : ℕ) :
    ∃ t, (withBuffers b).getFlowState cfg now default = .ok (t, 0) ∧
      t.prioQueue 0 = [] ∧ t.prioQueue 1 = [0] ∧ t.buffers = fun _ => b := by
  obtain ⟨u, hu⟩ : ∃ u : FlowTable, u = { withBuffers b with
    lastVisit := Function.update (withBuffers b).lastVisit
      ((withBuffers b).chooseQueue cfg) now } :=
    ⟨_, rfl⟩
  have hfind : u.findBlock cfg now maxAvailabeFlows (wadd 32 u.fspTop 1 % maxAvailabeFlows) =
      .ok 0 := by
    subst hu
    rw [show wadd 32 (withBuffers b).fspTop 1 % maxAvailabeFlows = 0 from
      show wadd 32 (2 ^ 32 - 1) 1 % 256 = 0 by unfold wadd; decide]
    rfl
  have hnone : (withBuffers b).flowBufferMapping.lookup (default : Flow).toFlowTuple = none := rfl
  refine ⟨u.allocate cfg now default ((withBuffers b).chooseQueue cfg) 0, ?_, ?_, ?_, ?_⟩
  · subst hu
    simp only [getFlowState, hnone, hfind]
  all_goals
    subst hu
    rfl

section Limit

variable {s₀ : QueueOut} (hcdq : cfg.cdq = true) (hbuf : cfg.buffering = true)
  (hper : cfg.perFlowBuffering = true) (hpow : Llring.PowTwo cfg.maxBufferSize)
  (hsize : 2 ≤ cfg.maxBufferSize) (h₀ : init cfg = some s₀)

/-- The state is reached by calls of the module. -/
def Reached (cfg : QueueOutConfig) (s₀ s : QueueOut) : Prop :=
  Run.ReachIf (QueueOut.call cfg) (fun _ _ => true) s₀ s

theorem Reached.call {op : Op} (h : Reached cfg s₀ s) (hok : s.call cfg op = .ok s') :
    Reached cfg s₀ s' :=
  Relation.ReflTransGen.tail h ⟨op, rfl, hok⟩

include hbuf hper hpow h₀ in
theorem exists_first_stock (hlimit : 0 < ctrlBatchSize - 1) (hsize : 2 ≤ cfg.maxBufferSize) :
    ∃ s, Reached cfg s₀ s ∧ Stock cfg s 1 0 := by
  obtain ⟨t₀, ht₀, hs₀⟩ := Option.map_eq_some_iff.1 h₀
  have htable₀ := TableInv.setup hbuf hpow ht₀
  obtain ⟨b, rfl⟩ := setup_eq_some ht₀
  have hempty : b.contents = [] := htable₀.empty 0 (by decide) rfl
  obtain ⟨t, hget, hhigh, hlow, hbuffers⟩ := getFlowState_withBuffers cfg b 0
  obtain ⟨htable, hl⟩ := htable₀.getFlowState hper hget
  have hfirst : Stock cfg { s₀ with toFlowTable := t } 0 0 :=
    ⟨htable, hl.found, hhigh, hlow, by simp [hbuffers, hempty], by rw [← hs₀], by rw [← hs₀]; rfl⟩
  obtain ⟨s, hok, hs⟩ := Stock.processBatch (s := s₀) (by rw [← hs₀]; exact hget) hfirst
    (by simpa [Primed, hbuffers] using (List.append_eq_nil_iff.1 hempty).2) hbuf hsize hlimit
  exact ⟨s, Reached.call .refl hok, hs⟩

include hcdq hbuf hper hsize in
/-- One more packet for the flow, and a `RunTask` that sends at most one. -/
theorem Stock.round {m n used : ℕ} (h : Stock cfg s m used) (hs : Reached cfg s₀ s)
    (hprimed : s.Primed) (hn : n ≤ 1) (hm : n ≤ m) (hle : m + 1 ≤ peekSize)
    (hused : used < ctrlBatchSize - 1) :
    ∃ s', Reached cfg s₀ s' ∧ Stock cfg s' (m + 1 - n) (used + n) ∧ s'.Primed := by
  have hget : s.toFlowTable.getFlowState cfg 0 default =
      .ok ({ s.toFlowTable with
        lastVisit := Function.update s.lastVisit (s.flowStatePool 0).qid 0 }, 0) := by
    simp only [getFlowState, h.mapped]
  have hvisited : Stock cfg { s with
      lastVisit := Function.update s.lastVisit (s.flowStatePool 0).qid 0 } m used :=
    ⟨h.table.visit _, h.mapped, h.high, h.low, h.stored, h.count, h.used⟩
  obtain ⟨s₁, hok₁, h₁⟩ := Stock.processBatch hget hvisited hprimed hbuf hsize hused
  obtain ⟨s₂, hok₂, h₂, hprimed₂⟩ := h₁.runTask 0 hcdq hper hn (by omega) hle
    (.inr (by omega))
  exact ⟨s₂, (hs.call hok₁).call hok₂, h₂, hprimed₂⟩

include hcdq hbuf hper hpow hsize h₀ in
/-- **A port that takes data packets and no control packets** fills the control batch, with two
packets left in the buffer. -/
theorem exists_stock (used : ℕ) (hused : used ≤ ctrlBatchSize - 1)
    (hlimit : 0 < ctrlBatchSize - 1) :
    ∃ s, Reached cfg s₀ s ∧ Stock cfg s 2 used ∧ s.Primed := by
  induction used with
  | zero =>
    obtain ⟨s₁, hs₁, h₁⟩ := exists_first_stock hbuf hper hpow h₀ hlimit hsize
    obtain ⟨s₂, hok₂, h₂, hprimed₂⟩ := h₁.runTask (n := 0) 0 hcdq hper (by decide)
      (by decide) (by decide) (.inl rfl)
    obtain ⟨s₃, hs₃, h₃, hprimed₃⟩ := h₂.round (n := 0) hcdq hbuf hper hsize (hs₁.call hok₂)
      hprimed₂ (by decide) (by decide) (by decide) hlimit
    exact ⟨s₃, hs₃, h₃, hprimed₃⟩
  | succ used ih =>
    obtain ⟨s, hs, h, hprimed⟩ := ih (by omega)
    exact h.round (n := 1) hcdq hbuf hper hsize hs hprimed (by decide) (by decide) (by decide)
      (by omega)

include hcdq hbuf hper hpow hsize h₀ in
/-- With per-flow buffers of two slots or more the limit is reached. -/
theorem exists_limit :
    ∃ s op, Reached cfg s₀ s ∧ s.call cfg op = .error (.fatal (.ctrl .ctrlBatchLimit)) := by
  have hlimit : 0 < ctrlBatchSize - 1 := by unfold ctrlBatchSize; decide
  obtain ⟨s, hs, h, -⟩ := exists_stock hcdq hbuf hper hpow hsize h₀ _ le_rfl hlimit
  obtain ⟨s₁, hok₁, h₁, -⟩ := h.runTask (n := 1) 0 hcdq hper (by decide) (by decide)
    (by decide) (.inr (by omega))
  rw [show ctrlBatchSize - 1 + 1 = ctrlBatchSize by omega] at h₁
  exact ⟨s₁, _, hs.call hok₁, h₁.runTask_limit 0 hcdq hper (by decide)⟩

end Limit

end QueueOut

end Backdraft

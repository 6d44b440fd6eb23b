import Backdraft.FlowHash
import Backdraft.QueueOut.Effects

/-!
# Paused flows and the shared table

A block with `is_paused` set holds packets, and the shared table has rate 0 for its flow.  For
every other flow the table has no entry or the rate of a resumption.  `is_paused` is not written
when a block is reclaimed or given to a flow; but a block is reclaimed when its buffer is empty
only, and then it is not paused.  All this is so as long as the hash maps refuse no flow; neither
`GetFlowState` nor `PauseFlow` looks at what `Insert` returns.

* `Agrees`: what the table has for a flow; `PauseInv`: the invariant;
* `agrees_setPaused`: pausing and resuming write the block and the table together;
* `PauseInv.visit`: a block that was emptied is resumed in the same visit;
* `pause_agrees`: the result for every run without a refusal;
* `paused_without_entry`: the ninth of nine flows with one hash.
-/

namespace Backdraft

open Word

/-- A lookup leaves `is_paused` of all blocks as it is. -/
theorem FlowTable.isPaused_getFlowState {cfg : QueueOutConfig} {t t' : FlowTable} {now i : ℕ}
    {flow : Flow} (h : t.getFlowState cfg now flow = .ok (t', i)) (j : ℕ) :
    (t'.flowStatePool j).isPaused = (t.flowStatePool j).isPaused := by
  have hassign : ∀ (u : FlowTable) qid, ((u.assign cfg now flow qid i).flowStatePool j).isPaused =
      (u.flowStatePool j).isPaused :=
    fun u qid => field_update FlowState.isPaused (by rfl) j
  have hdealloc : ∀ (u : FlowTable) g, ((u.deallocateFlowState cfg g).flowStatePool j).isPaused =
      (u.flowStatePool j).isPaused := by
    intro u g
    unfold deallocateFlowState
    cases hlook : u.flowBufferMapping.lookup g.toFlowTuple with
    | none => rfl
    | some k => exact field_update FlowState.isPaused (by rfl) j
  obtain ⟨-, rfl⟩ | ⟨-, u, qid, -, rfl, -, rfl⟩ := getFlowState_eq_ok h
  · rfl
  · unfold allocate
    split_ifs
    · rw [hassign, hdealloc]
    · rw [hassign]

namespace QueueOut

variable {cfg : QueueOutConfig} {s s' u : QueueOut} {now i n : ℕ} {b : PktBuffer Packet}
  {c : CtrlBatch} {batch : List Packet} {f : FlowTuple}

/-- A block is in use by the flow, and it is paused. -/
def PausedFlow (s : QueueOut) (f : FlowTuple) : Prop :=
  ∃ i < maxAvailabeFlows, (s.flowStatePool i).inUse = true ∧
    (s.flowStateFlowId i).toFlowTuple = f ∧ (s.flowStatePool i).isPaused = true

/-- The shared table has rate 0 for a paused flow, and for any other no entry or the rate of a
resumption. -/
structure Agrees (s : QueueOut) (f : FlowTuple) : Prop where
  paused : s.PausedFlow f → ∃ e, s.dpCtrl.flowBook.lookup f = some e ∧ e.rate = 0
  resumed : ¬ s.PausedFlow f → ∀ e, s.dpCtrl.flowBook.lookup f = some e → e.rate = 100000000

theorem Agrees.congr (h : s.Agrees f) (hpaused : u.PausedFlow f ↔ s.PausedFlow f)
    (hbook : u.dpCtrl.flowBook.lookup f = s.dpCtrl.flowBook.lookup f) : u.Agrees f := by
  constructor
  · rw [hpaused, hbook]; exact h.paused
  · rw [hpaused, hbook]; exact h.resumed

/-- Setting `is_paused` of a block together with the entry of its flow. -/
theorem agrees_setPaused {ts rate : ℕ} {paused : Bool} (h : ∀ f, s.Agrees f)
    (hbook : s.dpCtrl.flowBook.Accepts) (hi : i < maxAvailabeFlows)
    (hin : (s.flowStatePool i).inUse = true)
    (honly : ∀ j < maxAvailabeFlows, (s.flowStatePool j).inUse = true →
      (s.flowStateFlowId j).toFlowTuple = (s.flowStateFlowId i).toFlowTuple → j = i)
    (hrate : rate = if paused then 0 else 100000000) (f : FlowTuple) :
    Agrees { s with
      dpCtrl := s.dpCtrl.pauseFlow ts rate (s.flowStateFlowId i)
      flowStatePool := Function.update s.flowStatePool i
        { s.flowStatePool i with isPaused := paused } } f := by
  have hinUse : ∀ j, (Function.update s.flowStatePool i
      { s.flowStatePool i with isPaused := paused } j).inUse = (s.flowStatePool j).inUse :=
    FlowTable.field_update FlowState.inUse (by rfl)
  have hentry := SwDpCtrl.lookup_pauseFlow hbook ts rate (s.flowStateFlowId i) f
  by_cases hf : f = (s.flowStateFlowId i).toFlowTuple
  · subst hf
    rw [if_pos rfl] at hentry
    cases paused with
    | true =>
      refine ⟨fun _ => ⟨_, hentry, hrate⟩, fun hnot => absurd ⟨i, hi, ?_, rfl, by simp⟩ hnot⟩
      rw [hinUse]
      exact hin
    | false =>
      refine ⟨fun ⟨j, hj, hjin, hflow, hpaused⟩ => ?_, fun _ e he => ?_⟩
      · obtain rfl := honly j hj (hinUse j ▸ hjin) hflow
        simp at hpaused
      · obtain rfl : e = ⟨ts, rate⟩ := Option.some.inj (he.symm.trans hentry)
        exact hrate
  · rw [if_neg hf] at hentry
    refine (h f).congr ?_ hentry
    -- the blocks of the flow are others, which are as they were
    refine exists_congr fun j => and_congr_right fun _ => ?_
    simp only [hinUse]
    refine and_congr_right fun _ => and_congr_right fun hflow => ?_
    have hji : j ≠ i := by
      rintro rfl
      exact hf hflow.symm
    simp [hji]

/-- The invariant. -/
structure PauseInv (cfg : QueueOutConfig) (s : QueueOut) : Prop where
  table : s.toFlowTable.TableInv cfg
  count_lt : s.countPacketsInBuffer < 2 ^ 64
  nonempty : ∀ i < maxAvailabeFlows, (s.flowStatePool i).isPaused = true →
    (s.buffers i).contents ≠ []
  agrees : ∀ f, s.Agrees f
  accepts : s.dpCtrl.flowBook.Accepts

namespace PauseInv

/-- The invariant is about the flow table, the counter and the shared table only. -/
theorem congr (h : PauseInv cfg s) (htable : u.toFlowTable = s.toFlowTable)
    (hcount : u.countPacketsInBuffer = s.countPacketsInBuffer) (hbook : u.dpCtrl = s.dpCtrl) :
    PauseInv cfg u := by
  refine ⟨htable ▸ h.table, hcount ▸ h.count_lt, ?_, fun f => (h.agrees f).congr ?_ (by rw [hbook]),
    hbook ▸ h.accepts⟩
  · rw [htable]; exact h.nonempty
  · rw [PausedFlow, PausedFlow, htable]

/-- A block that holds packets is in use. -/
theorem inUse_of_ne (h : PauseInv cfg s) (hi : i < maxAvailabeFlows)
    (hne : (s.buffers i).contents ≠ []) : (s.flowStatePool i).inUse = true := by
  by_contra hfree
  exact hne (h.table.empty i hi (by simpa using hfree))

/-- No other block is in use by its flow. -/
theorem eq_of_flow (h : s.toFlowTable.TableInv cfg) (hi : i < maxAvailabeFlows)
    (hin : (s.flowStatePool i).inUse = true) (j : ℕ) (hj : j < maxAvailabeFlows)
    (hjin : (s.flowStatePool j).inUse = true)
    (hflow : (s.flowStateFlowId j).toFlowTuple = (s.flowStateFlowId i).toFlowTuple) : j = i :=
  Option.some.inj (((h.map_iff _ j).2 ⟨hj, hjin, hflow⟩).symm.trans
    ((h.map_iff _ i).2 ⟨hi, hin, rfl⟩))

/-- After a block was sent from, a paused flow is resumed or its buffer is not empty. -/
theorem visit (h : PauseInv cfg s) (hbp : cfg.backpressure = true) (hi : i < maxAvailabeFlows)
    (hb : Remains cfg s i n b) : PauseInv cfg ((s.drained i n b c).resume cfg now i) := by
  have htable : (s.drained i n b c).toFlowTable.TableInv cfg := tableInv_drained h.table hi hb
  have hself : (s.drained i n b c).buffers i = b := Function.update_self ..
  have hcount : ((s.drained i n b c).bufferOf i).pktbufferCount = b.contents.length := by
    rw [htable.bufferOf_eq hi, hself, hb.wf.count_eq]
  have hother : ∀ j < maxAvailabeFlows, j ≠ i → (s.flowStatePool j).isPaused = true →
      ((s.drained i n b c).buffers j).contents ≠ [] := by
    intro j hj hji hpaused
    simpa [drained, hji] using h.nonempty j hj hpaused
  have hresumed := (SameStore.resume cfg (s.drained i n b c) now i).tableInv htable
  unfold resume at hresumed ⊢
  rw [hcount] at hresumed ⊢
  by_cases hcond : cfg.backpressure = true ∧
      ((s.drained i n b c).flowStatePool i).isPaused = true ∧
      b.contents.length ≤ (s.drained i n b c).bufferLenLowWater
  · rw [if_pos hcond] at hresumed ⊢
    have hin := h.inUse_of_ne hi (h.nonempty i hi hcond.2.1)
    refine ⟨hresumed, wsub_lt _ _, fun j hj hpaused => ?_, ?_, h.accepts.insert _ _⟩
    · by_cases hji : j = i
      · subst hji; simp at hpaused
      · exact hother j hj hji (by simpa [drained, hji] using hpaused)
    · exact agrees_setPaused (s := s.drained i n b c) (fun f => (h.agrees f).congr Iff.rfl rfl)
        h.accepts hi hin (eq_of_flow htable hi hin) rfl
  · rw [if_neg hcond]
    refine ⟨htable, wsub_lt _ _, fun j hj hpaused => ?_, fun f => (h.agrees f).congr Iff.rfl rfl,
      h.accepts⟩
    by_cases hji : j = i
    · subst hji
      rw [hself]
      rintro hnil
      exact hcond ⟨hbp, hpaused, by simp [hnil]⟩
    · exact hother j hj hji hpaused

/-- A lookup changes neither what is paused nor the table; a block that is given to another flow
was not paused. -/
theorem looked {t : FlowTable} {flow : Flow} (h : PauseInv cfg s) (htable : t.TableInv cfg)
    (hl : FlowTable.Looked s.toFlowTable t flow i) : PauseInv cfg { s with toFlowTable := t } := by
  have hnonempty : ∀ j < maxAvailabeFlows, (t.flowStatePool j).isPaused = true →
      (s.buffers j).contents ≠ [] :=
    fun j hj hpaused => h.nonempty j hj (hl.paused_eq j ▸ hpaused)
  refine ⟨htable, h.count_lt, fun j hj hpaused => ?_, fun f => (h.agrees f).congr ?_ rfl,
    h.accepts⟩
  · change (t.buffers j).contents ≠ []
    rw [hl.contents_eq j hj]
    exact hnonempty j hj hpaused
  · constructor
    · rintro ⟨j, hj, hin, hflow, hpaused⟩
      obtain ⟨-, hin', hflow'⟩ := (h.table.map_iff f j).1 ((hl.lookup_iff h.table htable
        (hnonempty j hj hpaused)).1 ((htable.map_iff f j).2 ⟨hj, hin, hflow⟩))
      exact ⟨j, hj, hin', hflow', hl.paused_eq j ▸ hpaused⟩
    · rintro ⟨j, hj, hin, hflow, hpaused⟩
      obtain ⟨-, hin', hflow'⟩ := (htable.map_iff f j).1 ((hl.lookup_iff h.table htable
        (h.nonempty j hj hpaused)).2 ((h.table.map_iff f j).2 ⟨hj, hin, hflow⟩))
      exact ⟨j, hj, hin', hflow', (hl.paused_eq j).trans hpaused⟩

/-- Packets enter a buffer. -/
theorem stocked (h : PauseInv cfg s) (hin : (s.flowStatePool i).inUse = true)
    (hb : Extends cfg s i n b batch) : PauseInv cfg (s.stocked i n b batch) := by
  refine ⟨tableInv_stocked h.table hin hb, wadd_lt _ _, fun j hj hpaused => ?_,
    fun f => (h.agrees f).congr Iff.rfl rfl, h.accepts⟩
  have hne := h.nonempty j hj hpaused
  by_cases hji : j = i
  · subst hji
    simp [QueueOut.stocked, hb.contents_eq, hne]
  · simpa [QueueOut.stocked, hji] using hne

theorem overlay (h : PauseInv cfg s) (now i duration : ℕ) :
    PauseInv cfg (s.overlay cfg now i duration) := by
  have hsame := SameStore.overlay cfg s now i duration
  -- the fields written are others
  have hpaused : ∀ j, ((s.overlay cfg now i duration).flowStatePool j).isPaused =
      (s.flowStatePool j).isPaused := by
    intro j
    unfold QueueOut.overlay
    split_ifs
    · exact FlowTable.field_update FlowState.isPaused (by rfl) j
    · rfl
  have hbook : (s.overlay cfg now i duration).dpCtrl = s.dpCtrl := by
    unfold QueueOut.overlay
    split_ifs <;> rfl
  refine ⟨hsame.tableInv h.table, hsame.count_eq ▸ h.count_lt, fun j hj hj' => ?_,
    fun f => (h.agrees f).congr ?_ (by rw [hbook]), hbook ▸ h.accepts⟩
  · rw [hsame.buffers_eq]
    exact h.nonempty j hj (hpaused j ▸ hj')
  · simp only [PausedFlow, hsame.flow_eq, (hsame.block_eq _).2.2, hpaused]

/-- A flow is paused when its buffer is long, so not when it is empty. -/
theorem backpressure (h : PauseInv cfg s) (hper : cfg.perFlowBuffering = true)
    (hi : i < maxAvailabeFlows) (now : ℕ) : PauseInv cfg (s.backpressure cfg now i) := by
  have htable := (SameStore.backpressure cfg s now i).tableInv h.table
  unfold QueueOut.backpressure at htable ⊢
  by_cases hcond : cfg.backpressure = true ∧
      s.bpBufferLenHighWater < (s.bufferOf i).pktbufferCount
  · rw [if_pos hcond, if_pos hper] at htable ⊢
    have hlen := hcond.2
    rw [h.table.bufferOf_eq hi, (h.table.wf i hi).count_eq] at hlen
    have hne : (s.buffers i).contents ≠ [] := List.ne_nil_of_length_pos (by omega)
    have hin := h.inUse_of_ne hi hne
    refine ⟨htable, h.count_lt, fun j hj hpaused => ?_, ?_, h.accepts.insert _ _⟩
    · by_cases hji : j = i
      · subst hji; exact hne
      · exact h.nonempty j hj (by simpa [pause, hji] using hpaused)
    · unfold pause
      rw [h.table.flowId_eq i hi]
      exact agrees_setPaused h.agrees h.accepts hi hin (eq_of_flow h.table hi hin) rfl
  · rw [if_neg hcond]
    exact h

theorem init (hbuf : cfg.buffering = true) (hpow : Llring.PowTwo cfg.maxBufferSize)
    (h : QueueOut.init cfg = some s) : PauseInv cfg s := by
  obtain ⟨t, ht, rfl⟩ := Option.map_eq_some_iff.1 h
  have htable := FlowTable.TableInv.setup hbuf hpow ht
  obtain ⟨b, rfl⟩ := FlowTable.setup_eq_some ht
  refine ⟨htable, Nat.two_pow_pos 64, fun j _ hpaused => ?_,
    fun f => ⟨fun ⟨j, _, hin, _⟩ => ?_, ?_⟩, HashTable.accepts_empty⟩
  · simp [FlowTable.withBuffers] at hpaused
  · simp [FlowTable.withBuffers] at hin
  · intro _ e he
    simp [SwDpCtrl.init] at he

/-- **A call keeps the invariant.** -/
theorem step {op : Op} (h : PauseInv cfg s) (hbuf : cfg.buffering = true)
    (hper : cfg.perFlowBuffering = true) (hbp : cfg.backpressure = true)
    (hok : s.step cfg op = .ok s') : PauseInv cfg s' := by
  cases op with
  | processBatch now adminUp batch accept duration =>
    obtain ⟨c, rfl⟩ | ⟨c, t, i, hget, hcase⟩ := processBatch_cases hok
    · exact h.congr rfl rfl rfl
    · obtain ⟨htable, hl⟩ := h.table.getFlowState hper hget
      obtain ⟨-, rfl⟩ | ⟨hlossy, -⟩ := hcase
      · have hstart : PauseInv cfg
            { s with toFlowTable := t, received := s.received ++ batch, ctrl := c } :=
          (h.looked htable hl).congr rfl rfl rfl
        obtain ⟨n, b, hb, heq⟩ := bufferBatch_eq hstart.table hl.lt batch
        rw [heq]
        have hin := ((htable.map_iff _ i).1 hl.found).2.1
        exact ((hstart.stocked hin hb).overlay now i duration).backpressure hper hl.lt now
      · exact absurd (hbuf.symm.trans hlossy) (by decide)
  | runTask now ctrlAccept accepts =>
    refine runTask_induction (P := PauseInv cfg) (fun u hu => ⟨hu.table, hu.count_lt⟩)
      (fun u i n b c hu hi hb => hu.visit hbp hi hb) (fun u c hu => ?_) h hok
    exact hu.congr rfl rfl rfl
  | setOverlayThreshold lowWater highWater =>
    cases hok
    exact h.congr rfl rfl rfl
  | setBackpressureThreshold threshold =>
    cases hok
    exact h.congr rfl rfl rfl

end PauseInv

/-! ### Without buffering -/

/-- Without buffering no flow is ever paused. -/
structure NeverPaused (s : QueueOut) : Prop where
  count_eq : s.countPacketsInBuffer = 0
  paused_eq : ∀ i, (s.flowStatePool i).isPaused = false
  book_eq : s.dpCtrl = SwDpCtrl.init

theorem NeverPaused.init (h : QueueOut.init cfg = some s) : s.NeverPaused := by
  obtain ⟨t, ht, rfl⟩ := Option.map_eq_some_iff.1 h
  obtain ⟨b, rfl⟩ := FlowTable.setup_eq_some ht
  exact ⟨rfl, fun _ => rfl, rfl⟩

theorem NeverPaused.step {op : Op} (h : s.NeverPaused) (hbuf : cfg.buffering = false)
    (hok : s.step cfg op = .ok s') : s'.NeverPaused := by
  cases op with
  | processBatch now adminUp batch accept duration =>
    obtain ⟨c, rfl⟩ | ⟨c, t, i, hget, hcase⟩ := processBatch_cases hok
    · exact ⟨h.count_eq, h.paused_eq, h.book_eq⟩
    · obtain ⟨hbuf', -⟩ | ⟨-, n, rfl⟩ := hcase
      · exact absurd (hbuf.symm.trans hbuf') (by decide)
      · exact ⟨h.count_eq, fun j => (FlowTable.isPaused_getFlowState hget j).trans (h.paused_eq j),
          h.book_eq⟩
  | runTask now ctrlAccept accepts =>
    -- the buffers are never sent from
    have hzero : ¬ 0 < s.countPacketsInBuffer := by rw [h.count_eq]; omega
    simp only [QueueOut.step, runTask] at hok
    split_ifs at hok
    · cases hok; exact ⟨h.count_eq, h.paused_eq, h.book_eq⟩
    · cases hok; exact h
  | setOverlayThreshold lowWater highWater =>
    cases hok; exact ⟨h.count_eq, h.paused_eq, h.book_eq⟩
  | setBackpressureThreshold threshold =>
    cases hok; exact ⟨h.count_eq, h.paused_eq, h.book_eq⟩

/-! ### Every run -/

/-- **Paused flows.**  In every run in which no `Insert` is refused, a block that is paused has
packets in its buffer, a block that is not in use is not paused, the shared table agrees with the
blocks for every flow, and a flow that gets a block gets one that is not paused. -/
theorem pause_agrees {s₀ : QueueOut} {refuses refuses' : ℕ → Bool}
    (hper : cfg.perFlowBuffering = true) (hbp : cfg.backpressure = true)
    (hpow : cfg.buffering = true → Llring.PowTwo cfg.maxBufferSize)
    (h₀ : QueueOut.init cfg = some s₀)
    (hmapping : ∀ n, refuses n = false) (hbook : ∀ n, refuses' n = false)
    (hs : Run.ReachIf (step cfg) (fun _ _ => true) (s₀.answering refuses refuses') s) :
    (∀ i < maxAvailabeFlows, (s.flowStatePool i).isPaused = true → (s.bufferOf i).contents ≠ []) ∧
    (∀ i < maxAvailabeFlows, (s.flowStatePool i).inUse = false →
      (s.flowStatePool i).isPaused = false) ∧
    (∀ f : Flow, s.Agrees f.toFlowTuple) ∧
    (∀ now flow t i, s.toFlowTable.getFlowState cfg now flow = .ok (t, i) →
      s.flowBufferMapping.lookup flow.toFlowTuple = none →
        (t.flowStatePool i).isPaused = false) := by
  obtain rfl : refuses = fun _ => false := funext hmapping
  obtain rfl : refuses' = fun _ => false := funext hbook
  rw [answering_accepting h₀] at hs
  cases hbuf : cfg.buffering with
  | true =>
    have h : PauseInv cfg s := hs.invariant (P := PauseInv cfg)
      (PauseInv.init hbuf (hpow hbuf) h₀) fun u op v hu _ hok => hu.step hbuf hper hbp hok
    -- an empty buffer belongs to a block that is not paused
    have hempty : ∀ i < maxAvailabeFlows, (s.buffers i).contents = [] →
        (s.flowStatePool i).isPaused = false := by
      intro i hi hnil
      by_contra hpaused
      exact h.nonempty i hi (by simpa using hpaused) hnil
    refine ⟨fun i hi hpaused => ?_, fun i hi hfree => hempty i hi (h.table.empty i hi hfree),
      fun f => h.agrees _, fun now flow t i hget hnone => ?_⟩
    · rw [h.table.bufferOf_eq hi]
      exact h.nonempty i hi hpaused
    · obtain ⟨-, hl⟩ := h.table.getFlowState hper hget
      rw [hl.paused_eq i]
      exact hempty i hl.lt (hl.empty (by rw [hnone]; simp))
  | false =>
    have h : s.NeverPaused := hs.invariant (P := NeverPaused)
      (NeverPaused.init h₀) fun u op v hu _ hok => hu.step hbuf hok
    refine ⟨fun i _ hpaused => absurd (hpaused.symm.trans (h.paused_eq i)) (by decide),
      fun i _ _ => h.paused_eq i, fun f => ⟨?_, fun _ e he => ?_⟩, fun now flow t i hget _ => ?_⟩
    · rintro ⟨j, -, -, -, hpaused⟩
      exact absurd (hpaused.symm.trans (h.paused_eq j)) (by decide)
    · simp [h.book_eq, SwDpCtrl.init] at he
    · exact (FlowTable.isPaused_getFlowState hget i).trans (h.paused_eq i)

/-- The flow to port 80 is paused, the flow to port 50 was paused and is resumed when its buffer
is empty. -/
theorem pause_agrees_two_flows :
    ∃ s₀ s, QueueOut.init (FlowTable.perFlowConfig 4) = some s₀ ∧
      Run.ReachIf (step (FlowTable.perFlowConfig 4)) (fun _ _ => true)
        (s₀.answering (fun _ => false) fun _ => false) s ∧
      ((s.flowStatePool 0).isPaused = true ∧ (s.flowStatePool 1).isPaused = false ∧
        s.dpCtrl.getFlowStatus (FlowTable.udpTo 80) = ⟨10000000006, 0⟩ ∧
        s.dpCtrl.getFlowStatus (FlowTable.udpTo 50) = ⟨8, 100000000⟩) ∧
      (∀ i < maxAvailabeFlows, (s.flowStatePool i).isPaused = true →
        (s.bufferOf i).contents ≠ []) ∧
      (∀ f : Flow, s.Agrees f.toFlowTuple) := by
  have hrun : ((QueueOut.init (FlowTable.perFlowConfig 4)).bind fun s₀ =>
      (Run.exec (step (FlowTable.perFlowConfig 4)) (fun _ _ => true)
        (s₀.answering (fun _ => false) fun _ => false)
        [.setBackpressureThreshold 1,
          .processBatch 6 true [⟨1, FlowTable.udpTo 80⟩, ⟨2, FlowTable.udpTo 80⟩] (0, 0) 0,
          .processBatch 7 true [⟨3, FlowTable.udpTo 50⟩, ⟨4, FlowTable.udpTo 50⟩] (0, 0) 0,
          .runTask 8 0 [(2, 0), (0, 0)]]).map fun s =>
      decide ((s.flowStatePool 0).isPaused = true ∧ (s.flowStatePool 1).isPaused = false ∧
        s.dpCtrl.getFlowStatus (FlowTable.udpTo 80) = ⟨10000000006, 0⟩ ∧
        s.dpCtrl.getFlowStatus (FlowTable.udpTo 50) = ⟨8, 100000000⟩)) = some true := by
    decide +kernel
  obtain ⟨s₀, s, h₀, hreach, hdec⟩ := Run.exists_init_reachIf _ hrun
  obtain ⟨hpaused, -, hagrees, -⟩ :=
    pause_agrees rfl rfl (fun _ => ⟨2, by decide, rfl⟩) h₀ (fun _ => rfl) (fun _ => rfl) hreach
  exact ⟨s₀, s, h₀, hreach, of_decide_eq_true hdec, hpaused, hagrees⟩

/-! ### A flow that the maps refuse -/

/-- Two packets of the `n`-th of the flows with one hash. -/
def sameHashBatch (n : ℕ) : Op :=
  .processBatch (n + 1) true [⟨2 * n, sameHashFlow n⟩, ⟨2 * n + 1, sameHashFlow n⟩] (0, 0) 0

/-- **A paused flow without an entry.**  Nine flows with one hash come and are paused, each with its
first batch.  The map of the blocks and the shared table are cuckoo maps, which take eight of them;
the block of the ninth is paused and holds its packets, but the table says nothing of it. -/
theorem paused_without_entry :
    ∃ s₀ s, QueueOut.init (FlowTable.perFlowConfig 4) = some s₀ ∧
      Run.ReachIf (step (FlowTable.perFlowConfig 4)) (fun _ _ => true)
        (s₀.answering (fun n => n == 8) fun n => n == 8) s ∧
      (s.flowStatePool 8).inUse = true ∧ s.flowStateFlowId 8 = sameHashFlow 8 ∧
      (s.flowStatePool 8).isPaused = true ∧
      s.dpCtrl.flowBook.lookup (sameHashFlow 8).toFlowTuple = none ∧
      ¬ s.Agrees (sameHashFlow 8).toFlowTuple ∧
      (∃ m rs m', insertEight (fun n => n) = some (m, rs) ∧
        (∀ n < 8, (m.find flowHash (sameHashFlow n)).isSome = true) ∧
        m.insert flowHash id (sameHashFlow 8) 8 = some (m', none)) ∧
      ∃ m rs m', insertEight (fun n => (⟨n + 10000000001, 0⟩ : DpTblEntry)) = some (m, rs) ∧
        (∀ n < 8, (m.find flowHash (sameHashFlow n)).isSome = true) ∧
        m.insert flowHash id (sameHashFlow 8) ⟨8 + 10000000001, 0⟩ = some (m', none) := by
  have hrun : ((QueueOut.init (FlowTable.perFlowConfig 4)).bind fun s₀ =>
      (Run.exec (step (FlowTable.perFlowConfig 4)) (fun _ _ => true)
        (s₀.answering (fun n => n == 8) fun n => n == 8)
        (.setBackpressureThreshold 1 :: (List.range 9).map sameHashBatch)).map fun s =>
      decide ((s.flowStatePool 8).inUse = true ∧ s.flowStateFlowId 8 = sameHashFlow 8 ∧
        (s.flowStatePool 8).isPaused = true ∧
        s.dpCtrl.flowBook.lookup (sameHashFlow 8).toFlowTuple = none)) = some true := by
    decide +kernel
  obtain ⟨s₀, s, h₀, hreach, hdec⟩ := Run.exists_init_reachIf _ hrun
  obtain ⟨hin, hflow, hpaused, hnone⟩ := of_decide_eq_true hdec
  refine ⟨s₀, s, h₀, hreach, hin, hflow, hpaused, hnone, fun hagrees => ?_,
    ninth_refused (by decide +kernel) 8, ninth_refused (by decide +kernel) _⟩
  obtain ⟨e, he, -⟩ := hagrees.paused ⟨8, by decide, hin, by rw [hflow], hpaused⟩
  rw [hnone] at he
  cases he

end QueueOut

end Backdraft

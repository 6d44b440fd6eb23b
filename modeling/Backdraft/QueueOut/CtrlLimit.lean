import Backdraft.QueueOut.CtrlStock

/-!
# Can the control batch overflow?

`SendCtrlPkt` ends the program when all `ctrl_batch_size` packets of the control batch are used.

* `processBatch_ne_limit`: this does not happen in `ProcessBatch`;
* `Idle`: a module whose buffers are always empty only flushes in `RunTask`;
* `SharedInv.runTask_ne_limit`: with one buffer for each queue `RunTask` sends nothing;
* `ctrl_limit_unreachable_iff`: the settings for which the limit is not reached.
-/

namespace Backdraft

open Word Slots FlowTable

namespace QueueOut

variable {cfg : QueueOutConfig} {s s' : QueueOut} {now i : ℕ} {pkts : List Packet}
  {accept : ℕ × ℕ}

/-! ### Settings without an overflow -/

theorem sendPacket_of_lt (cfg : QueueOutConfig) (i : ℕ) (pkts : List Packet) (accept : ℕ × ℕ)
    (h : s.ctrl.ctrlBatchUsed < ctrlBatchSize) :
    ∃ r, s.sendPacket cfg i pkts accept = .ok r := by
  unfold sendPacket
  simp only
  split_ifs with hsent
  · obtain ⟨c', hc', -⟩ := CtrlBatch.sendCtrlPkt_of_lt h (s.flowStatePool i).qid
      (s.flowStatePool i).prio (min accept.1 pkts.length) accept.2
    exact ⟨_, by simp only [hc']; rfl⟩
  · exact ⟨_, rfl⟩

/-- The guard of `ProcessBatch` leaves room for its announcement. -/
theorem processBatch_ne_limit {adminUp : Bool} {batch : List Packet} {duration : ℕ}
    (hcdq : cfg.cdq = true) :
    s.processBatch cfg now adminUp batch accept duration ≠ .error (.ctrl .ctrlBatchLimit) := by
  intro h
  unfold processBatch at h
  simp only [hcdq, true_and] at h
  split_ifs at h with hdown hfull hnone hbuf
  · unfold processBatchWithBuffer at h
    split at h <;> cases h
  · unfold processBatchLossy at h
    split at h
    · cases h
    · rename_i t i hget
      obtain ⟨⟨v, sentPkts, sentCtrl⟩, hsend⟩ := sendPacket_of_lt cfg i batch accept
        (s := { s with
          toFlowTable := t
          received := s.received ++ batch
          ctrl := { s.ctrl with currentNs := now } }) (by simp only; omega)
      simp only [hsend, reduceCtorEq] at h

/-- The limit can be reached in `RunTask` only. -/
theorem call_ne_limit {op : Op} (hcdq : cfg.cdq = true)
    (htask : ∀ now ctrlAccept accepts, s.call cfg (.runTask now ctrlAccept accepts) ≠
      .error (.fatal (.ctrl .ctrlBatchLimit))) :
    s.call cfg op ≠ .error (.fatal (.ctrl .ctrlBatchLimit)) := by
  intro h
  cases op with
  | processBatch now adminUp batch accept duration =>
    simp only [call, step] at h
    cases hr : s.processBatch cfg now adminUp batch accept duration with
    | ok v => simp [hr, Except.mapError] at h
    | error e =>
      obtain rfl : e = .ctrl .ctrlBatchLimit := by simpa [hr, Except.mapError] using h
      exact processBatch_ne_limit hcdq hr
  | runTask now ctrlAccept accepts => exact htask now ctrlAccept accepts h
  | setOverlayThreshold lowWater highWater => cases h
  | setBackpressureThreshold threshold => cases h

/-- With nothing in the buffers `RunTask` only flushes the control batch. -/
theorem runTask_of_count_eq_zero {ctrlAccept : ℕ} {accepts : List (ℕ × ℕ)}
    (hcount : s.countPacketsInBuffer = 0) :
    s.call cfg (.runTask now ctrlAccept accepts) =
      .ok { s with ctrl := s.flushedCtrl cfg ctrlAccept } := by
  rw [call]
  split_ifs
  · rw [runTask_eq, if_neg (by omega)]
    rfl
  · rw [runTaskShared_eq, if_neg (by omega)]
    rfl

theorem SharedInv.runTask_ne_limit {ctrlAccept : ℕ} {accepts : List (ℕ × ℕ)} (h : SharedInv cfg s)
    (hper : cfg.perFlowBuffering = false) (hqid : AcceptedQueues cfg) :
    s.call cfg (.runTask now ctrlAccept accepts) ≠ .error (.fatal (.ctrl .ctrlBatchLimit)) := by
  rw [QueueOut.call, if_neg (by simp [hper])]
  by_cases hempty : ∀ q < cfg.dataQueues.length, (s.limited q).contents = []
  · simp [h.runTask_of_empty hempty, Except.map]
  · push Not at hempty
    simp [h.runTask_of_nonempty hqid hempty, Except.map]

/-- The buffers are empty and stay so: there are none, or their rings have no room. -/
structure Idle (cfg : QueueOutConfig) (s : QueueOut) : Prop where
  setting : cfg.buffering = false ∨ cfg.perFlowBuffering = true ∧ cfg.maxBufferSize = 1
  table : cfg.buffering = true → s.toFlowTable.TableInv cfg
  count : s.countPacketsInBuffer = 0

theorem Idle.processBatch {adminUp : Bool} {batch : List Packet} {duration : ℕ} (h : Idle cfg s)
    (hok : s.processBatch cfg now adminUp batch accept duration = .ok s') : Idle cfg s' := by
  obtain ⟨c, rfl⟩ | ⟨c, t, i, hget, ⟨hbuf, rfl⟩ | ⟨hlossy, n, rfl⟩⟩ := processBatch_cases hok
  · exact ⟨h.setting, h.table, h.count⟩
  · obtain ⟨hper, hone⟩ := h.setting.resolve_left (by simp [hbuf])
    obtain ⟨htable, hl⟩ := (h.table hbuf).getFlowState hper hget
    set v : QueueOut := { s with
      toFlowTable := t, received := s.received ++ batch, ctrl := c } with hv
    have hin : (v.flowStatePool i).inUse = true := ((htable.map_iff _ i).1 hl.found).2.1
    -- a ring of one slot takes nothing
    have hnone : ((v.buffers i).pktbufferEnqueue batch).2 = 0 := by
      rw [(htable.wf i hl.lt).enqueue_count, hone]
      omega
    obtain ⟨hwf, hle, hcont⟩ := (htable.wf i hl.lt).enqueue_spec batch
    have hstocked := tableInv_stocked (s := v) htable hin ⟨hle, hwf, hcont⟩
    rw [bufferBatch_eq_stocked (s := v) htable hl.lt]
    have hover := SameStore.overlay cfg (v.stocked i ((v.buffers i).pktbufferEnqueue batch).2
      ((v.buffers i).pktbufferEnqueue batch).1 batch) now i duration
    have hsame := hover.trans (SameStore.backpressure cfg _ now i)
    refine ⟨h.setting, fun _ => hsame.tableInv hstocked, hsame.count_eq.trans ?_⟩
    change wadd 64 s.countPacketsInBuffer _ = 0
    rw [hnone, h.count, wadd_zero (by decide)]
  · exact ⟨h.setting, fun hbuf => absurd (hbuf.symm.trans hlossy) (by decide), h.count⟩

theorem Idle.call {op : Op} (h : Idle cfg s) (hok : s.call cfg op = .ok s') : Idle cfg s' := by
  cases op with
  | processBatch now adminUp batch accept duration =>
    exact h.processBatch (Run.mapError_eq_ok.1 hok)
  | runTask now ctrlAccept accepts =>
    rw [runTask_of_count_eq_zero h.count] at hok
    cases hok
    exact ⟨h.setting, h.table, h.count⟩
  | setOverlayThreshold lowWater highWater => cases hok; exact ⟨h.setting, h.table, h.count⟩
  | setBackpressureThreshold threshold => cases hok; exact ⟨h.setting, h.table, h.count⟩

theorem powTwo_of_init (hbuf : cfg.buffering = true) (hpos : 0 < cfg.maxBufferSize)
    (hlt : cfg.maxBufferSize < 2 ^ 32) (h₀ : init cfg = some s) :
    Llring.PowTwo cfg.maxBufferSize := by
  obtain ⟨t, ht, -⟩ := Option.map_eq_some_iff.1 h₀
  rw [FlowTable.setup, if_pos hbuf] at ht
  obtain ⟨b, hb, -⟩ := Option.map_eq_some_iff.1 ht
  obtain ⟨r, hr, -⟩ := Option.map_eq_some_iff.1 hb
  exact Llring.powTwo_of_init hr hpos hlt

theorem Idle.init (hsetting : cfg.buffering = false ∨
      cfg.perFlowBuffering = true ∧ cfg.maxBufferSize = 1) (hpos : 0 < cfg.maxBufferSize)
    (hlt : cfg.maxBufferSize < 2 ^ 32) (h₀ : QueueOut.init cfg = some s) : Idle cfg s := by
  refine ⟨hsetting, fun hbuf => ?_, ?_⟩
  · have hpow := powTwo_of_init hbuf hpos hlt h₀
    obtain ⟨t, ht, rfl⟩ := Option.map_eq_some_iff.1 h₀
    exact TableInv.setup hbuf hpow ht
  · obtain ⟨t, -, rfl⟩ := Option.map_eq_some_iff.1 h₀
    rfl

/-! ### The result -/

/-- **When the control batch cannot overflow.**  In every run of the module, at any times and
whatever the port takes, `SendCtrlPkt` is entered with `ctrl_batch_used_` below `ctrl_batch_size`,
if and only if the module does not buffer, or its per-flow buffers have a ring without room, or it
has one buffer for each queue, and then only because `RunTask` fails before it sends anything. -/
theorem ctrl_limit_unreachable_iff {s₀ : QueueOut} (hcdq : cfg.cdq = true)
    (hqid : AcceptedQueues cfg) (hpos : 0 < cfg.maxBufferSize) (hlt : cfg.maxBufferSize < 2 ^ 32)
    (h₀ : init cfg = some s₀) :
    (∀ s op, Run.ReachIf (QueueOut.call cfg) (fun _ _ => true) s₀ s →
      s.call cfg op ≠ .error (.fatal (.ctrl .ctrlBatchLimit))) ↔
    cfg.buffering = false ∨ cfg.perFlowBuffering = false ∨ cfg.maxBufferSize = 1 := by
  constructor
  · intro hall
    by_contra hcase
    push Not at hcase
    obtain ⟨hbuf, hper, hone⟩ := hcase
    have hbuf' : cfg.buffering = true := by simpa using hbuf
    obtain ⟨s, op, hs, hlimit⟩ := exists_limit hcdq hbuf' (by simpa using hper)
      (powTwo_of_init hbuf' hpos hlt h₀) (by omega) h₀
    exact hall s op hs hlimit
  · intro hcase s op hs
    refine call_ne_limit hcdq fun now ctrlAccept accepts => ?_
    by_cases hidle : cfg.buffering = false ∨ cfg.perFlowBuffering = true ∧ cfg.maxBufferSize = 1
    · have h : Idle cfg s := hs.invariant (P := Idle cfg) (Idle.init hidle hpos hlt h₀)
        fun u op v hu _ hok => hu.call hok
      rw [runTask_of_count_eq_zero h.count]
      exact nofun
    · have hbuf : cfg.buffering = true := by
        by_contra hb
        exact hidle (.inl (by simpa using hb))
      have hper : cfg.perFlowBuffering = false := by
        by_contra hp
        exact hidle (.inr ⟨by simpa using hp, by simp_all⟩)
      have h : SharedInv cfg s := hs.invariant (P := SharedInv cfg)
        (SharedInv.init hbuf (powTwo_of_init hbuf hpos hlt h₀) h₀)
        fun u op v hu _ hok => hu.call hbuf hper hqid hok
      exact h.runTask_ne_limit hper hqid

/-- A module with a doorbell queue and a data queue, and per-flow buffers or none. -/
def doorbellConfig (buffering : Bool) : QueueOutConfig :=
  ⟨64, [0, 1], buffering, false, true, true, false⟩

/-- Without buffers. -/
theorem ctrl_limit_unreachable_lossy :
    ∃ s₀, init (doorbellConfig false) = some s₀ ∧
      ∀ s op, Run.ReachIf (QueueOut.call (doorbellConfig false)) (fun _ _ => true) s₀ s →
        s.call (doorbellConfig false) op ≠ .error (.fatal (.ctrl .ctrlBatchLimit)) := by
  obtain ⟨s₀, h₀⟩ : ∃ s₀, init (doorbellConfig false) = some s₀ := ⟨_, rfl⟩
  exact ⟨s₀, h₀, (ctrl_limit_unreachable_iff rfl ⟨by decide, by decide, by decide⟩ (by decide)
    (by decide) h₀).2 (.inl rfl)⟩

/-- With per-flow buffers of 64 slots the limit is reached. -/
theorem ctrl_limit_reached :
    ∃ s₀ s op, init (doorbellConfig true) = some s₀ ∧
      Run.ReachIf (QueueOut.call (doorbellConfig true)) (fun _ _ => true) s₀ s ∧
      s.call (doorbellConfig true) op = .error (.fatal (.ctrl .ctrlBatchLimit)) := by
  obtain ⟨b, hb, -⟩ := PktBuffer.newPktbuffer_spec (α := Packet)
    (⟨6, by decide, rfl⟩ : Llring.PowTwo 64)
  obtain ⟨s₀, h₀⟩ : ∃ s₀, init (doorbellConfig true) = some s₀ := by
    rw [init, FlowTable.setup, if_pos (by rfl),
      show (doorbellConfig true).maxBufferSize = 64 from rfl, hb]
    exact ⟨_, rfl⟩
  obtain ⟨s, op, hs, hlimit⟩ := exists_limit rfl rfl rfl ⟨6, by decide, rfl⟩ (by decide) h₀
  exact ⟨s₀, s, op, h₀, hs, hlimit⟩

end QueueOut

end Backdraft

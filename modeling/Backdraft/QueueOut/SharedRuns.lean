import Backdraft.QueueOut.Shared

/-!
# `RunTask` with one buffer for each queue

No buffer has ever been primed when `TrySendBuffer` reads the first place of its array.

* `visitLimited_of_nonempty`: so the loop reads a pointer that is not a packet as soon as it comes
  to a buffer that is not empty;
* `SharedInv.call`: every call that returns keeps the invariant;
* `shared_buffers_iff`: what holds in every run, and when `RunTask` serves the buffers.
-/

namespace Backdraft

open Word Slots FlowTable

namespace QueueOut

variable {cfg : QueueOutConfig} {s s' : QueueOut} {now : ℕ}

/-! ### `RunTask` -/

theorem Unprimed.count_eq {b : PktBuffer Packet} (h : Unprimed cfg b) :
    b.pktbufferCount = 0 ↔ b.contents = [] := by
  rw [h.wf.count_eq, List.length_eq_zero_iff]

theorem sendLimited_of_empty {q : ℕ} (offered : Bool) (accepts : List (ℕ × ℕ)) :
    s.sendLimited cfg now q 0 offered accepts = .ok (s, accepts, offered) := by
  cases accepts <;> simp [sendLimited]

/-- Before it primes a buffer, the loop reads its first place. -/
theorem sendLimited_of_unprimed {q size : ℕ} (htail : (s.limited q).tail = 0) (hsize : size ≠ 0)
    (offered : Bool) (accepts : List (ℕ × ℕ)) :
    s.sendLimited cfg now q size offered accepts = .error .stalePointer := by
  cases accepts <;> simp [sendLimited, sendLimitedOnce, htail, hsize]

section Visits

variable {qs : List ℕ} {offered : List ℕ} {accepts : List (ℕ × ℕ)} {ctrlAccept : ℕ}

theorem visitLimited_of_empty (h : ∀ q, Unprimed cfg (s.limited q))
    (hqs : ∀ q ∈ qs, (s.limited q).contents = []) :
    s.visitLimited cfg now offered qs accepts = .ok (s, offered) := by
  induction qs with
  | nil => rfl
  | cons q qs ih =>
    have hzero := (h q).count_eq.2 (hqs q (List.mem_cons_self ..))
    simp only [visitLimited, hzero, sendLimited_of_empty]
    exact ih fun r hr => hqs r (List.mem_cons_of_mem _ hr)

/-- The first buffer that is not empty was not primed when its place 0 is read. -/
theorem visitLimited_of_nonempty (h : ∀ q, Unprimed cfg (s.limited q))
    (hqs : ∃ q ∈ qs, (s.limited q).contents ≠ []) :
    s.visitLimited cfg now offered qs accepts = .error .stalePointer := by
  induction qs with
  | nil => simp at hqs
  | cons q qs ih =>
    by_cases hq : (s.limited q).contents = []
    · have hzero := (h q).count_eq.2 hq
      simp only [visitLimited, hzero, sendLimited_of_empty]
      obtain ⟨r, hr, hne⟩ := hqs
      rcases List.mem_cons.1 hr with rfl | hr
      · exact absurd hq hne
      · exact ih ⟨r, hr, hne⟩
    · have hpos : (s.limited q).pktbufferCount ≠ 0 := fun he => hq ((h q).count_eq.1 he)
      simp only [visitLimited, sendLimited_of_unprimed (h q).tail hpos]

theorem sharedStored_eq_nil_iff :
    s.sharedStored = [] ↔ ∀ q < maxQueuesPerDir, (s.limited q).contents = [] := by
  simp [sharedStored, pooled, List.flatMap_eq_nil_iff]

/-- The control batch of `RunTask` after its flush. -/
def flushedCtrl (cfg : QueueOutConfig) (s : QueueOut) (ctrlAccept : ℕ) : CtrlBatch :=
  if cfg.cdq then s.ctrl.tryFlushCtrlBatch ctrlAccept else s.ctrl

theorem runTaskShared_eq : s.runTaskShared cfg now ctrlAccept accepts =
    if 0 < s.countPacketsInBuffer then
      { s with ctrl := s.flushedCtrl cfg ctrlAccept }.trySendBuffer cfg now accepts
    else .ok ({ s with ctrl := s.flushedCtrl cfg ctrlAccept }, []) := by
  unfold runTaskShared flushedCtrl
  by_cases hcdq : cfg.cdq = true <;> simp [hcdq]

/-- `RunTask` with nothing in the buffers it visits. -/
theorem SharedInv.runTask_of_empty (h : SharedInv cfg s)
    (hempty : ∀ q < cfg.dataQueues.length, (s.limited q).contents = []) :
    s.runTaskShared cfg now ctrlAccept accepts =
      .ok ({ s with ctrl := s.flushedCtrl cfg ctrlAccept }, []) := by
  rw [runTaskShared_eq, trySendBuffer]
  split_ifs
  · exact visitLimited_of_empty (h.setCtrl _).buffer fun q hq => hempty q (List.mem_range.1 hq)
  · rfl

/-- `RunTask` with a packet in one of the buffers it visits. -/
theorem SharedInv.runTask_of_nonempty (h : SharedInv cfg s) (hqid : AcceptedQueues cfg)
    (hne : ∃ q < cfg.dataQueues.length, (s.limited q).contents ≠ []) :
    s.runTaskShared cfg now ctrlAccept accepts = .error .stalePointer := by
  obtain ⟨q, hq, hcont⟩ := hne
  have hpos : 0 < s.countPacketsInBuffer := by
    rw [h.count, List.length_pos_iff, Ne, sharedStored_eq_nil_iff]
    exact fun hall => hcont (hall q (hq.trans_le hqid.length_le))
  rw [runTaskShared_eq, if_pos hpos, trySendBuffer]
  exact visitLimited_of_nonempty (h.setCtrl _).buffer ⟨q, List.mem_range.2 hq, hcont⟩

end Visits

/-! ### Runs -/

theorem SharedInv.init (hbuf : cfg.buffering = true) (hpow : Llring.PowTwo cfg.maxBufferSize)
    (h : QueueOut.init cfg = some s) : SharedInv cfg s := by
  obtain ⟨t, ht, rfl⟩ := Option.map_eq_some_iff.1 h
  obtain ⟨b, hb, hwf, hcont⟩ := PktBuffer.newPktbuffer_spec (α := Packet) hpow
  have htail : b.tail = 0 := by
    obtain ⟨r, -, rfl⟩ := Option.map_eq_some_iff.1 hb
    rfl
  rw [FlowTable.setup, if_pos hbuf, hb, Option.map_some, Option.some.injEq] at ht
  subst ht
  have hstored : pooled maxQueuesPerDir (fun _ => b.contents) = [] := by
    simp [pooled, List.flatMap_eq_nil_iff, hcont]
  refine ⟨fun f i hf => ?_, fun _ => ⟨hwf, htail⟩, rfl, fun _ => ?_, ?_, ?_⟩
  · simp [withBuffers] at hf
  · change b.contents.Sublist []
    rw [hcont]
  · change List.Perm [] ([] ++ pooled maxQueuesPerDir fun _ => b.contents)
    rw [hstored]
    rfl
  · change 0 = (pooled maxQueuesPerDir fun _ => b.contents).length
    rw [hstored]
    rfl

/-- **A call keeps the invariant.** -/
theorem SharedInv.call {op : Op} (h : SharedInv cfg s) (hbuf : cfg.buffering = true)
    (hper : cfg.perFlowBuffering = false) (hqid : AcceptedQueues cfg)
    (hok : s.call cfg op = .ok s') : SharedInv cfg s' := by
  cases op with
  | processBatch now adminUp batch accept duration =>
    exact h.processBatch hbuf hper hqid (Run.mapError_eq_ok.1 hok)
  | runTask now ctrlAccept accepts =>
    rw [QueueOut.call, if_neg (by simp [hper])] at hok
    by_cases hempty : ∀ q < cfg.dataQueues.length, (s.limited q).contents = []
    · rw [h.runTask_of_empty hempty] at hok
      cases hok
      exact h.setCtrl _
    · push Not at hempty
      rw [h.runTask_of_nonempty hqid hempty] at hok
      cases hok
  | setOverlayThreshold lowWater highWater =>
    cases hok
    exact ⟨h.blocks, h.buffer, h.sent, h.order, h.perm, h.count⟩
  | setBackpressureThreshold threshold =>
    cases hok
    exact ⟨h.blocks, h.buffer, h.sent, h.order, h.perm, h.count⟩

/-- `RunTask` returns, and offers packets of every buffer that is not empty to the port. -/
def Serves (cfg : QueueOutConfig) (s : QueueOut) (now ctrlAccept : ℕ) (accepts : List (ℕ × ℕ)) :
    Prop :=
  ∃ s' offered, s.runTaskShared cfg now ctrlAccept accepts = .ok (s', offered) ∧
    ∀ q < maxQueuesPerDir, (s.limited q).contents ≠ [] → q ∈ offered

/-- **One buffer for each queue.**  In every run, the packets received are those freed and those in
the buffers, each exactly once and in the buffers in the order in which they came; none was handed
to the port; and `count_packets_in_buffer_` is the sum of the counts of the buffers.  At any point
of the run, whatever the port takes, `RunTask` serves the buffers if and only if they are all
empty; it reads a pointer that is not a buffered packet if and only if one of the buffers with an
index below `count_queues_` is not. -/
theorem shared_buffers_iff {s₀ : QueueOut} (hbuf : cfg.buffering = true)
    (hper : cfg.perFlowBuffering = false) (hqid : AcceptedQueues cfg)
    (hpow : Llring.PowTwo cfg.maxBufferSize) (h₀ : QueueOut.init cfg = some s₀)
    (hs : Run.ReachIf (QueueOut.call cfg) (fun _ _ => true) s₀ s) :
    (s.received.Perm (s.freed ++ s.sharedStored) ∧ s.sent = [] ∧
      (∀ q, (s.limited q).contents.Sublist s.received) ∧
      s.countPacketsInBuffer =
        ((List.range maxQueuesPerDir).map fun q => (s.limited q).pktbufferCount).sum) ∧
    ∀ now ctrlAccept accepts,
      (s.Serves cfg now ctrlAccept accepts ↔
        ∀ q < maxQueuesPerDir, (s.limited q).contents = []) ∧
      (s.runTaskShared cfg now ctrlAccept accepts = .error .stalePointer ↔
        ∃ q < cfg.dataQueues.length, (s.limited q).contents ≠ []) := by
  have h : SharedInv cfg s := hs.invariant (P := SharedInv cfg) (SharedInv.init hbuf hpow h₀)
    fun u op v hu _ hok => hu.call hbuf hper hqid hok
  refine ⟨⟨h.perm, h.sent, h.order, ?_⟩, fun now ctrlAccept accepts => ⟨⟨?_, ?_⟩, ?_, ?_⟩⟩
  · rw [h.count, sharedStored, length_pooled]
    congr 1
    exact List.map_congr_left fun q _ => (h.buffer q).wf.count_eq.symm
  · rintro ⟨s', offered, hrun, hall⟩ q hq
    by_contra hne
    by_cases hempty : ∀ q < cfg.dataQueues.length, (s.limited q).contents = []
    · -- the call returns, but it has not visited the buffer
      rw [h.runTask_of_empty hempty] at hrun
      cases hrun
      simpa using hall q hq hne
    · push Not at hempty
      rw [h.runTask_of_nonempty hqid hempty] at hrun
      cases hrun
  · intro hall
    refine ⟨_, _, h.runTask_of_empty fun q hq => hall q (hq.trans_le hqid.length_le), ?_⟩
    exact fun q hq hne => absurd (hall q hq) hne
  · intro hstale
    by_contra hempty
    push Not at hempty
    rw [h.runTask_of_empty hempty] at hstale
    cases hstale
  · exact fun hne => h.runTask_of_nonempty hqid hne

/-- A module with one buffer for each of the queues `dataQueues`. -/
def sharedConfig (dataQueues : List ℕ) : QueueOutConfig :=
  ⟨4, dataQueues, true, false, false, false, false⟩

/-- A batch that did not fit the buffer of its queue, and one that comes when the port is down. -/
theorem shared_buffers_full_buffer :
    ∃ s₀ s, QueueOut.init (sharedConfig [0]) = some s₀ ∧
      Run.ReachIf (QueueOut.call (sharedConfig [0])) (fun _ _ => true) s₀ s ∧
      (s.sharedStored.map Packet.name = [1, 2, 3] ∧ s.freed.map Packet.name = [4, 5]) ∧
      s.received.Perm (s.freed ++ s.sharedStored) ∧ ¬ s.Serves (sharedConfig [0]) 0 0 [] := by
  have hrun : ((QueueOut.init (sharedConfig [0])).bind fun s₀ =>
      (Run.exec (QueueOut.call (sharedConfig [0])) (fun _ _ => true) s₀
        [.processBatch 5 true ([1, 2, 3, 4].map fun name => ⟨name, FlowTable.udpTo 80⟩) (0, 0) 0,
          .processBatch 6 false [⟨5, FlowTable.udpTo 50⟩] (0, 0) 0]).map fun s =>
      decide (s.sharedStored.map Packet.name = [1, 2, 3] ∧ s.freed.map Packet.name = [4, 5])) =
        some true := by
    decide +kernel
  obtain ⟨s₀, s, h₀, hreach, hdec⟩ := Run.exists_init_reachIf _ hrun
  obtain ⟨hstored, hfreed⟩ := of_decide_eq_true hdec
  obtain ⟨⟨hperm, -⟩, hserve⟩ := shared_buffers_iff rfl rfl ⟨by decide, by decide, by decide⟩
    ⟨2, by decide, rfl⟩ h₀ hreach
  refine ⟨s₀, s, h₀, hreach, ⟨hstored, hfreed⟩, hperm, fun hall => ?_⟩
  have hempty := (hserve 0 0 []).1.1 hall
  rw [sharedStored_eq_nil_iff.2 hempty] at hstored
  cases hstored

/-- One packet in a buffer.  If it is that of queue 0, the only queue, `RunTask` reads a pointer
that is not a packet; if it is that of queue 3, the only queue, `RunTask` offers it to the port at
no time. -/
theorem shared_buffer_not_served :
    (∃ s₀ s, QueueOut.init (sharedConfig [0]) = some s₀ ∧
      Run.ReachIf (QueueOut.call (sharedConfig [0])) (fun _ _ => true) s₀ s ∧
      (s.limited 0).contents.map Packet.name = [1] ∧
      s.runTaskShared (sharedConfig [0]) 6 0 [(1, 0)] = .error .stalePointer) ∧
    ∃ s₀ s, QueueOut.init (sharedConfig [3]) = some s₀ ∧
      Run.ReachIf (QueueOut.call (sharedConfig [3])) (fun _ _ => true) s₀ s ∧
      (s.limited 3).contents.map Packet.name = [1] ∧
      ∃ s', s.runTaskShared (sharedConfig [3]) 6 0 [(1, 0)] = .ok (s', []) := by
  have hrun : ∀ q ∈ [0, 3], ((QueueOut.init (sharedConfig [q])).bind fun s₀ =>
      (Run.exec (QueueOut.call (sharedConfig [q])) (fun _ _ => true) s₀
        [.processBatch 5 true [⟨1, FlowTable.udpTo 80⟩] (0, 0) 0]).map fun s =>
      decide ((s.limited q).contents.map Packet.name = [1]) &&
        match s.runTaskShared (sharedConfig [q]) 6 0 [(1, 0)] with
        | .ok (_, offered) => decide (q = 3 ∧ offered = [])
        | .error e => decide (q = 0 ∧ e = .stalePointer)) = some true := by
    decide +kernel
  constructor
  · obtain ⟨s₀, s, h₀, hreach, hdec⟩ := Run.exists_init_reachIf _ (hrun 0 (by simp))
    obtain ⟨hcont, htask⟩ := Bool.and_eq_true_iff.1 hdec
    refine ⟨s₀, s, h₀, hreach, of_decide_eq_true hcont, ?_⟩
    split at htask
    · simp at htask
    · rename_i e he
      rw [he, (of_decide_eq_true htask).2]
  · obtain ⟨s₀, s, h₀, hreach, hdec⟩ := Run.exists_init_reachIf _ (hrun 3 (by simp))
    obtain ⟨hcont, htask⟩ := Bool.and_eq_true_iff.1 hdec
    refine ⟨s₀, s, h₀, hreach, of_decide_eq_true hcont, ?_⟩
    split at htask
    · rename_i s' offered he
      exact ⟨s', by rw [he, (of_decide_eq_true htask).2]⟩
    · simp at htask

end QueueOut

end Backdraft

import Backdraft.Doorbell.Model

/-!
# Doorbells: the account

* `doorbell_balanced`: the account of the announcements balances in every run in which
  `SendCtrlPkt` keeps the messages that are under way, and any other `SendCtrlPkt` breaks it;
* `balanced_of_ownsBatch`: runs without a flush that takes the whole of a part of the batch meet
  this condition.

Each step is described by what it does to `inTransit`, the announcements that the receiver has not
counted yet.
-/

namespace Backdraft

open CtrlBatch Cdq

namespace System

/-! ### Steps -/

variable {s t : System}

/-- What holds in every run with batches that fit. -/
structure WF (s : System) : Prop where
  filled : s.sender.Filled
  sending : ∀ m, s.sending = some m →
    m.qid < maxQueuesPerDir ∧ 0 < m.sentPkts ∧ m.sentPkts ≤ kMaxBurst

theorem WF.init : init.WF := ⟨Filled.init, fun _ h => nomatch h⟩

theorem Balanced.init : init.Balanced := by
  intro q _
  rfl

/-! ### What a step does -/

theorem senderStep_eq_ok {op : CtrlBatch.Op} {reuse : List ℕ}
    (h : s.senderStep op reuse = .ok t) :
    reuse.Subperm s.pool ∧
      ∃ u, s.sender.beforeFlush op = .ok u ∧ t = s.flushed u op.accept reuse := by
  unfold senderStep at h
  split at h
  · rename_i hpool
    cases hb : s.sender.beforeFlush op with
    | error e => simp [hb] at h
    | ok u =>
      rw [hb, Except.ok.injEq] at h
      exact ⟨hpool, u, rfl, h.symm⟩
  · cases h

theorem step_sendPackets_eq_ok {qid prio accept : ℕ} {pkts : List ℕ}
    (h : s.step (.sendPackets qid prio pkts accept) = .ok t) :
    s.sending = none ∧ t = { s with
      dataQueue := Function.update s.dataQueue qid
        (s.dataQueue qid ++ pkts.take (min accept pkts.length))
      sending := if 0 < min accept pkts.length then some ⟨qid, prio, min accept pkts.length⟩
        else none } := by
  cases hsending : s.sending with
  | some m => simp [step, hsending] at h
  | none =>
    simp only [step, hsending, Except.ok.injEq] at h
    exact ⟨rfl, h.symm⟩

theorem step_sendCtrlPkt_eq_ok {now accept : ℕ} {reuse : List ℕ}
    (h : s.step (.sendCtrlPkt now accept reuse) = .ok t) :
    ∃ m, s.sending = some m ∧
      s.senderStep (.sendCtrlPkt now m.qid m.prio m.sentPkts accept) reuse = .ok t := by
  cases hsending : s.sending with
  | none => simp [step, hsending] at h
  | some m => exact ⟨m, rfl, by simpa only [step, hsending] using h⟩

theorem step_tryFlush_eq_ok {now accept : ℕ} {reuse : List ℕ}
    (h : s.step (.tryFlushCtrlBatch now accept reuse) = .ok t) :
    s.sending = none ∧ s.senderStep (.tryFlush now accept) reuse = .ok t := by
  cases hsending : s.sending with
  | some m => simp [step, hsending] at h
  | none => exact ⟨rfl, by simpa only [step, hsending] using h⟩

theorem step_cdq_eq_ok {avail : ℕ} {paused : ℕ → Bool} {recv : ℕ → ℕ}
    (h : s.step (.cdq avail paused recv) = .ok t) :
    ∃ r out, s.receiver.cdq
        (messages s.sender.payload (s.doorbellQueue.take (min avail kMaxBurst))) paused
        (fun q => min (recv q) (s.dataQueue q).length) = .ok (r, out) ∧
      t = { s with
        receiver := r
        doorbellQueue := s.doorbellQueue.drop (min avail kMaxBurst)
        pool := s.pool ++ s.doorbellQueue.take (min avail kMaxBurst)
        dataQueue := fun q => (s.dataQueue q).drop (readFrom out q) } := by
  simp only [step] at h
  split at h
  · cases h
  · rename_i r out hcdq
    exact ⟨r, out, hcdq, (Except.ok.inj h).symm⟩

/-! ### What a step keeps -/

/-- All that is announced, or about to be, and not yet counted by the receiver. -/
def inTransit (s : System) (q : ℕ) : ℕ :=
  s.announcedBy q s.doorbellQueue + s.announcedBy q s.sender.pending + s.owed q

theorem balanced_iff : s.Balanced ↔ ∀ q < maxQueuesPerDir,
    s.receiver.remainingDpkt q + s.inTransit q = (s.dataQueue q).length := by
  simp only [Balanced, inTransit, Nat.cast_add, add_assoc]

/-- A flush moves announcements from the batch to the doorbell queue. -/
theorem inTransit_flushed {u : CtrlBatch} (hu : u.Filled) (hhanded : u.handed = s.sender.handed)
    (accept : ℕ) (reuse : List ℕ) (q : ℕ) :
    (s.flushed u accept reuse).inTransit q =
      announcedFor q (messages u.payload (s.doorbellQueue ++ u.pending)) := by
  obtain ⟨n, hsent, hpending, hpayload⟩ := flush_moves hu (length_allocBulk reuse u.nextPkt) accept
  have hsplit : announcedFor q (messages u.payload (u.pending.take n)) +
      announcedFor q (messages u.payload (u.pending.drop n)) =
        announcedFor q (messages u.payload u.pending) := by
    rw [← announcedFor_messages_append, List.take_append_drop]
  simp only [inTransit, announcedBy, flushed, owed]
  rw [hsent, hpending, hpayload, ← hhanded, List.drop_left, announcedFor_messages_append,
    announcedFor_messages_append]
  omega

/-- `TryFlushCtrlBatch` keeps the account. -/
theorem step_tryFlush {now accept : ℕ} {reuse : List ℕ} (h : s.WF)
    (ht : s.step (.tryFlushCtrlBatch now accept reuse) = .ok t) :
    t.WF ∧ (t.Balanced ↔ s.Balanced) := by
  obtain ⟨hsending, ht⟩ := step_tryFlush_eq_ok ht
  obtain ⟨-, u, hu, rfl⟩ := senderStep_eq_ok ht
  cases hu
  have hfilled : { s.sender with currentNs := now }.Filled :=
    ⟨h.filled.length_eq, h.filled.used_le⟩
  refine ⟨⟨hfilled.flush (length_allocBulk _ _) accept, fun _ hm => nomatch hm⟩, ?_⟩
  have hmove : ∀ q, (s.flushed { s.sender with currentNs := now } accept reuse).inTransit q =
      s.inTransit q := by
    intro q
    rw [inTransit_flushed hfilled rfl, announcedFor_messages_append]
    simp only [inTransit, owed, hsending]
    rfl
  rw [balanced_iff, balanced_iff]
  exact forall₂_congr fun q _ => by rw [← hmove q]; rfl

/-- The message that `SendCtrlPkt` writes, when the numbers fit its fields. -/
theorem prepareCtrlPacket_of_le {qid prio sentPkts : ℕ} (hqid : qid < maxQueuesPerDir)
    (hle : sentPkts ≤ kMaxBurst) :
    prepareCtrlPacket qid prio (sentPkts % 2 ^ 16) = ⟨qid, prio % 2 ^ 16, sentPkts⟩ := by
  unfold maxQueuesPerDir at hqid
  unfold kMaxBurst at hle
  simp only [prepareCtrlPacket, CdqPayload.mk.injEq, true_and]
  omega

/-- `SendCtrlPkt` announces what was owed, and replaces a message that its packet still has in the
doorbell queue or in the batch. -/
theorem inTransit_sendCtrlPkt {now accept : ℕ} {reuse : List ℕ} {m : Sending} (h : s.WF)
    (hm : s.sending = some m) (ht : s.step (.sendCtrlPkt now accept reuse) = .ok t) :
    t.WF ∧ t.receiver = s.receiver ∧ t.dataQueue = s.dataQueue ∧ ∀ q,
      t.inTransit q + (s.doorbellQueue ++ s.sender.pending).count s.sender.nextSlot *
          share q (s.sender.payload s.sender.nextSlot) =
        s.inTransit q + (s.doorbellQueue ++ s.sender.pending).count s.sender.nextSlot *
          share q ⟨m.qid, m.prio % 2 ^ 16, m.sentPkts⟩ := by
  obtain ⟨m', hm', hstep⟩ := step_sendCtrlPkt_eq_ok ht
  obtain rfl : m' = m := Option.some.inj (hm'.symm.trans hm)
  obtain ⟨-, u, hu, rfl⟩ := senderStep_eq_ok hstep
  obtain ⟨hqid, -, hle⟩ := h.sending m' hm
  have hadd := h.filled.addCtrlPkt hu
  have hpayload := hadd.payload
  rw [prepareCtrlPacket_of_le hqid hle] at hpayload
  refine ⟨⟨hadd.filled.flush (length_allocBulk _ _) accept, fun _ hm' => nomatch hm'⟩, rfl, rfl,
    fun q => ?_⟩
  have hold := announcedFor_update q s.sender.nextSlot s.sender.payload
    ⟨m'.qid, m'.prio % 2 ^ 16, m'.sentPkts⟩ (s.doorbellQueue ++ s.sender.pending)
  have hsplit := announcedFor_messages_append q s.sender.payload s.doorbellQueue s.sender.pending
  have hnew : announcedFor q (messages u.payload [s.sender.nextSlot]) = s.owed q := by
    rw [announcedFor_cons, hpayload, Function.update_self]
    simp only [share, owed, hm]
    rfl
  rw [inTransit_flushed hadd.filled hadd.handed, hadd.pending_eq, ← List.append_assoc,
    announcedFor_messages_append, hnew, hpayload, inTransit]
  simp only [announcedBy] at *
  omega

/-- `SendCtrlPkt` keeps the account exactly if the message it replaces is neither in the doorbell
queue nor in the batch, or is the same. -/
theorem step_sendCtrlPkt {now accept : ℕ} {reuse : List ℕ} (h : s.WF) (hbal : s.Balanced)
    (ht : s.step (.sendCtrlPkt now accept reuse) = .ok t) :
    t.WF ∧ (t.Balanced ↔ s.keepsMessages (.sendCtrlPkt now accept reuse) = true) := by
  obtain ⟨m, hsending, -⟩ := step_sendCtrlPkt_eq_ok ht
  obtain ⟨hqid, hpos, -⟩ := h.sending m hsending
  obtain ⟨hwf, hrecv, hdata, hmove⟩ := inTransit_sendCtrlPkt h hsending ht
  set c := (s.doorbellQueue ++ s.sender.pending).count s.sender.nextSlot with hc
  have hiff : t.Balanced ↔ ∀ q < maxQueuesPerDir,
      c * share q (s.sender.payload s.sender.nextSlot) =
        c * share q ⟨m.qid, m.prio % 2 ^ 16, m.sentPkts⟩ := by
    rw [balanced_iff, hrecv, hdata]
    refine forall₂_congr fun q hq => ?_
    have hs := balanced_iff.1 hbal q hq
    have hq' := hmove q
    omega
  refine ⟨hwf, ?_⟩
  simp only [keepsMessages, hsending, decide_eq_true_iff]
  rw [hiff]
  by_cases hmem : s.sender.nextSlot ∈ s.doorbellQueue ++ s.sender.pending
  · have hcount : 0 < c := List.count_pos_iff.2 hmem
    simp only [hmem, not_true_eq_false, false_or, Nat.mul_left_cancel_iff hcount]
    exact share_eq_iff (m := ⟨m.qid, m.prio % 2 ^ 16, m.sentPkts⟩) hpos hqid
  · have hzero : c = 0 := List.count_eq_zero.2 hmem
    simp only [hzero, zero_mul, implies_true, hmem, not_false_eq_true, true_or]

/-- A send on a data queue adds to the queue what it leaves to be announced. -/
theorem step_sendPackets {qid prio accept : ℕ} {pkts : List ℕ} (h : s.WF)
    (hfits : fits (.sendPackets qid prio pkts accept) = true)
    (ht : s.step (.sendPackets qid prio pkts accept) = .ok t) :
    t.WF ∧ (t.Balanced ↔ s.Balanced) := by
  obtain ⟨hsending, ht⟩ := step_sendPackets_eq_ok ht
  obtain ⟨hqid, hlen⟩ := of_decide_eq_true hfits
  have hsent : min accept pkts.length ≤ pkts.length := min_le_right _ _
  have howed : ∀ q, t.owed q = if q = qid then min accept pkts.length else 0 := by
    intro q
    subst ht
    by_cases hpos : 0 < min accept pkts.length
    · simp [owed, hpos]
    · simp [owed, Nat.eq_zero_of_not_pos hpos]
  have hdata : ∀ q, (t.dataQueue q).length =
      (s.dataQueue q).length + if q = qid then min accept pkts.length else 0 := by
    intro q
    subst ht
    by_cases hq : q = qid
    · subst hq; simp
    · simp [hq]
  have hmove : ∀ q, t.inTransit q =
      s.inTransit q + if q = qid then min accept pkts.length else 0 := by
    intro q
    rw [inTransit, howed q, inTransit, show s.owed q = 0 by simp [owed, hsending]]
    subst ht
    rfl
  constructor
  · subst ht
    refine ⟨h.filled, fun m hm => ?_⟩
    by_cases hpos : 0 < min accept pkts.length
    · simp only [if_pos hpos, Option.some.injEq] at hm
      subst hm
      exact ⟨hqid, hpos, hsent.trans hlen⟩
    · simp [hpos] at hm
  · rw [balanced_iff, balanced_iff]
    refine forall₂_congr fun q _ => ?_
    rw [hmove q, hdata q, show t.receiver = s.receiver by subst ht; rfl]
    push_cast
    omega

/-- `CDQ` counts what it takes from the doorbell queue, and reads no more than a data queue has. -/
theorem step_cdq {avail : ℕ} {paused : ℕ → Bool} {recv : ℕ → ℕ} (h : s.WF)
    (ht : s.step (.cdq avail paused recv) = .ok t) : t.WF ∧ (t.Balanced ↔ s.Balanced) := by
  obtain ⟨r, out, hcdq, rfl⟩ := step_cdq_eq_ok ht
  refine ⟨⟨h.filled, h.sending⟩, ?_⟩
  rw [balanced_iff, balanced_iff]
  refine forall₂_congr fun q hq => ?_
  have hcounter := remaining_cdq hq hcdq
  have hread : readFrom out q ≤ (s.dataQueue q).length :=
    (readFrom_le hcdq q).trans (min_le_right _ _)
  have hsplit := announcedFor_messages_append q s.sender.payload
    (s.doorbellQueue.take (min avail kMaxBurst)) (s.doorbellQueue.drop (min avail kMaxBurst))
  rw [List.take_append_drop] at hsplit
  simp only [inTransit, announcedBy, List.length_drop]
  rw [hcounter, hsplit, Nat.cast_sub hread]
  push_cast
  change _ + _ - _ + (_ + _ + ((s.owed q : ℕ) : ℤ)) = _ ↔ _
  constructor <;> intro hsum <;> linarith

/-- Every step keeps what holds in all runs, and keeps the account exactly if it keeps the messages
that are under way. -/
theorem WF.step {op : Op} (h : s.WF) (hbal : s.Balanced) (hfits : fits op = true)
    (ht : s.step op = .ok t) : t.WF ∧ (t.Balanced ↔ s.keepsMessages op = true) := by
  have hkeep : ∀ {P Q : Prop}, (P ↔ s.Balanced) → Q → (P ↔ Q) :=
    fun hP hQ => ⟨fun _ => hQ, fun _ => hP.2 hbal⟩
  cases op with
  | sendPackets qid prio pkts accept =>
    obtain ⟨hwf, hiff⟩ := step_sendPackets h hfits ht
    exact ⟨hwf, hkeep hiff rfl⟩
  | sendCtrlPkt now accept reuse => exact step_sendCtrlPkt h hbal ht
  | tryFlushCtrlBatch now accept reuse =>
    obtain ⟨hwf, hiff⟩ := step_tryFlush h ht
    exact ⟨hwf, hkeep hiff rfl⟩
  | cdq avail paused recv =>
    obtain ⟨hwf, hiff⟩ := step_cdq h ht
    exact ⟨hwf, hkeep hiff rfl⟩

/-! ### Runs -/

/-- The step fits and keeps the messages that are under way. -/
def announces (s : System) (op : Op) : Bool := fits op && s.keepsMessages op

theorem wf_balanced_of_reach (hs : Run.ReachIf step announces init s) : s.WF ∧ s.Balanced :=
  hs.invariant (P := fun s => s.WF ∧ s.Balanced) ⟨WF.init, Balanced.init⟩
    fun _ _ _ ⟨hwf, hbal⟩ hG hstep => by
      obtain ⟨hfits, hkeeps⟩ := Bool.and_eq_true_iff.1 hG
      obtain ⟨hwf', hiff⟩ := hwf.step hbal hfits hstep
      exact ⟨hwf', hiff.2 hkeeps⟩

/-- **Doorbell accounting.**  In every run in which `SendCtrlPkt` keeps the messages of the
doorbell queue and of the batch, the account balances, whatever packets the pool gives; so once all
control messages are processed, the receiver's counters are what the data queues hold.  From any
state of such a run, the next step keeps the account exactly if it meets the condition. -/
theorem doorbell_balanced (hs : Run.ReachIf step announces init s) :
    s.Balanced ∧
      (s.sending = none → s.sender.ctrlBatchUsed = 0 → s.doorbellQueue = [] →
        ∀ q < maxQueuesPerDir, s.receiver.remainingDpkt q = (s.dataQueue q).length) ∧
      ∀ op t, fits op = true → s.step op = .ok t →
        (t.Balanced ↔ s.keepsMessages op = true) := by
  obtain ⟨hwf, hbal⟩ := wf_balanced_of_reach hs
  refine ⟨hbal, fun hsending hused hempty q hq => ?_, fun op t hfits ht =>
    (hwf.step hbal hfits ht).2⟩
  have hsum := hbal q hq
  have hpending : s.sender.pending = [] := by rw [pending, hused, List.take_zero]
  simpa [announcedBy, hempty, hpending, owed, hsending, messages, announcedFor] using hsum

/-- Three packets in two messages, of which the port takes one; the receiver reads all three
packets, so its counter is -1 while the other message is under way.  The flush that sends it gets
the freed packet 0 from the pool. -/
theorem doorbell_balanced_after_overread :
    ∃ s, Run.ReachIf step announces init s ∧ s.receiver.remainingDpkt 1 = -1 ∧
      s.announcedBy 1 s.doorbellQueue = 1 ∧ s.dataQueue 1 = [] ∧ s.pool = [] ∧ s.Balanced := by
  have hrun : ((Run.exec step announces init
      [.sendPackets 1 0 [10, 11] 2, .sendCtrlPkt 0 0 [], .sendPackets 1 0 [12] 1,
        .sendCtrlPkt 0 0 [], .tryFlushCtrlBatch 2000 1 [],
        .cdq 32 (fun _ => false) (fun _ => 32), .tryFlushCtrlBatch 4000 1 [0]]).map fun s =>
      decide (s.receiver.remainingDpkt 1 = -1 ∧ s.announcedBy 1 s.doorbellQueue = 1 ∧
        s.dataQueue 1 = [] ∧ s.pool = [])) = some true := by
    decide +kernel
  obtain ⟨s, hreach, hdec⟩ := Run.exists_reachIf _ hrun
  obtain ⟨hrem, hqueue, hdata, hpool⟩ := of_decide_eq_true hdec
  exact ⟨s, hreach, hrem, hqueue, hdata, hpool, (doorbell_balanced hreach).1⟩

/-- One packet for queue 1 and two for queue 2.  The port takes the first message, whose packet
stays the first of the batch and is written again before the receiver reads it: nothing announces
the packet of queue 1. -/
theorem doorbell_loses_message :
    ∃ s, Run.ReachIf step (fun _ op => fits op) init s ∧ s.sending = none ∧
      s.receiver.remainingDpkt 1 = 0 ∧ s.announcedBy 1 s.doorbellQueue = 0 ∧
      s.announcedBy 1 s.sender.pending = 0 ∧ s.dataQueue 1 = [10] ∧ ¬ s.Balanced := by
  have hrun : ((Run.exec step (fun _ op => fits op) init
      [.sendPackets 1 0 [10] 1, .sendCtrlPkt 0 0 [], .tryFlushCtrlBatch 2000 1 [],
        .sendPackets 2 0 [11, 12] 2, .sendCtrlPkt 2000 0 []]).map fun s =>
      decide (s.sending.isNone ∧ s.receiver.remainingDpkt 1 = 0 ∧
        s.announcedBy 1 s.doorbellQueue = 0 ∧ s.announcedBy 1 s.sender.pending = 0 ∧
        s.dataQueue 1 = [10])) = some true := by
    decide +kernel
  obtain ⟨s, hreach, hdec⟩ := Run.exists_reachIf _ hrun
  obtain ⟨hnone, hrem, hqueue, hbatch, hdata⟩ := of_decide_eq_true hdec
  rw [Option.isNone_iff_eq_none] at hnone
  refine ⟨s, hreach, hnone, hrem, hqueue, hbatch, hdata, fun hbal => ?_⟩
  have hsum := hbal 1 (by decide)
  simp [hrem, hqueue, hbatch, hdata, owed, hnone] at hsum

/-! ### Runs that keep the ownership of the batch -/

/-- The step fits and makes no flush that takes the whole of a part of the batch. -/
def ownsBatch (s : System) (op : Op) : Bool :=
  fits op && match op, s.sending with
    | .sendCtrlPkt now accept _, some m =>
      s.sender.keepsOwnership (.sendCtrlPkt now m.qid m.prio m.sentPkts accept)
    | .tryFlushCtrlBatch now accept _, _ => s.sender.keepsOwnership (.tryFlush now accept)
    | _, _ => true

/-- A packet is at one place: in the batch, in the doorbell queue or in the pool. -/
structure Owns (s : System) : Prop where
  filled : s.sender.Filled
  nodup : (s.sender.ctrlBatch ++ s.doorbellQueue ++ s.pool).Nodup
  lt_next : ∀ p ∈ s.sender.ctrlBatch ++ s.doorbellQueue ++ s.pool, p < s.sender.nextPkt

theorem Owns.init : init.Owns where
  filled := Filled.init
  nodup := by
    change (List.range ctrlBatchSize ++ [] ++ []).Nodup
    simpa using List.nodup_range
  lt_next := by
    change ∀ p ∈ List.range ctrlBatchSize ++ [] ++ [], p < ctrlBatchSize
    simp

/-- Packets that were never used are none of those in use. -/
theorem nodup_append_range' {l : List ℕ} {next : ℕ} (hnd : l.Nodup) (hlt : ∀ p ∈ l, p < next)
    (n : ℕ) : (l ++ List.range' next n).Nodup := by
  refine List.nodup_append.2 ⟨hnd, List.nodup_range', fun a ha b hb hab => ?_⟩
  have h1 := hlt a ha
  have h2 := (List.mem_range'_1.1 hb).1
  omega

/-- A flush that drops what it sends passes packets on: from the batch to the doorbell queue, from
the pool to the batch. -/
theorem perm_flushed (batch doorbell : List ℕ) {pool reuse : List ℕ} (hsub : reuse.Subperm pool)
    (next n : ℕ) :
    (batch.drop n ++ allocBulk reuse next n ++ (doorbell ++ batch.take n) ++
        pool.diff (reuse.take n)).Perm
      (batch ++ doorbell ++ pool ++ List.range' next (n - reuse.length)) := by
  have hle : ∀ p, (reuse.take n).count p ≤ pool.count p := fun p =>
    ((List.take_sublist n reuse).count_le p).trans (List.subperm_iff_count.1 hsub p)
  rw [List.perm_iff_count]
  intro p
  have hbatch : (batch.take n).count p + (batch.drop n).count p = batch.count p := by
    rw [← List.count_append, List.take_append_drop]
  have hp := hle p
  simp only [allocBulk, List.count_append, List.count_diff]
  omega

theorem Owns.flushed {u : CtrlBatch} {accept : ℕ} {reuse : List ℕ} (h : s.Owns) (hu : u.Filled)
    (hbatch : u.ctrlBatch = s.sender.ctrlBatch) (hhanded : u.handed = s.sender.handed)
    (hnext : u.nextPkt = s.sender.nextPkt) (hsub : reuse.Subperm s.pool)
    (hfull : u.fullFlush accept = false) : (s.flushed u accept reuse).Owns := by
  have hfilled := hu.flush (length_allocBulk reuse u.nextPkt) accept
  cases hcan : u.canFlush with
  | false =>
    rw [flush_of_not_canFlush hcan] at hfilled
    have hsame : (s.flushed u accept reuse).sender = u ∧
        (s.flushed u accept reuse).doorbellQueue = s.doorbellQueue ∧
        (s.flushed u accept reuse).pool = s.pool := by
      simp only [System.flushed, flush_of_not_canFlush hcan, hhanded]
      simp
    refine ⟨?_, ?_, ?_⟩ <;> simp only [hsame, hbatch, hnext]
    exacts [hfilled, h.nodup, h.lt_next]
  | true =>
    obtain ⟨hsent, hnew, -⟩ := flush_fields accept (allocBulk reuse u.nextPkt) hcan
    have hdrop := ctrlBatch_flush hu (length_allocBulk reuse u.nextPkt) hcan hfull
    set n := min accept u.ctrlBatchUsed
    have hlen : (s.sender.ctrlBatch.take n).length = n := by
      have := hu.used_le
      have := h.filled.length_eq
      have : n ≤ u.ctrlBatchUsed := min_le_right _ _
      rw [List.length_take]
      omega
    have hperm := perm_flushed s.sender.ctrlBatch s.doorbellQueue hsub s.sender.nextPkt n
    have heq : (s.flushed u accept reuse).sender.ctrlBatch ++
        (s.flushed u accept reuse).doorbellQueue ++ (s.flushed u accept reuse).pool =
        s.sender.ctrlBatch.drop n ++ allocBulk reuse s.sender.nextPkt n ++
          (s.doorbellQueue ++ s.sender.ctrlBatch.take n) ++ s.pool.diff (reuse.take n) := by
      simp only [System.flushed]
      rw [hdrop, hsent, hbatch, hhanded, hnext, List.drop_left, hlen]
    refine ⟨hfilled, ?_, fun p hp => ?_⟩
    · rw [heq, hperm.nodup_iff]
      exact nodup_append_range' h.nodup h.lt_next _
    · rw [heq, hperm.mem_iff] at hp
      change p < (u.flush accept (allocBulk reuse u.nextPkt)).nextPkt
      rw [hnew, hnext]
      rcases List.mem_append.1 hp with hp | hp
      · exact Nat.lt_add_right n (h.lt_next p hp)
      · have := (List.mem_range'_1.1 hp).2
        omega

/-- A step that makes no full flush of a part of the batch keeps the ownership. -/
theorem Owns.step {op : Op} (h : s.Owns) (hkeep : s.ownsBatch op = true)
    (ht : s.step op = .ok t) : t.Owns := by
  obtain ⟨-, hkeep⟩ := Bool.and_eq_true_iff.1 hkeep
  cases op with
  | sendPackets qid prio pkts accept =>
    obtain ⟨-, rfl⟩ := step_sendPackets_eq_ok ht
    exact ⟨h.filled, h.nodup, h.lt_next⟩
  | sendCtrlPkt now accept reuse =>
    obtain ⟨m, hsending, ht⟩ := step_sendCtrlPkt_eq_ok ht
    obtain ⟨hsub, u, hu, rfl⟩ := senderStep_eq_ok ht
    rw [hsending] at hkeep
    simp only [keepsOwnership, hu, Bool.not_eq_true'] at hkeep
    have hadd := h.filled.addCtrlPkt hu
    exact h.flushed hadd.filled hadd.ctrlBatch hadd.handed hadd.nextPkt hsub hkeep
  | tryFlushCtrlBatch now accept reuse =>
    obtain ⟨-, ht⟩ := step_tryFlush_eq_ok ht
    obtain ⟨hsub, u, hu, rfl⟩ := senderStep_eq_ok ht
    simp only [keepsOwnership, hu, Bool.not_eq_true'] at hkeep
    cases hu
    exact h.flushed ⟨h.filled.length_eq, h.filled.used_le⟩ rfl rfl rfl hsub hkeep
  | cdq avail paused recv =>
    obtain ⟨r, out, -, rfl⟩ := step_cdq_eq_ok ht
    set k := min avail kMaxBurst
    have hperm : (s.sender.ctrlBatch ++ s.doorbellQueue.drop k ++
        (s.pool ++ s.doorbellQueue.take k)).Perm
          (s.sender.ctrlBatch ++ s.doorbellQueue ++ s.pool) := by
      rw [List.perm_iff_count]
      intro p
      have hqueue : (s.doorbellQueue.take k).count p + (s.doorbellQueue.drop k).count p =
          s.doorbellQueue.count p := by
        rw [← List.count_append, List.take_append_drop]
      simp only [List.count_append]
      omega
    exact ⟨h.filled, hperm.nodup_iff.2 h.nodup, fun p hp => h.lt_next p (hperm.mem_iff.1 hp)⟩

/-- With an owned batch, `SendCtrlPkt` writes to a packet that is at no other place. -/
theorem Owns.keepsMessages {op : Op} (h : s.Owns) (ht : s.step op = .ok t) :
    s.keepsMessages op = true := by
  cases op with
  | sendCtrlPkt now accept reuse =>
    obtain ⟨m, hsending, ht⟩ := step_sendCtrlPkt_eq_ok ht
    obtain ⟨-, u, hu, -⟩ := senderStep_eq_ok ht
    have hadd := h.filled.addCtrlPkt hu
    obtain ⟨hlt, hslot⟩ := hadd.slot
    have hnd := h.nodup
    simp only [System.keepsMessages, hsending, decide_eq_true_iff]
    left
    intro hmem
    rcases List.mem_append.1 hmem with hmem | hmem
    · have hbatch : s.sender.nextSlot ∈ s.sender.ctrlBatch := hslot ▸ List.getElem_mem hlt
      exact (List.nodup_append.1 (List.nodup_append.1 hnd).1).2.2 _ hbatch _ hmem rfl
    · have hpending : (u.pending).Nodup := by
        rw [pending, hadd.ctrlBatch]
        exact (List.nodup_append.1 (List.nodup_append.1 hnd).1).1.sublist (List.take_sublist _ _)
      rw [hadd.pending_eq] at hpending
      exact (List.nodup_append.1 hpending).2.2 _ hmem _ (List.mem_singleton_self _) rfl
  | sendPackets qid prio pkts accept => rfl
  | tryFlushCtrlBatch now accept reuse => rfl
  | cdq avail paused recv => rfl

/-- **Runs without a flush that takes the whole of a part of the batch** keep the messages that
are under way, so the account balances in them. -/
theorem balanced_of_ownsBatch (hs : Run.ReachIf step ownsBatch init s) : s.Balanced := by
  have h : s.Owns ∧ Run.ReachIf step announces init s := by
    refine hs.invariant (P := fun s => s.Owns ∧ Run.ReachIf step announces init s)
      ⟨Owns.init, .refl⟩ fun u op v ⟨howns, hreach⟩ hG hstep => ?_
    have hannounces : u.announces op = true :=
      Bool.and_eq_true_iff.2 ⟨(Bool.and_eq_true_iff.1 hG).1, howns.keepsMessages hstep⟩
    exact ⟨howns.step hG hstep, hreach.tail ⟨op, hannounces, hstep⟩⟩
  exact (wf_balanced_of_reach h.2).2

end System

end Backdraft

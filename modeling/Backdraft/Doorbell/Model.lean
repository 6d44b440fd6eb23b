import Backdraft.QueueOut.CtrlBatch
import Backdraft.QueueInc.Cdq

/-!
# Doorbells: the system

One `BKDRFTQueueOut` and one `BKDRFTQueueInc` in doorbell mode, over data queues and a doorbell
queue that lose nothing.  The doorbell queue carries references: the receiver sees what a control
packet holds when it reads it, as in the vport.

* `System`, `System.step`: `SendPacket` in its two parts, the send on the data queue and
  `SendCtrlPkt`; `TryFlushCtrlBatch`; `CDQ`;
* `pool`: the packets that `CDQ` has freed, from which `AllocBulk` may take any before it takes
  packets that were never used.  A packet that the batch still holds after it was sent is freed
  all the same, so it can come back to a second place of the batch;
* `Balanced`: what the receiver's counter, the messages in the doorbell queue and the messages in
  the batch announce for a data queue is what the queue holds;
* `keepsMessages`: `SendCtrlPkt` writes its message to a packet that is neither in the doorbell
  queue nor among those that wait in the batch, or that holds the same message.

Between the two parts of `SendPacket` the packets just sent are not announced yet; `Balanced` has
a term for them, which is 0 when no `SendPacket` is under way.
-/

namespace Backdraft

namespace CtrlBatch

/-- The packets of the batch that wait to be sent. -/
def pending (s : CtrlBatch) : List ℕ := s.ctrlBatch.take s.ctrlBatchUsed

/-- The packet that the next message is written to. -/
def nextSlot (s : CtrlBatch) : ℕ := s.ctrlBatch.getD s.ctrlBatchUsed default

/-- What `AllocBulk` gives for `n` packets: freed ones as far as they go, then new ones. -/
def allocBulk (reuse : List ℕ) (next n : ℕ) : List ℕ :=
  reuse.take n ++ List.range' next (n - reuse.length)

theorem length_allocBulk (reuse : List ℕ) (next n : ℕ) :
    (allocBulk reuse next n).length = n := by
  rw [allocBulk, List.length_append, List.length_take, List.length_range']
  omega

variable {s t : CtrlBatch}

theorem Filled.init : init.Filled where
  length_eq := List.length_range
  used_le := Nat.zero_le _

/-- A flush moves messages from the front of the pending ones to the port. -/
theorem flush_moves {alloc : ℕ → List ℕ} (h : s.Filled) (halloc : ∀ n, (alloc n).length = n)
    (accept : ℕ) :
    ∃ n, (s.flush accept alloc).handed = s.handed ++ s.pending.take n ∧
      (s.flush accept alloc).pending = s.pending.drop n ∧
      (s.flush accept alloc).payload = s.payload := by
  have hpayload : (s.flush accept alloc).payload = s.payload := by
    unfold flush
    split <;> rfl
  cases hcan : s.canFlush with
  | false =>
    rw [flush_of_not_canFlush hcan]
    exact ⟨0, by simp, by simp, rfl⟩
  | true =>
    obtain ⟨hhanded, -, hused⟩ := flush_fields accept alloc hcan
    refine ⟨min accept s.ctrlBatchUsed, ?_, ?_, hpayload⟩
    · rw [hhanded, pending, List.take_take, min_eq_left (min_le_right _ _)]
    · unfold pending
      rw [hused]
      rcases Nat.lt_or_ge accept s.ctrlBatchUsed with hlt | hge
      · have hlen : s.ctrlBatchUsed - accept ≤ (s.ctrlBatch.drop accept).length := by
          have := h.used_le
          rw [List.length_drop, h.length_eq]
          omega
        rw [ctrlBatch_flush_of_lt h halloc hcan hlt, min_eq_left hlt.le,
          List.take_append_of_le_length hlen, List.drop_take]
      · rw [min_eq_right hge, Nat.sub_self, List.take_zero, List.drop_take, Nat.sub_self,
          List.take_zero]

/-- What a call does before its flush: at most it writes one message to the next packet. -/
structure Adds (s t : CtrlBatch) (msg : CdqPayload) : Prop where
  filled : t.Filled
  ctrlBatch : t.ctrlBatch = s.ctrlBatch
  used : t.ctrlBatchUsed = s.ctrlBatchUsed + 1
  handed : t.handed = s.handed
  nextPkt : t.nextPkt = s.nextPkt
  payload : t.payload = Function.update s.payload s.nextSlot msg
  slot : ∃ h : s.ctrlBatchUsed < s.ctrlBatch.length, s.nextSlot = s.ctrlBatch[s.ctrlBatchUsed]

/-- `SendCtrlPkt` up to its flush writes one message. -/
theorem Filled.addCtrlPkt {now qid prio sentPkts accept : ℕ} (h : s.Filled)
    (ht : s.beforeFlush (.sendCtrlPkt now qid prio sentPkts accept) = .ok t) :
    Adds s t (prepareCtrlPacket qid prio (sentPkts % 2 ^ 16)) := by
  rw [CtrlBatch.beforeFlush, CtrlBatch.addCtrlPkt] at ht
  by_cases hlimit : ctrlBatchSize ≤ s.ctrlBatchUsed
  · simp [hlimit] at ht
  · rw [if_neg hlimit, Except.ok.injEq] at ht
    have hlt : s.ctrlBatchUsed < s.ctrlBatch.length := by rw [h.length_eq]; omega
    subst ht
    exact ⟨⟨h.length_eq, Nat.lt_of_not_le hlimit⟩, rfl, rfl, rfl, rfl, rfl, hlt,
      List.getD_eq_getElem _ _ hlt⟩

/-- The packet written to becomes the last of the pending ones. -/
theorem Adds.pending_eq {msg : CdqPayload} (h : Adds s t msg) :
    t.pending = s.pending ++ [s.nextSlot] := by
  obtain ⟨hlt, hslot⟩ := h.slot
  rw [pending, h.ctrlBatch, h.used, hslot, pending, List.take_append_getElem]

end CtrlBatch

open CtrlBatch Cdq

/-- Packets that `SendPacket` has sent and is about to announce. -/
structure Sending where
  qid : ℕ
  prio : ℕ
  sentPkts : ℕ

/-- Sender, queues, receiver, and the packets freed so far that were not allocated again.
`sending` is set within `SendPacket`. -/
structure System where
  sender : CtrlBatch
  sending : Option Sending
  dataQueue : ℕ → List ℕ
  doorbellQueue : List ℕ
  receiver : Cdq
  pool : List ℕ

namespace System

/-- A step of the sender or the receiver, with what the queues accept or return, and for a flush
the freed packets that `AllocBulk` would give first. -/
inductive Op
  /-- `SendPackets` in `SendPacket` -/
  | sendPackets (qid prio : ℕ) (pkts : List ℕ) (accept : ℕ)
  /-- `SendCtrlPkt` in `SendPacket` -/
  | sendCtrlPkt (now accept : ℕ) (reuse : List ℕ)
  | tryFlushCtrlBatch (now accept : ℕ) (reuse : List ℕ)
  | cdq (avail : ℕ) (paused : ℕ → Bool) (recv : ℕ → ℕ)

/-- Why a step cannot be made. -/
inductive Fault
  /-- the sender is, or is not, within `SendPacket` -/
  | notNow
  /-- the pool does not have the packets that `AllocBulk` is to give -/
  | notFree
  | sender (e : CtrlBatch.Fatal)
  | receiver (e : Cdq.Fault)
  deriving DecidableEq

def init : System := ⟨CtrlBatch.init, none, fun _ => [], [], Cdq.init, []⟩

/-- The messages that control packets hold. -/
def messages (payload : ℕ → CdqPayload) (pkts : List ℕ) : List DoorbellMsg :=
  pkts.map fun p => .ctrl (payload p).qid (payload p).nbPkts

/-- The end of a call of the sender, its flush: what it hands to the port enters the doorbell
queue, and as many packets are allocated, those of `reuse` first. -/
def flushed (s : System) (u : CtrlBatch) (accept : ℕ) (reuse : List ℕ) : System :=
  let t := u.flush accept (allocBulk reuse u.nextPkt)
  let sent := t.handed.drop s.sender.handed.length
  { s with
    sender := t
    sending := none
    doorbellQueue := s.doorbellQueue ++ sent
    pool := s.pool.diff (reuse.take sent.length) }

/-- A call of the sender on its batch. -/
def senderStep (s : System) (op : CtrlBatch.Op) (reuse : List ℕ) : Except Fault System :=
  if reuse.Subperm s.pool then
    match s.sender.beforeFlush op with
    | .error e => .error (.sender e)
    | .ok u => .ok (s.flushed u op.accept reuse)
  else .error .notFree

/-- One step. -/
def step (s : System) : Op → Except Fault System
  | .sendPackets qid prio pkts accept =>
    match s.sending with
    | some _ => .error .notNow
    | none =>
      let sent := min accept pkts.length
      .ok { s with
        dataQueue := Function.update s.dataQueue qid (s.dataQueue qid ++ pkts.take sent)
        sending := if 0 < sent then some ⟨qid, prio, sent⟩ else none }
  | .sendCtrlPkt now accept reuse =>
    match s.sending with
    | none => .error .notNow
    | some m => s.senderStep (.sendCtrlPkt now m.qid m.prio m.sentPkts accept) reuse
  | .tryFlushCtrlBatch now accept reuse =>
    match s.sending with
    | some _ => .error .notNow
    | none => s.senderStep (.tryFlush now accept) reuse
  | .cdq avail paused recv =>
    let k := min avail kMaxBurst
    match s.receiver.cdq (messages s.sender.payload (s.doorbellQueue.take k)) paused
      fun q => min (recv q) (s.dataQueue q).length with
    | .error e => .error (.receiver e)
    | .ok (r, out) => .ok { s with
        receiver := r
        doorbellQueue := s.doorbellQueue.drop k
        -- `Packet::Free` of each control packet read
        pool := s.pool ++ s.doorbellQueue.take k
        dataQueue := fun q => (s.dataQueue q).drop (readFrom out q) }

/-- A batch of `SendPacket` has at most 32 packets, and data queues are below 32. -/
def fits : Op → Bool
  | .sendPackets qid _ pkts _ => decide (qid < maxQueuesPerDir ∧ pkts.length ≤ kMaxBurst)
  | _ => true

/-- `SendCtrlPkt` does not change a message that is in the doorbell queue or waits in the batch. -/
def keepsMessages (s : System) : Op → Bool
  | .sendCtrlPkt _ _ _ =>
    match s.sending with
    | none => true
    | some m =>
      decide (s.sender.nextSlot ∉ s.doorbellQueue ++ s.sender.pending ∨
        (s.sender.payload s.sender.nextSlot).qid = m.qid ∧
          (s.sender.payload s.sender.nextSlot).nbPkts = m.sentPkts)
  | _ => true

/-- What was sent on a queue and not announced, within `SendPacket`. -/
def owed (s : System) (q : ℕ) : ℕ :=
  match s.sending with
  | none => 0
  | some m => if q = m.qid then m.sentPkts else 0

/-- What the messages of control packets announce for a queue. -/
def announcedBy (s : System) (q : ℕ) (pkts : List ℕ) : ℕ :=
  announcedFor q (messages s.sender.payload pkts)

/-- For each data queue: the receiver's counter, what is announced in the doorbell queue and in
the batch, and what `SendPacket` has yet to announce, are together what the queue holds. -/
def Balanced (s : System) : Prop :=
  ∀ q < maxQueuesPerDir,
    s.receiver.remainingDpkt q + s.announcedBy q s.doorbellQueue +
      s.announcedBy q s.sender.pending + s.owed q = (s.dataQueue q).length

/-! ### Messages -/

theorem announcedFor_append (q : ℕ) (l₁ l₂ : List DoorbellMsg) :
    announcedFor q (l₁ ++ l₂) = announcedFor q l₁ + announcedFor q l₂ := by
  induction l₁ with
  | nil => simp [announcedFor]
  | cons m l₁ ih => cases m <;> simp [announcedFor, ih, Nat.add_assoc]

/-- What one message announces for a queue. -/
def share (q : ℕ) (m : CdqPayload) : ℕ := if q = m.qid then m.nbPkts else 0

theorem announcedFor_cons (q p : ℕ) (payload : ℕ → CdqPayload) (pkts : List ℕ) :
    announcedFor q (messages payload (p :: pkts)) =
      share q (payload p) + announcedFor q (messages payload pkts) := rfl

/-- Writing a message to a packet changes what its occurrences announce. -/
theorem announcedFor_update (q p : ℕ) (payload : ℕ → CdqPayload) (m : CdqPayload)
    (pkts : List ℕ) :
    announcedFor q (messages (Function.update payload p m) pkts) +
        pkts.count p * share q (payload p) =
      announcedFor q (messages payload pkts) + pkts.count p * share q m := by
  induction pkts with
  | nil => simp [messages]
  | cons p' pkts ih =>
    rw [announcedFor_cons, announcedFor_cons]
    by_cases hp : p' = p
    · subst hp
      rw [Function.update_self, List.count_cons_self, Nat.add_mul, Nat.add_mul]
      omega
    · rw [Function.update_of_ne hp, List.count_cons_of_ne hp]
      omega

theorem announcedFor_messages_append (q : ℕ) (payload : ℕ → CdqPayload) (l₁ l₂ : List ℕ) :
    announcedFor q (messages payload (l₁ ++ l₂)) =
      announcedFor q (messages payload l₁) + announcedFor q (messages payload l₂) := by
  rw [messages, List.map_append, announcedFor_append]; rfl

/-- Two messages of the same queue and number announce the same; a message that announces
something announces it for its queue only. -/
theorem share_eq_iff {m m' : CdqPayload} (hpos : 0 < m.nbPkts) (hq : m.qid < maxQueuesPerDir) :
    (∀ q < maxQueuesPerDir, share q m' = share q m) ↔ m'.qid = m.qid ∧ m'.nbPkts = m.nbPkts := by
  constructor
  · intro h
    have hself := h m.qid hq
    simp only [share, if_true] at hself
    split_ifs at hself with hqid
    · exact ⟨hqid.symm, hself⟩
    · omega
  · rintro ⟨hqid, hnb⟩ q -
    simp only [share, hqid, hnb]

end System

end Backdraft

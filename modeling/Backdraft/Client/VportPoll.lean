import Backdraft.Client.Poll
import Backdraft.Client.VportSelect
import Backdraft.Packet.VportMsg

/-!
# Polling on a vport, and the tables of the doorbell consumers

`vport_poll_ctrl_queue_expose_qid` of `bkdrft_vport.c`, and what the three functions that read a
doorbell queue do with the queue id of a message.

* `VportPoller`, `vportPoll`: the call, with the two tables of `VportSelect` at the constant of the
  source;
* `isOk_addAnnounced_iff`: which messages the call can take without leaving its tables;
* `vportPoll_error`: no call stays within its tables;
* `consumers_in_range_iff`: the three consumers together.

`overview_segment` has `MAX_QUEUES_PER_DIR / 64` words, which is none, and so every access to it is
outside: the one of a message that makes an entry of `queue_status` positive, and the first one of
`_select_queue`, which every call makes.
-/

namespace Backdraft.Client

/-- The state between calls: the tables, and the packets that wait on each queue of the port. -/
structure VportPoller extends SelectTables maxQueuesPerDir where
  port : ℕ → List Mbuf

namespace VportPoller

/-- `recv_packets_vport`. -/
def rxBurst (s : VportPoller) (q n : ℕ) : VportPoller :=
  { s with port := Function.update s.port q ((s.port q).drop n) }

/-- The tables after one control message. -/
def addAnnounced (s : VportPoller) (dqid dqBurst : ℕ) : Except VportFault VportPoller :=
  (s.toSelectTables.addAnnounced dqid dqBurst).map fun t => { s with toSelectTables := t }

/-- The tables after the packets that were read from the doorbell queue. -/
def readDoorbell (unpack : List UInt8 → Option Ctrl) (s : VportPoller) :
    List Mbuf → Except VportFault VportPoller
  | [] => .ok s
  | p :: ps =>
    match vportCtrlMsg unpack p with
    | none => s.readDoorbell unpack ps
    | some (dqid, dqBurst) =>
      match s.addAnnounced dqid dqBurst with
      | .error e => .error e
      | .ok s => s.readDoorbell unpack ps

/-- The tables after `n` packets of a queue were read. -/
def subRead (s : VportPoller) (dqid n : ℕ) : Except VportFault VportPoller :=
  (s.toSelectTables.subRead dqid n).map fun t => { s with toSelectTables := t }

end VportPoller

/-- `vport_poll_ctrl_queue_expose_qid`, for at most `fuel` readings of the doorbell queue: the
queue that was read and its packets, or nothing; `none` when the call is still running. -/
def vportPoll (unpack : List UInt8 → Option Ctrl) (ctrlQid burst : ℕ) (blocking : Bool) :
    ℕ → VportPoller → Except VportFault (Option (VportPoller × Option (ℕ × List Mbuf)))
  | 0, _ => .ok none
  | fuel + 1, s =>
    let ctrlRxBufs := (s.port ctrlQid).take ctrlBurst
    let s := s.rxBurst ctrlQid ctrlBurst
    match s.readDoorbell unpack ctrlRxBufs with
    | .error e => .error e
    | .ok s =>
      match s.selectQueue with
      | .error e => .error e
      | .ok none =>
        if blocking then vportPoll unpack ctrlQid burst blocking fuel s else .ok (some (s, none))
      | .ok (some dqid) =>
        let recvBufs := (s.port dqid).take burst
        let s := s.rxBurst dqid burst
        if recvBufs = [] then vportPoll unpack ctrlQid burst blocking fuel s
        else
          match s.subRead dqid recvBufs.length with
          | .error e => .error e
          | .ok s => .ok (some (s, some (dqid, recvBufs)))

/-! ### The tables of the three consumers -/

theorem ctrlMessage_ne_queueOutOfRange_iff (s : Cdq) (dqid nbPkts : ℕ) :
    s.ctrlMessage dqid nbPkts ≠ .error .queueOutOfRange ↔ dqid ≠ maxQueuesPerDir := by
  unfold Cdq.ctrlMessage
  split_ifs with hlt heq
  · simpa using hlt.ne'
  · simpa using heq
  · unfold Cdq.toInt64
    split_ifs <;> simpa using heq

theorem isOk_addAnnounced_iff_lt (status : ℕ → QueueStatus) (dqid dqBurst : ℕ) :
    (∃ status', addAnnounced status dqid dqBurst = .ok status') ↔ dqid < countQueue := by
  unfold addAnnounced
  split_ifs with hle
  · simpa using hle
  · simpa using hle

theorem overviewSegment_getElem? (s : VportPoller) (j : ℕ) : s.overviewSegment[j]? = none :=
  Vector.getElem?_eq_none (by simp [maxQueuesPerDir])

/-- A message stays within the tables when its queue exists and its entry is not positive
afterwards. -/
theorem isOk_addAnnounced_iff (s : VportPoller) (dqid dqBurst : ℕ) :
    (∃ s', s.addAnnounced dqid dqBurst = .ok s') ↔
      ∃ status, s.queueStatus[dqid]? = some status ∧ toInt32 (status + dqBurst) ≤ 0 := by
  unfold VportPoller.addAnnounced SelectTables.addAnnounced
  cases hstatus : s.queueStatus[dqid]? with
  | none => simp [Except.map]
  | some status =>
    by_cases hpos : 0 < toInt32 (status + dqBurst)
    · simp [hpos, SelectTables.updateWord, overviewSegment_getElem?, Except.map]
    · simp [hpos, Except.map]
      omega

/-- **Every call leaves the tables.** -/
theorem vportPoll_error (unpack : List UInt8 → Option Ctrl) (ctrlQid burst : ℕ) (blocking : Bool)
    (fuel : ℕ) (s : VportPoller) :
    ∃ e, vportPoll unpack ctrlQid burst blocking (fuel + 1) s = .error e := by
  have hselect : ∀ u : VportPoller, u.selectQueue = .error .overviewOutOfRange := by
    intro u
    simp only [SelectTables.selectQueue, SelectTables.selectFrom, overviewSegment_getElem?]
  simp only [vportPoll]
  cases (s.rxBurst ctrlQid ctrlBurst).readDoorbell unpack ((s.port ctrlQid).take ctrlBurst) with
  | error e => exact ⟨e, rfl⟩
  | ok u => exact ⟨.overviewOutOfRange, by simp only [hselect]⟩

/-- **Which messages the doorbell consumers take without leaving their tables.**  `CDQ` drops the
ids above 32 and leaves its table at 32.  The client takes the low 8 bits of an id and leaves its
table at 8 and more.  On a vport a message has to be for one of the 32 queues and to leave its entry
at zero or less, and every call leaves the tables nevertheless. -/
theorem consumers_in_range_iff (qid nbPkts : ℕ) (hq : qid < 2 ^ 16) :
    (∀ s : Cdq, (s.ctrlMessage qid nbPkts ≠ .error .queueOutOfRange ↔ qid ≠ maxQueuesPerDir) ∧
      (maxQueuesPerDir < qid → s.ctrlMessage qid nbPkts = .ok s)) ∧
    (∀ status, (∃ status', addAnnounced status (qid % 2 ^ 8) (nbPkts % 2 ^ 16) = .ok status') ↔
      qid % 2 ^ 8 < countQueue) ∧
    (∀ s : VportPoller, (∃ s', s.addAnnounced (qid % 2 ^ 16) (nbPkts % 2 ^ 16) = .ok s') ↔
      ∃ status, s.queueStatus[qid]? = some status ∧
        toInt32 (status + (nbPkts % 2 ^ 16 : ℕ)) ≤ 0) ∧
    (∀ (s : VportPoller) unpack ctrlQid burst blocking fuel,
      ∃ e, vportPoll unpack ctrlQid burst blocking (fuel + 1) s = .error e) := by
  refine ⟨fun s => ⟨?_, fun hlt => ?_⟩, fun status => ?_, fun s => ?_, ?_⟩
  · exact ctrlMessage_ne_queueOutOfRange_iff s qid nbPkts
  · rw [Cdq.ctrlMessage, if_pos hlt]
  · exact isOk_addAnnounced_iff_lt status _ _
  · rw [isOk_addAnnounced_iff, Nat.mod_eq_of_lt hq]
  · intro s unpack ctrlQid burst blocking fuel
    exact vportPoll_error unpack ctrlQid burst blocking fuel s

/-- A message for queue 3 stays within the table of the client, and `CDQ` drops one for queue 259,
whose low 8 bits are 3. -/
theorem consumers_in_range_iff_queue_three :
    3 < 2 ^ 16 ∧ 259 < 2 ^ 16 ∧
    (∃ status', addAnnounced (fun _ => ⟨0, 0⟩) 3 7 = .ok status') ∧
    Cdq.init.ctrlMessage 259 7 = .ok Cdq.init :=
  ⟨by decide, by decide,
    ((consumers_in_range_iff 3 7 (by decide)).2.1 _).2 (by decide),
    ((consumers_in_range_iff 259 7 (by decide)).1 _).2 (by decide)⟩

/-- The message for queue 32, that for queue 8, and any message on a vport make the consumers leave
their tables. -/
theorem consumers_out_of_range :
    Cdq.init.ctrlMessage 32 1 = .error .queueOutOfRange ∧
    addAnnounced (fun _ => ⟨0, 0⟩) 8 1 = .error .queueOutOfRange ∧
    (⟨.start _, fun _ => []⟩ : VportPoller).addAnnounced 1 1 = .error .overviewOutOfRange ∧
    vportPoll unpackAll 0 32 false 1 ⟨.start _, fun _ => []⟩ = .error .overviewOutOfRange :=
  ⟨rfl, rfl, rfl, rfl⟩

end Backdraft.Client

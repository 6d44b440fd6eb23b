import Backdraft.Lib.Run
import Backdraft.Packet.RoundTrip

/-!
# Polling for announced packets

`poll_ctrl_queue_expose_qid` of `bkdrft.c`.  A call reads control messages from the doorbell queue,
adds what they announce to a table that is kept between calls, selects a queue with a positive
entry and reads it.  It starts over when that yields nothing.  But the table is looked at only
after a control packet was read: with an empty doorbell queue a call that does not block returns
nothing and one that blocks waits, even when the table has a queue with announced packets.

* `Poller`, `selectQueue`, `poll`: the state between calls and a call;
* `Stocked`: every data queue holds what is announced for it and not read;
* `poll_of_ne_nil`: in such a state, a call that finds a control packet returns data, if the table
  has an announced packet;
* `poll_delivers_iff`: the call delivers exactly when the doorbell queue is not empty.

A call is given a number of readings of the doorbell queue after which it is said to be still
running, and no packets arrive during a call.  An entry of the table is at most the length of its
queue, so the overflow of its 64 bits is not modelled.
-/

namespace Backdraft.Client

/-- `struct queue_status`. -/
structure QueueStatus where
  nbPkts : ℤ
  prio : ℤ
  deriving DecidableEq

/-- Change the number of packets of an entry. -/
def QueueStatus.add (e : QueueStatus) (n : ℤ) : QueueStatus := { e with nbPkts := e.nbPkts + n }

/-- The state between calls: the packets that wait on each queue of the port, and the table
`queue_status`. -/
structure Poller where
  port : ℕ → List Mbuf
  status : ℕ → QueueStatus

/-- `count_queue`. -/
def countQueue : ℕ := 8

/-- `COUNT_PRIORITY`. -/
def countPriority : ℕ := 2

/-- `ctrl_burst`. -/
def ctrlBurst : ℕ := 512

/-- What the language leaves undefined, and a call that has not returned. -/
inductive PollFault
  /-- an access to `queue_status` at an index of 8 or more -/
  | queueOutOfRange
  | running
  deriving DecidableEq

/-- `_select_queue`. -/
def selectQueue (status : ℕ → QueueStatus) : Option ℕ :=
  (List.range countPriority).findSome? fun prio : ℕ =>
    (List.range countQueue).find? fun i => (status i).prio = (prio : ℤ) ∧ 0 < (status i).nbPkts

/-- The table after one control message. -/
def addAnnounced (status : ℕ → QueueStatus) (dqid dqBurst : ℕ) :
    Except PollFault (ℕ → QueueStatus) :=
  if countQueue ≤ dqid then .error .queueOutOfRange
  else .ok (Function.update status dqid ((status dqid).add dqBurst))

/-- The table after the packets that were read from the doorbell queue. -/
def readDoorbell (status : ℕ → QueueStatus) : List Mbuf → Except PollFault (ℕ → QueueStatus)
  | [] => .ok status
  | p :: ps =>
    match ctrlMsg p with
    | none => readDoorbell status ps
    | some (dqid, dqBurst) =>
      match addAnnounced status dqid dqBurst with
      | .error e => .error e
      | .ok status => readDoorbell status ps

namespace Poller

/-- `rte_eth_rx_burst`: the packets after the first `n` of a queue are left. -/
def rxBurst (s : Poller) (q n : ℕ) : Poller :=
  { s with port := Function.update s.port q ((s.port q).drop n) }

/-- The entry of a queue after `n` of its packets were read. -/
def subRead (s : Poller) (q n : ℕ) : Poller :=
  { s with status := Function.update s.status q ((s.status q).add (-n)) }

end Poller

/-- `poll_ctrl_queue_expose_qid`, for at most `fuel` readings of the doorbell queue: the queue that
was read and its packets, or nothing; `none` when the call is still running. -/
def poll (ctrlQid burst : ℕ) (blocking : Bool) :
    ℕ → Poller → Except PollFault (Option (Poller × Option (ℕ × List Mbuf)))
  | 0, _ => .ok none
  | fuel + 1, s =>
    let ctrlRxBufs := (s.port ctrlQid).take ctrlBurst
    let s := s.rxBurst ctrlQid ctrlBurst
    if ctrlRxBufs = [] then
      if blocking then poll ctrlQid burst blocking fuel s else .ok (some (s, none))
    else
      match readDoorbell s.status ctrlRxBufs with
      | .error e => .error e
      | .ok status =>
        let s := { s with status }
        match selectQueue status with
        | none => poll ctrlQid burst blocking fuel s
        | some dqid =>
          let recvBufs := (s.port dqid).take burst
          let s := s.rxBurst dqid burst
          if recvBufs = [] then poll ctrlQid burst blocking fuel s
          else .ok (some (s.subRead dqid recvBufs.length, some (dqid, recvBufs)))

/-! ### Announced packets -/

/-- The number of packets of queue `q` that packets announce to the client. -/
def pendingFor (q : ℕ) (ps : List Mbuf) : ℕ := announcedIn ctrlMsg q ps

/-- A packet announces packets of a data queue only. -/
def ForDataQueue (ctrlQid : ℕ) (p : Mbuf) : Prop :=
  ∀ q n, ctrlMsg p = some (q, n) → q < countQueue ∧ q ≠ ctrlQid

/-- Every data queue holds what is announced for it and not read. -/
structure Stocked (ctrlQid : ℕ) (s : Poller) : Prop where
  target : ∀ p ∈ s.port ctrlQid, ForDataQueue ctrlQid p
  held : ∀ q ≠ ctrlQid,
    (s.status q).nbPkts + pendingFor q (s.port ctrlQid) ≤ (s.port q).length
  ctrl : (s.status ctrlQid).nbPkts ≤ 0

/-- The table has a queue of priority 0 or 1 with an announced packet. -/
def HasAnnounced (status : ℕ → QueueStatus) : Prop :=
  ∃ q < countQueue, ((status q).prio = 0 ∨ (status q).prio = 1) ∧ 0 < (status q).nbPkts

variable {ctrlQid burst fuel q dqid : ℕ} {blocking : Bool} {s s' : Poller}
  {status status' : ℕ → QueueStatus} {ps : List Mbuf} {p : Mbuf}

theorem selectQueue_eq_some (h : selectQueue status = some q) :
    q < countQueue ∧ 0 < (status q).nbPkts := by
  obtain ⟨prio, -, hfind⟩ := List.exists_of_findSome?_eq_some h
  have hmem := List.mem_of_find?_eq_some hfind
  have hpred := List.find?_some hfind
  simp only [decide_eq_true_eq] at hpred
  exact ⟨List.mem_range.1 hmem, hpred.2⟩

theorem selectQueue_eq_none_iff : selectQueue status = none ↔ ¬HasAnnounced status := by
  simp only [selectQueue, List.findSome?_eq_none_iff, List.find?_eq_none, List.mem_range,
    decide_eq_true_eq, HasAnnounced]
  constructor
  · rintro h ⟨q, hq, hprio | hprio, hpos⟩
    · exact h 0 (by decide) q hq ⟨hprio, hpos⟩
    · exact h 1 (by decide) q hq ⟨hprio, hpos⟩
  · intro h prio hprio q hq hpred
    refine h ⟨q, hq, ?_, hpred.2⟩
    unfold countPriority at hprio
    obtain rfl | rfl : prio = 0 ∨ prio = 1 := by omega
    · exact Or.inl hpred.1
    · exact Or.inr hpred.1

/-! ### A reading of the doorbell queue -/

theorem pendingFor_ctrlQid (h : ∀ p ∈ ps, ForDataQueue ctrlQid p) :
    pendingFor ctrlQid ps = 0 := by
  refine List.sum_eq_zero fun n hn => ?_
  obtain ⟨p, hp, rfl⟩ := List.mem_map.1 hn
  unfold announcedBy
  split
  · next qid nbPkts hmsg => exact if_neg (h p hp qid nbPkts hmsg).2
  · rfl

/-- The announcements that are read are added to the table. -/
theorem readDoorbell_eq (h : ∀ p ∈ ps, ForDataQueue ctrlQid p) :
    readDoorbell status ps = .ok fun q => (status q).add (pendingFor q ps) := by
  induction ps generalizing status with
  | nil => simp [readDoorbell, pendingFor, QueueStatus.add]
  | cons p ps ih =>
    have hps : ∀ p' ∈ ps, ForDataQueue ctrlQid p' := fun p' hp' => h p' (List.mem_cons_of_mem p hp')
    rw [readDoorbell]
    cases hmsg : ctrlMsg p with
    | none => simp [ih hps, pendingFor, announcedBy, hmsg]
    | some m =>
      obtain ⟨dqid, dqBurst⟩ := m
      have hlt := (h p List.mem_cons_self dqid dqBurst hmsg).1
      simp only [addAnnounced, if_neg (Nat.not_le.2 hlt), ih hps, Except.ok.injEq]
      funext q
      by_cases hq : q = dqid
      · subst hq
        simp [pendingFor, announcedBy, hmsg, QueueStatus.add, add_assoc]
      · simp [pendingFor, announcedBy, hmsg, Function.update_of_ne hq, Ne.symm hq]

/-- The state after a reading of the doorbell queue. -/
def afterDoorbell (ctrlQid : ℕ) (s : Poller) : Poller where
  port := Function.update s.port ctrlQid ((s.port ctrlQid).drop ctrlBurst)
  status q := (s.status q).add (pendingFor q ((s.port ctrlQid).take ctrlBurst))

/-- A reading that yields nothing leaves a queue as it was. -/
theorem Poller.rxBurst_eq_self {n : ℕ} (h : (s.port q).take n = []) : s.rxBurst q n = s := by
  have hdrop : (s.port q).drop n = s.port q := by
    conv_rhs => rw [← List.take_append_drop n (s.port q), h, List.nil_append]
  rw [Poller.rxBurst, hdrop, Function.update_eq_self]

theorem take_ctrlBurst_eq_nil {l : List Mbuf} : l.take ctrlBurst = [] ↔ l = [] := by
  simp [List.take_eq_nil_iff, ctrlBurst]

/-- With an empty doorbell queue the table is not looked at. -/
theorem poll_of_nil (hnil : s.port ctrlQid = []) :
    poll ctrlQid burst blocking (fuel + 1) s =
      if blocking then poll ctrlQid burst blocking fuel s else .ok (some (s, none)) := by
  have hself : s.rxBurst ctrlQid ctrlBurst = s := Poller.rxBurst_eq_self (by rw [hnil]; rfl)
  simp only [poll, take_ctrlBurst_eq_nil, hnil, if_true, hself]

namespace Stocked

/-- One reading of the doorbell queue, in a state without missing packets. -/
theorem poll_succ (h : Stocked ctrlQid s) :
    poll ctrlQid burst blocking (fuel + 1) s =
      if s.port ctrlQid = [] then
        if blocking then poll ctrlQid burst blocking fuel s else .ok (some (s, none))
      else
        match selectQueue (afterDoorbell ctrlQid s).status with
        | none => poll ctrlQid burst blocking fuel (afterDoorbell ctrlQid s)
        | some dqid =>
          let recvBufs := ((afterDoorbell ctrlQid s).port dqid).take burst
          if recvBufs = [] then poll ctrlQid burst blocking fuel (afterDoorbell ctrlQid s)
          else .ok (some ((((afterDoorbell ctrlQid s).rxBurst dqid burst).subRead dqid
            recvBufs.length), some (dqid, recvBufs))) := by
  by_cases hnil : s.port ctrlQid = []
  · rw [poll_of_nil hnil, if_pos hnil]
  · have hread : readDoorbell (s.rxBurst ctrlQid ctrlBurst).status
        ((s.port ctrlQid).take ctrlBurst) = .ok (afterDoorbell ctrlQid s).status :=
      readDoorbell_eq fun p hp => h.target p (List.mem_of_mem_take hp)
    have hport : (s.rxBurst ctrlQid ctrlBurst).port = (afterDoorbell ctrlQid s).port := rfl
    simp only [poll, take_ctrlBurst_eq_nil, hnil, if_false, hread, hport]
    cases selectQueue (afterDoorbell ctrlQid s).status with
    | none => rfl
    | some dqid =>
      by_cases hrecv : ((afterDoorbell ctrlQid s).port dqid).take burst = []
      · simp only [hrecv, if_true, Poller.rxBurst_eq_self hrecv]
      · simp only [hrecv, if_false]

theorem afterDoorbell (h : Stocked ctrlQid s) : Stocked ctrlQid (afterDoorbell ctrlQid s) where
  target p hp := by
    simp only [Client.afterDoorbell, Function.update_self] at hp
    exact h.target p (List.mem_of_mem_drop hp)
  held q hq := by
    have hheld := h.held q hq
    rw [← List.take_append_drop ctrlBurst (s.port ctrlQid), pendingFor, announcedIn_append] at hheld
    simp only [Client.afterDoorbell, QueueStatus.add, Function.update_self,
      Function.update_of_ne hq, pendingFor]
    push_cast at hheld ⊢
    omega
  ctrl := by
    have hzero := pendingFor_ctrlQid fun p (hp : p ∈ (s.port ctrlQid).take ctrlBurst) =>
      h.target p (List.mem_of_mem_take hp)
    simpa [Client.afterDoorbell, QueueStatus.add, hzero] using h.ctrl

/-- A queue that is selected has a packet. -/
theorem of_selectQueue (h : Stocked ctrlQid s) (hselect : selectQueue s.status = some dqid) :
    dqid ≠ ctrlQid ∧ s.port dqid ≠ [] := by
  obtain ⟨-, hpos⟩ := selectQueue_eq_some hselect
  have hne : dqid ≠ ctrlQid := by
    rintro rfl
    exact absurd h.ctrl (not_le.2 hpos)
  refine ⟨hne, fun hnil => ?_⟩
  have hheld := h.held dqid hne
  rw [hnil, List.length_nil] at hheld
  omega

/-- The packets that are read are taken from the queue and from the table. -/
theorem read (h : Stocked ctrlQid s) (hne : dqid ≠ ctrlQid) :
    Stocked ctrlQid ((s.rxBurst dqid burst).subRead dqid ((s.port dqid).take burst).length) where
  target p hp := by
    simp only [Poller.subRead, Poller.rxBurst, Function.update_of_ne hne.symm] at hp
    exact h.target p hp
  held q hq := by
    have hheld := h.held q hq
    simp only [Poller.subRead, Poller.rxBurst, Function.update_of_ne hne.symm]
    by_cases hqd : q = dqid
    · subst hqd
      simp only [Function.update_self, QueueStatus.add, List.length_take, List.length_drop]
      omega
    · simp only [Function.update_of_ne hqd]
      exact hheld
  ctrl := by
    simp only [Poller.subRead, Poller.rxBurst, Function.update_of_ne hne.symm]
    exact h.ctrl

/-- What a call returns in a state without missing packets is such a state again. -/
theorem of_poll {r : Option (ℕ × List Mbuf)} (h : Stocked ctrlQid s)
    (hpoll : poll ctrlQid burst blocking fuel s = .ok (some (s', r))) : Stocked ctrlQid s' := by
  induction fuel generalizing s with
  | zero => cases hpoll
  | succ fuel ih =>
    rw [h.poll_succ] at hpoll
    split_ifs at hpoll with hnil hblocking
    · exact ih h hpoll
    · cases hpoll
      exact h
    · split at hpoll
      · exact ih h.afterDoorbell hpoll
      · next dqid hselect =>
        obtain ⟨hne, -⟩ := h.afterDoorbell.of_selectQueue hselect
        simp only at hpoll
        split_ifs at hpoll with hrecv
        · exact ih h.afterDoorbell hpoll
        · cases hpoll
          exact h.afterDoorbell.read hne

/-- **A call that finds a control packet delivers, when the table has an announced packet.** -/
theorem poll_of_ne_nil (h : Stocked ctrlQid s) (hnil : s.port ctrlQid ≠ []) (hburst : 0 < burst)
    (hannounced : HasAnnounced (Client.afterDoorbell ctrlQid s).status) :
    ∃ s' dqid pkts, poll ctrlQid burst blocking (fuel + 1) s = .ok (some (s', some (dqid, pkts))) ∧
      0 < pkts.length := by
  cases hselect : selectQueue (Client.afterDoorbell ctrlQid s).status with
  | none => exact absurd hannounced (selectQueue_eq_none_iff.1 hselect)
  | some dqid =>
    obtain ⟨-, hqueue⟩ := h.afterDoorbell.of_selectQueue hselect
    have hrecv : ((Client.afterDoorbell ctrlQid s).port dqid).take burst ≠ [] := by
      simp [List.take_eq_nil_iff, hqueue, hburst.ne']
    rw [h.poll_succ, if_neg hnil, hselect]
    simp only [if_neg hrecv]
    exact ⟨_, dqid, _, rfl, List.length_pos_iff.2 hrecv⟩

end Stocked

/-- Announcements that are read keep a queue with an announced packet. -/
theorem HasAnnounced.afterDoorbell (h : HasAnnounced s.status) :
    HasAnnounced (afterDoorbell ctrlQid s).status := by
  obtain ⟨q, hq, hprio, hpos⟩ := h
  refine ⟨q, hq, hprio, ?_⟩
  simp only [Client.afterDoorbell, QueueStatus.add]
  omega

/-- With an empty doorbell queue a call delivers nothing. -/
theorem poll_ne_of_nil (hnil : s.port ctrlQid = []) {r : ℕ × List Mbuf} :
    poll ctrlQid burst blocking fuel s ≠ .ok (some (s', some r)) := by
  induction fuel with
  | zero => simp [poll]
  | succ fuel ih =>
    rw [poll_of_nil hnil]
    cases blocking with
    | true => exact ih
    | false => simp

/-- What a call delivers fits into the burst. -/
theorem length_le_of_poll {pkts : List Mbuf}
    (h : poll ctrlQid burst blocking fuel s = .ok (some (s', some (dqid, pkts)))) :
    pkts.length ≤ burst := by
  induction fuel generalizing s with
  | zero => simp [poll] at h
  | succ fuel ih =>
    simp only [poll] at h
    split_ifs at h
    · exact ih h
    · simp at h
    · split at h
      · cases h
      · split at h
        · exact ih h
        · split_ifs at h
          · exact ih h
          · cases h
            exact List.length_take_le _ _

/-- A call that does not block returns: each reading but the last takes a control packet. -/
theorem Stocked.poll_returns (h : Stocked ctrlQid s) (hfuel : (s.port ctrlQid).length < fuel) :
    ∃ s' r, poll ctrlQid burst false fuel s = .ok (some (s', r)) := by
  induction fuel generalizing s with
  | zero => exact absurd hfuel (Nat.not_lt_zero _)
  | succ fuel ih =>
    rw [h.poll_succ]
    by_cases hnil : s.port ctrlQid = []
    · exact ⟨s, none, by simp [hnil]⟩
    · have hshorter : ((Client.afterDoorbell ctrlQid s).port ctrlQid).length < fuel := by
        have hpos := List.length_pos_iff.2 hnil
        simp only [Client.afterDoorbell, Function.update_self, List.length_drop, ctrlBurst]
        omega
      rw [if_neg hnil]
      split
      · exact ih h.afterDoorbell hshorter
      · simp only
        split_ifs
        · exact ih h.afterDoorbell hshorter
        · exact ⟨_, _, rfl⟩

/-- A call that has read a control packet and returns nothing leaves no announced packet. -/
theorem Stocked.not_hasAnnounced (h : Stocked ctrlQid s) (hburst : 0 < burst)
    (hpoll : poll ctrlQid burst false fuel s = .ok (some (s', none))) :
    (s.port ctrlQid = [] ∧ s' = s) ∨ ¬HasAnnounced s'.status := by
  induction fuel generalizing s with
  | zero => cases hpoll
  | succ fuel ih =>
    by_cases hnil : s.port ctrlQid = []
    · rw [poll_of_nil hnil] at hpoll
      cases hpoll
      exact Or.inl ⟨hnil, rfl⟩
    · refine Or.inr ?_
      by_cases hannounced : HasAnnounced (Client.afterDoorbell ctrlQid s).status
      · obtain ⟨u, dqid, pkts, hdeliver, -⟩ := h.poll_of_ne_nil hnil hburst hannounced
        rw [hdeliver] at hpoll
        cases hpoll
      · rw [h.poll_succ, if_neg hnil, selectQueue_eq_none_iff.2 hannounced] at hpoll
        obtain ⟨-, rfl⟩ | hnone := ih h.afterDoorbell hpoll
        · exact hannounced
        · exact hnone

/-! ### Runs -/

/-- What happens on the port. -/
inductive PollEvent
  | ctrlArrives (p : Mbuf)
  | dataArrives (q : ℕ) (ps : List Mbuf)
  | poll (burst : ℕ) (blocking : Bool) (fuel : ℕ)

/-- The state before the first call. -/
def idlePoller : Poller := ⟨fun _ => [], fun _ => ⟨0, 0⟩⟩

/-- The state after an event; a call has to return. -/
def pollStep (ctrlQid : ℕ) (s : Poller) : PollEvent → Except PollFault Poller
  | .ctrlArrives p => .ok { s with port := Function.update s.port ctrlQid (s.port ctrlQid ++ [p]) }
  | .dataArrives q ps => .ok { s with port := Function.update s.port q (s.port q ++ ps) }
  | .poll burst blocking fuel =>
    match poll ctrlQid burst blocking fuel s with
    | .ok (some (s', _)) => .ok s'
    | .ok none => .error .running
    | .error e => .error e

/-- Packets of a data queue are announced when they are in the queue. -/
def announcesHeld (ctrlQid : ℕ) (s : Poller) : PollEvent → Bool
  | .ctrlArrives p =>
    match ctrlMsg p with
    | none => true
    | some (q, n) => decide (q < countQueue ∧ q ≠ ctrlQid ∧
        (s.status q).nbPkts + pendingFor q (s.port ctrlQid) + n ≤ (s.port q).length)
  | .dataArrives q _ => decide (q ≠ ctrlQid)
  | .poll _ _ _ => true

theorem stocked_idlePoller : Stocked ctrlQid idlePoller where
  target p hp := by simp [idlePoller] at hp
  held q _ := by simp [idlePoller, pendingFor]
  ctrl := le_rfl

/-- What is announced is held, with the new announcement. -/
theorem Stocked.of_announcesHeld (h : Stocked ctrlQid s)
    (hG : announcesHeld ctrlQid s (.ctrlArrives p) = true) :
    ForDataQueue ctrlQid p ∧ ∀ q ≠ ctrlQid,
      (s.status q).nbPkts + pendingFor q (s.port ctrlQid) + announcedBy ctrlMsg q p ≤
        (s.port q).length := by
  unfold announcesHeld at hG
  cases hmsg : ctrlMsg p with
  | none =>
    refine ⟨fun q n hq => by simp [hmsg] at hq, fun q hq => ?_⟩
    simpa [announcedBy, hmsg] using h.held q hq
  | some m =>
    obtain ⟨qid, nbPkts⟩ := m
    simp only [hmsg, decide_eq_true_eq] at hG
    obtain ⟨hlt, hne, hheld⟩ := hG
    constructor
    · intro q n hq
      obtain ⟨rfl, -⟩ : qid = q ∧ nbPkts = n := by simpa [hmsg] using hq
      exact ⟨hlt, hne⟩
    · intro q hq
      by_cases hqid : qid = q
      · subst hqid
        simpa [announcedBy, hmsg] using hheld
      · simpa [announcedBy, hmsg, hqid] using h.held q hq

theorem Stocked.step {e : PollEvent} (h : Stocked ctrlQid s)
    (hG : announcesHeld ctrlQid s e = true) (hstep : pollStep ctrlQid s e = .ok s') :
    Stocked ctrlQid s' := by
  cases e with
  | ctrlArrives p =>
    cases hstep
    obtain ⟨htarget, hheld⟩ := h.of_announcesHeld hG
    refine ⟨fun p' hp' => ?_, fun q hq => ?_, h.ctrl⟩
    · simp only [Function.update_self, List.mem_append, List.mem_singleton] at hp'
      obtain hp' | rfl := hp'
      · exact h.target p' hp'
      · exact htarget
    · have hq' := hheld q hq
      simp only [Function.update_self, Function.update_of_ne hq, pendingFor, announcedIn_append,
        announcedIn_cons, announcedIn_nil] at hq' ⊢
      push_cast at hq' ⊢
      omega
  | dataArrives q ps =>
    cases hstep
    have hne : q ≠ ctrlQid := by simpa [announcesHeld] using hG
    refine ⟨fun p hp => ?_, fun q' hq' => ?_, h.ctrl⟩
    · simp only [Function.update_of_ne hne.symm] at hp
      exact h.target p hp
    · have hheld := h.held q' hq'
      simp only [Function.update_of_ne hne.symm]
      by_cases hqq : q' = q
      · subst hqq
        rw [Function.update_self, List.length_append]
        push_cast
        omega
      · rw [Function.update_of_ne hqq]
        exact hheld
  | poll burst blocking fuel =>
    simp only [pollStep] at hstep
    split at hstep
    · next hpoll =>
      cases hstep
      exact h.of_poll hpoll
    · cases hstep
    · cases hstep

theorem stocked_of_reach (h : Run.ReachIf (pollStep ctrlQid) (announcesHeld ctrlQid) idlePoller s) :
    Stocked ctrlQid s :=
  h.invariant stocked_idlePoller fun _ _ _ hu hG hstep => hu.step hG hstep

/-- **In every state that is reached while the data queues hold what is announced, a call delivers
announced packets exactly when a control packet waits and the burst is not empty; and a call that
does not block and returns nothing has left no announced packet exactly when a control packet was
waiting, or there was no announced packet.** -/
theorem poll_delivers_iff
    (h : Run.ReachIf (pollStep ctrlQid) (announcesHeld ctrlQid) idlePoller s) :
    (HasAnnounced s.status → ∀ (burst : ℕ) (blocking : Bool),
      (∃ fuel s' dqid pkts, poll ctrlQid burst blocking fuel s =
          .ok (some (s', some (dqid, pkts))) ∧ 0 < pkts.length) ↔
        s.port ctrlQid ≠ [] ∧ 0 < burst) ∧
    (∀ burst, 0 < burst → ∃ fuel s' r, poll ctrlQid burst false fuel s = .ok (some (s', r)) ∧
      ((r = none → ¬HasAnnounced s'.status) ↔
        s.port ctrlQid ≠ [] ∨ ¬HasAnnounced s.status)) := by
  have hstocked := stocked_of_reach h
  constructor
  · intro hannounced burst blocking
    constructor
    · rintro ⟨fuel, s', dqid, pkts, hpoll, hpos⟩
      refine ⟨fun hnil => poll_ne_of_nil hnil hpoll, ?_⟩
      exact hpos.trans_le (length_le_of_poll hpoll)
    · rintro ⟨hnil, hburst⟩
      exact ⟨1, hstocked.poll_of_ne_nil hnil hburst hannounced.afterDoorbell⟩
  · intro burst hburst
    obtain ⟨s', r, hpoll⟩ : ∃ s' r, poll ctrlQid burst false ((s.port ctrlQid).length + 1) s =
        .ok (some (s', r)) := hstocked.poll_returns (Nat.lt_succ_self _)
    refine ⟨_, s', r, hpoll, ?_⟩
    constructor
    · intro hnone
      by_cases hnil : s.port ctrlQid = []
      · rw [poll_of_nil hnil] at hpoll
        cases hpoll
        exact Or.inr (hnone rfl)
      · exact Or.inl hnil
    · rintro hs rfl
      obtain ⟨hnil, rfl⟩ | hnone := hstocked.not_hasAnnounced hburst hpoll
      · exact hs.resolve_left (not_not_intro hnil)
      · exact hnone

/-- A packet of zeros. -/
def zeroMbuf : Mbuf := ⟨fun _ => 0, 128, 0, 0, 0, 0⟩

/-- A control packet that announces `n` packets of queue `q`. -/
def announcementOf (q n : ℕ) : Mbuf :=
  match ctrlPacket zeroMbuf q n (some zeroMbuf) with
  | .ok p => p
  | .error _ => zeroMbuf

/-- An announcement of two packets, and a reading of one. -/
def oneOfTwoRead : List PollEvent :=
  [.dataArrives 1 [zeroMbuf, zeroMbuf, zeroMbuf], .ctrlArrives (announcementOf 1 2),
    .poll 1 false 1]

/-- With another announcement the packet is delivered. -/
theorem poll_delivers_iff_announced_again :
    ∃ s, Run.ReachIf (pollStep 0) (announcesHeld 0) idlePoller s ∧ HasAnnounced s.status ∧
      ∃ fuel s' dqid pkts, poll 0 32 true fuel s = .ok (some (s', some (dqid, pkts))) ∧
        0 < pkts.length := by
  have hrun : ((Run.exec (pollStep 0) (announcesHeld 0) idlePoller
      (oneOfTwoRead ++ [.ctrlArrives (announcementOf 1 1)])).map fun s =>
        decide (s.status 1 = ⟨1, 0⟩) && !(s.port 0).isEmpty) = some true := by
    decide +kernel
  obtain ⟨s, hreach, hstate⟩ := Run.exists_reachIf _ hrun
  simp only [Bool.and_eq_true, decide_eq_true_eq, Bool.not_eq_true', List.isEmpty_eq_false_iff]
    at hstate
  have hannounced : HasAnnounced s.status :=
    ⟨1, by decide, by rw [hstate.1]; exact Or.inl rfl, by rw [hstate.1]; decide⟩
  exact ⟨s, hreach, hannounced,
    ((poll_delivers_iff hreach).1 hannounced 32 true).2 ⟨hstate.2, by decide⟩⟩

/-- With an empty doorbell queue the second packet that was announced is not delivered: a call
that does not block returns nothing, and a call that blocks does not return. -/
theorem announced_stranded :
    ∃ s, Run.ReachIf (pollStep 0) (announcesHeld 0) idlePoller s ∧ HasAnnounced s.status ∧
      (∀ fuel, poll 0 32 false (fuel + 1) s = .ok (some (s, none))) ∧
      ∀ fuel, poll 0 32 true fuel s = .ok none := by
  have hrun : ((Run.exec (pollStep 0) (announcesHeld 0) idlePoller oneOfTwoRead).map fun s =>
      decide (s.status 1 = ⟨1, 0⟩) && (s.port 0).isEmpty) = some true := by
    decide +kernel
  obtain ⟨s, hreach, hstate⟩ := Run.exists_reachIf _ hrun
  simp only [Bool.and_eq_true, decide_eq_true_eq, List.isEmpty_iff] at hstate
  have hannounced : HasAnnounced s.status :=
    ⟨1, by decide, by rw [hstate.1]; exact Or.inl rfl, by rw [hstate.1]; decide⟩
  refine ⟨s, hreach, hannounced, fun fuel => poll_of_nil hstate.2, ?_⟩
  intro fuel
  induction fuel with
  | zero => rfl
  | succ fuel ih => rw [poll_of_nil hstate.2, if_pos rfl, ih]

end Backdraft.Client

import Backdraft.Core
import Backdraft.Lib.Bits
import Backdraft.Lib.Run

/-!
# The receiver of doorbell messages

`CDQ` and `CheckQueuedCtrlMessages` of `bkdrft_queue_inc.cc`.  The receiver reads control messages
from its doorbell queue; each announces packets in a data queue.  `remaining_dpkt` counts what was
announced and not read, and `overview_mask_` has a bit for each queue whose counter is positive.
Then one queue with such a bit is read.

* `Cdq`, `ctrlMessage`, `checkQueuedCtrlMessages`, `cdq`;
* `Consistent`: mask and counters agree, and the counters are the account of what was announced
  and what was read;
* `cdq_consistent`: this holds in every run.

A data read takes what the port returns, up to a burst of 32, and not only what was announced, so
a counter can be negative; it never falls below -31, since only a queue with a positive counter is
read.

`overview_mask_` has one word: a receiver in this mode manages from 2 to 32 queues.  The queues
that are paused at a call are an argument, so the flows and times they depend on are left out, and
with them the handling of overlay messages, which touches neither mask nor counters.
-/

namespace Backdraft

/-- `MAX_QUEUES_PER_DIR`. -/
def maxQueuesPerDir : ℕ := 32

/-- A packet of the doorbell queue, as `parse_bkdrft_msg` sees it. -/
inductive DoorbellMsg
  | malformed
  | overlay
  | ctrl (qid nbPkts : ℕ)
  deriving DecidableEq

/-- The state of the receiver.  `scanFrom` is one more than the static `selected_bit`. -/
structure Cdq where
  remainingDpkt : ℕ → ℤ
  overviewMask : BitVec 64
  scanFrom : ℕ

namespace Cdq

/-- What the language leaves undefined. -/
inductive Fault
  /-- `q_status_[MAX_QUEUES_PER_DIR]` -/
  | queueOutOfRange
  /-- `remaining_dpkt` leaves the range of `int64_t` -/
  | counterOverflow
  deriving DecidableEq

/-- The end of `BKDRFTQueueInc::Init`. -/
def init : Cdq := ⟨fun _ => 0, 0, 0⟩

/-- A value for a variable of type `int64_t`. -/
def toInt64 (x : ℤ) : Except Fault ℤ :=
  if -2 ^ 63 ≤ x ∧ x < 2 ^ 63 then .ok x else .error .counterOverflow

/-- `CDQ` at one control message. -/
def ctrlMessage (s : Cdq) (dqid nbPkts : ℕ) : Except Fault Cdq :=
  if maxQueuesPerDir < dqid then .ok s
  else if dqid = maxQueuesPerDir then .error .queueOutOfRange
  else
    match toInt64 (s.remainingDpkt dqid + nbPkts) with
    | .error e => .error e
    | .ok remaining => .ok { s with
        remainingDpkt := Function.update s.remainingDpkt dqid remaining
        overviewMask :=
          if 0 < remaining then s.overviewMask ||| (1#64 <<< (dqid % 64)) else s.overviewMask }

/-- `CDQ` on the packets read from the doorbell queue. -/
def doorbell (s : Cdq) : List DoorbellMsg → Except Fault Cdq
  | [] => .ok s
  | .ctrl dqid nbPkts :: msgs =>
    match s.ctrlMessage dqid nbPkts with
    | .error e => .error e
    | .ok s => s.doorbell msgs
  | .malformed :: msgs => s.doorbell msgs
  | .overlay :: msgs => s.doorbell msgs

/-- `CheckQueuedCtrlMessages`. -/
def checkQueuedCtrlMessages (s : Cdq) (paused : ℕ → Bool) : Cdq × Option ℕ :=
  if s.overviewMask ≠ 0 then
    match Bits.firstOutside paused (s.overviewMask &&& (BitVec.allOnes 64 <<< s.scanFrom)) 65 with
    | some qid => ({ s with scanFrom := qid + 1 }, some qid)
    | none => ({ s with scanFrom := 0 }, none)
  else (s, none)

/-- `CDQ` after a read of `cnt` packets from the queue `qid`. -/
def afterRead (s : Cdq) (qid cnt : ℕ) : Except Fault Cdq :=
  match toInt64 (s.remainingDpkt qid - cnt) with
  | .error e => .error e
  | .ok remaining => .ok { s with
      remainingDpkt := Function.update s.remainingDpkt qid remaining
      overviewMask :=
        if remaining ≤ 0 then s.overviewMask &&& ~~~(1#64 <<< (qid % 64)) else s.overviewMask }

/-- `CDQ`, when the doorbell queue returns `msgs` and a read of the queue `q` returns `recv q`
packets.  The result has the queue that was read and the number of packets. -/
def cdq (s : Cdq) (msgs : List DoorbellMsg) (paused : ℕ → Bool) (recv : ℕ → ℕ) :
    Except Fault (Cdq × Option (ℕ × ℕ)) :=
  match s.doorbell msgs with
  | .error e => .error e
  | .ok s =>
    match s.checkQueuedCtrlMessages paused with
    | (s, none) => .ok (s, none)
    | (s, some qid) =>
      let cnt := min (recv qid) kMaxBurst
      match s.afterRead qid cnt with
      | .error e => .error e
      | .ok s => .ok (s, some (qid, cnt))

/-! ### Mask and counters -/

/-- The number of packets that messages announce for a queue. -/
def announcedFor (q : ℕ) : List DoorbellMsg → ℕ
  | [] => 0
  | .ctrl qid nbPkts :: msgs => (if q = qid then nbPkts else 0) + announcedFor q msgs
  | .malformed :: msgs => announcedFor q msgs
  | .overlay :: msgs => announcedFor q msgs

/-- The messages are for queues that exist. -/
def qidsBelow : List DoorbellMsg → Bool
  | [] => true
  | .ctrl qid _ :: msgs => decide (qid < maxQueuesPerDir) && qidsBelow msgs
  | .malformed :: msgs => qidsBelow msgs
  | .overlay :: msgs => qidsBelow msgs

/-- The mask has the queues with a positive counter, and the counters are the account of what was
announced and what was read. -/
structure Consistent (s : Cdq) (announced read : ℕ → ℕ) : Prop where
  mask_lt : ∀ q, s.overviewMask.getLsbD q = true → q < maxQueuesPerDir
  mask_iff : ∀ q < maxQueuesPerDir, s.overviewMask.getLsbD q = true ↔ 0 < s.remainingDpkt q
  remaining_eq : ∀ q < maxQueuesPerDir, s.remainingDpkt q = (announced q : ℤ) - read q
  remaining_ge : ∀ q < maxQueuesPerDir, -31 ≤ s.remainingDpkt q

variable {s t : Cdq} {announced read : ℕ → ℕ} {q : ℕ}

theorem Consistent.init : Consistent init (fun _ => 0) (fun _ => 0) := by
  constructor <;> intros <;> simp_all [Cdq.init]

theorem toInt64_eq_ok {x y : ℤ} (h : toInt64 x = .ok y) : y = x := by
  unfold toInt64 at h
  split_ifs at h
  exact (Except.ok.inj h).symm

theorem toInt64_of_bounds {x : ℤ} (hlow : -31 ≤ x) (hhigh : x < 2 ^ 63) : toInt64 x = .ok x :=
  if_pos ⟨by omega, hhigh⟩

/-- A change of one counter, with its bit, keeps the others. -/
theorem Consistent.update {x : ℤ} {announced' read' : ℕ → ℕ} (h : s.Consistent announced read)
    (hq : q < maxQueuesPerDir) (hrem : t.remainingDpkt = Function.update s.remainingDpkt q x)
    (hmask : ∀ i, t.overviewMask.getLsbD i =
      if i = q then decide (0 < x) else s.overviewMask.getLsbD i)
    (hx : x = (announced' q : ℤ) - read' q) (hge : -31 ≤ x)
    (hother : ∀ i, i ≠ q → announced' i = announced i ∧ read' i = read i) :
    t.Consistent announced' read' := by
  have hself : t.remainingDpkt q = x := by rw [hrem, Function.update_self]
  have hrest : ∀ i, i ≠ q → t.remainingDpkt i = s.remainingDpkt i := by
    intro i hi
    rw [hrem, Function.update_of_ne hi]
  constructor
  · intro i hi
    by_cases hiq : i = q
    · rwa [hiq]
    · exact h.mask_lt i (by rwa [hmask, if_neg hiq] at hi)
  · intro i hi
    by_cases hiq : i = q
    · rw [hmask, if_pos hiq, hiq, hself, decide_eq_true_iff]
    · rw [hmask, if_neg hiq, hrest i hiq]
      exact h.mask_iff i hi
  · intro i hi
    by_cases hiq : i = q
    · rw [hiq, hself, hx]
    · rw [hrest i hiq, (hother i hiq).1, (hother i hiq).2]
      exact h.remaining_eq i hi
  · intro i hi
    by_cases hiq : i = q
    · rw [hiq, hself]; exact hge
    · rw [hrest i hiq]; exact h.remaining_ge i hi

/-! ### Announcements -/

theorem ctrlMessage_eq_ok {nbPkts : ℕ} (hq : q < maxQueuesPerDir)
    (h : s.ctrlMessage q nbPkts = .ok t) :
    t = { s with
      remainingDpkt := Function.update s.remainingDpkt q (s.remainingDpkt q + nbPkts)
      overviewMask :=
        if 0 < s.remainingDpkt q + nbPkts then s.overviewMask ||| (1#64 <<< q)
        else s.overviewMask } := by
  have hq64 : q < 64 := hq.trans (by decide)
  simp only [Cdq.ctrlMessage, if_neg (Nat.not_lt.2 hq.le), if_neg hq.ne, Nat.mod_eq_of_lt hq64]
    at h
  cases hx : toInt64 (s.remainingDpkt q + nbPkts) with
  | error e => simp [hx] at h
  | ok x =>
    rw [hx, Except.ok.injEq, toInt64_eq_ok hx] at h
    exact h.symm

/-- A message for an existing queue adds to its counter; the bit follows, because an announcement
never lowers the counter. -/
theorem Consistent.ctrlMessage {nbPkts : ℕ} (h : s.Consistent announced read)
    (hq : q < maxQueuesPerDir) (ht : s.ctrlMessage q nbPkts = .ok t) :
    t.Consistent (fun i => announced i + if i = q then nbPkts else 0) read := by
  have hq64 : q < 64 := hq.trans (by decide)
  have hge := h.remaining_ge q hq
  have hold := h.mask_iff q hq
  have heq := h.remaining_eq q hq
  rw [ctrlMessage_eq_ok hq ht]
  refine h.update hq rfl (fun i => ?_) ?_ (by omega) (fun i hi => ⟨by simp [hi], rfl⟩)
  · by_cases hpos : 0 < s.remainingDpkt q + nbPkts
    · simp only [if_pos hpos, Bits.getLsbD_turnOn hq64]
      by_cases hi : i = q <;> simp [hi, hpos]
    · simp only [if_neg hpos]
      by_cases hi : i = q
      · have hoff : ¬ s.overviewMask.getLsbD q = true := fun hon => hpos (by
          have := hold.1 hon
          omega)
        simp [hi, hpos, hoff]
      · simp [hi]
  · rw [heq, if_pos rfl]
    push_cast
    ring

theorem Consistent.ctrlMessage_ok {nbPkts : ℕ} (h : s.Consistent announced read)
    (hq : q < maxQueuesPerDir) (hbound : announced q + nbPkts < 2 ^ 63) :
    ∃ t, s.ctrlMessage q nbPkts = .ok t := by
  have hge := h.remaining_ge q hq
  have heq := h.remaining_eq q hq
  have hfits : toInt64 (s.remainingDpkt q + nbPkts) = .ok (s.remainingDpkt q + nbPkts) :=
    toInt64_of_bounds (by omega) (by omega)
  simp only [Cdq.ctrlMessage, if_neg (Nat.not_lt.2 hq.le), if_neg hq.ne, hfits]
  exact ⟨_, rfl⟩

/-- A control message that is read does not fault, and the rest is read after it. -/
theorem doorbell_ctrl_eq_ok {qid nbPkts : ℕ} {msgs : List DoorbellMsg}
    (ht : s.doorbell (.ctrl qid nbPkts :: msgs) = .ok t) :
    ∃ u, s.ctrlMessage qid nbPkts = .ok u ∧ u.doorbell msgs = .ok t := by
  rw [Cdq.doorbell] at ht
  cases hu : s.ctrlMessage qid nbPkts with
  | error e => simp [hu] at ht
  | ok u => exact ⟨u, rfl, by rwa [hu] at ht⟩

/-- The messages read from the doorbell queue keep mask and counters consistent. -/
theorem Consistent.doorbell (msgs : List DoorbellMsg) (h : s.Consistent announced read)
    (hqids : qidsBelow msgs = true) (ht : s.doorbell msgs = .ok t) :
    t.Consistent (fun i => announced i + announcedFor i msgs) read := by
  induction msgs generalizing s announced with
  | nil => cases ht; exact h
  | cons m msgs ih =>
    cases m with
    | malformed => exact ih h hqids ht
    | overlay => exact ih h hqids ht
    | ctrl qid nbPkts =>
      obtain ⟨hq, hrest⟩ := Bool.and_eq_true_iff.1 hqids
      obtain ⟨u, hu, ht⟩ := doorbell_ctrl_eq_ok ht
      have hsum := ih (h.ctrlMessage (of_decide_eq_true hq) hu) hrest ht
      simpa only [announcedFor, Nat.add_assoc] using hsum

/-- As long as the announcements fit, the counters do not overflow. -/
theorem Consistent.doorbell_ok (msgs : List DoorbellMsg) (h : s.Consistent announced read)
    (hqids : qidsBelow msgs = true)
    (hbound : ∀ q < maxQueuesPerDir, announced q + announcedFor q msgs < 2 ^ 63) :
    ∃ t, s.doorbell msgs = .ok t := by
  induction msgs generalizing s announced with
  | nil => exact ⟨s, rfl⟩
  | cons m msgs ih =>
    cases m with
    | malformed => exact ih h hqids hbound
    | overlay => exact ih h hqids hbound
    | ctrl qid nbPkts =>
      obtain ⟨hq, hrest⟩ := Bool.and_eq_true_iff.1 hqids
      have hqid := of_decide_eq_true hq
      have hself := hbound qid hqid
      simp only [announcedFor, if_true] at hself
      obtain ⟨u, hu⟩ : ∃ u, s.ctrlMessage qid nbPkts = .ok u := h.ctrlMessage_ok hqid (by omega)
      obtain ⟨t, ht⟩ := ih (h.ctrlMessage hqid hu) hrest fun q hq' => by
        simpa only [announcedFor, Nat.add_assoc] using hbound q hq'
      exact ⟨t, by rw [Cdq.doorbell, hu]; exact ht⟩

/-! ### The read of a data queue -/

/-- The scan changes only its own position, and it finds a queue of the mask that is not paused. -/
theorem checkQueuedCtrlMessages_eq {paused : ℕ → Bool} {found : Option ℕ}
    (h : s.checkQueuedCtrlMessages paused = (t, found)) :
    (∃ n, t = { s with scanFrom := n }) ∧
      ∀ qid, found = some qid → s.overviewMask.getLsbD qid = true ∧ paused qid = false := by
  unfold checkQueuedCtrlMessages at h
  by_cases hmask : s.overviewMask ≠ 0
  · rw [if_pos hmask] at h
    cases hfound : Bits.firstOutside paused
        (s.overviewMask &&& (BitVec.allOnes 64 <<< s.scanFrom)) 65 with
    | none =>
      rw [hfound, Prod.mk.injEq] at h
      obtain ⟨rfl, rfl⟩ := h
      exact ⟨⟨0, rfl⟩, fun qid hqid => absurd hqid (by simp)⟩
    | some b =>
      rw [hfound, Prod.mk.injEq] at h
      obtain ⟨rfl, rfl⟩ := h
      refine ⟨⟨b + 1, rfl⟩, fun qid hqid => ?_⟩
      cases hqid
      obtain ⟨hbit, hpaused⟩ := Bits.of_firstOutside hfound
      rw [BitVec.getLsbD_and, Bool.and_eq_true_iff] at hbit
      exact ⟨hbit.1, hpaused⟩
  · rw [if_neg hmask, Prod.mk.injEq] at h
    obtain ⟨rfl, rfl⟩ := h
    exact ⟨⟨s.scanFrom, rfl⟩, fun qid hqid => absurd hqid (by simp)⟩

/-- The scan keeps mask and counters. -/
theorem Consistent.check {paused : ℕ → Bool} {found : Option ℕ} (h : s.Consistent announced read)
    (ht : s.checkQueuedCtrlMessages paused = (t, found)) : t.Consistent announced read := by
  obtain ⟨⟨n, rfl⟩, -⟩ := checkQueuedCtrlMessages_eq ht
  exact ⟨h.mask_lt, h.mask_iff, h.remaining_eq, h.remaining_ge⟩

theorem mask_of_check {paused : ℕ → Bool} (h : s.checkQueuedCtrlMessages paused = (t, some q)) :
    t.overviewMask.getLsbD q = true := by
  obtain ⟨⟨n, rfl⟩, hsel⟩ := checkQueuedCtrlMessages_eq h
  exact (hsel q rfl).1

theorem afterRead_eq_ok {cnt : ℕ} (h : s.afterRead q cnt = .ok t) :
    t = { s with
      remainingDpkt := Function.update s.remainingDpkt q (s.remainingDpkt q - cnt)
      overviewMask :=
        if s.remainingDpkt q - cnt ≤ 0 then s.overviewMask &&& ~~~(1#64 <<< (q % 64))
        else s.overviewMask } := by
  rw [Cdq.afterRead] at h
  cases hx : toInt64 (s.remainingDpkt q - cnt) with
  | error e => simp [hx] at h
  | ok x =>
    rw [hx, Except.ok.injEq, toInt64_eq_ok hx] at h
    exact h.symm

/-- A read lowers the counter of a queue of the mask; it is still positive exactly if its bit is
kept. -/
theorem Consistent.afterRead {cnt : ℕ} (h : s.Consistent announced read)
    (hbit : s.overviewMask.getLsbD q = true) (hcnt : cnt ≤ kMaxBurst)
    (ht : s.afterRead q cnt = .ok t) :
    t.Consistent announced (fun i => read i + if i = q then cnt else 0) := by
  have hq := h.mask_lt q hbit
  have hq64 : q < 64 := hq.trans (by decide)
  have hpos := (h.mask_iff q hq).1 hbit
  have heq := h.remaining_eq q hq
  have hburst : cnt ≤ 32 := hcnt
  rw [afterRead_eq_ok ht, Nat.mod_eq_of_lt hq64]
  refine h.update hq rfl (fun i => ?_) ?_ (by omega) (fun i hi => ⟨rfl, by simp [hi]⟩)
  · by_cases hle : s.remainingDpkt q - cnt ≤ 0
    · simp only [if_pos hle, Bits.getLsbD_turnOff hq64]
      by_cases hi : i = q
      · simpa [hi] using hle
      · simp [hi]
    · simp only [if_neg hle]
      by_cases hi : i = q
      · simpa [hi, hbit] using hle
      · simp [hi]
  · rw [heq, if_pos rfl]
    push_cast
    ring

theorem Consistent.afterRead_ok {cnt : ℕ} (h : s.Consistent announced read)
    (hbit : s.overviewMask.getLsbD q = true) (hcnt : cnt ≤ kMaxBurst)
    (hbound : announced q < 2 ^ 63) : ∃ t, s.afterRead q cnt = .ok t := by
  have hq := h.mask_lt q hbit
  have hpos := (h.mask_iff q hq).1 hbit
  have heq := h.remaining_eq q hq
  have hburst : cnt ≤ 32 := hcnt
  have hfits : toInt64 (s.remainingDpkt q - cnt) = .ok (s.remainingDpkt q - cnt) :=
    toInt64_of_bounds (by omega) (by omega)
  simp only [Cdq.afterRead, hfits]
  exact ⟨_, rfl⟩

/-- The packets of the read that were in a queue. -/
def readFrom : Option (ℕ × ℕ) → ℕ → ℕ
  | none, _ => 0
  | some (qid, cnt), q => if q = qid then cnt else 0

/-- What a call of `CDQ` does: the messages, the scan, and the read if the scan found a queue. -/
theorem cdq_eq_ok {msgs : List DoorbellMsg} {paused : ℕ → Bool} {recv : ℕ → ℕ}
    {out : Option (ℕ × ℕ)} (h : s.cdq msgs paused recv = .ok (t, out)) :
    ∃ u, s.doorbell msgs = .ok u ∧
      ((u.checkQueuedCtrlMessages paused = (t, none) ∧ out = none) ∨
        ∃ v qid cnt, u.checkQueuedCtrlMessages paused = (v, some qid) ∧
          cnt = min (recv qid) kMaxBurst ∧ v.afterRead qid cnt = .ok t ∧
            out = some (qid, cnt)) := by
  rw [Cdq.cdq] at h
  cases hu : s.doorbell msgs with
  | error e => simp [hu] at h
  | ok u =>
    refine ⟨u, rfl, ?_⟩
    simp only [hu] at h
    rcases hv : u.checkQueuedCtrlMessages paused with ⟨v, _ | qid⟩
    · simp only [hv, Except.ok.injEq, Prod.mk.injEq] at h
      obtain ⟨rfl, rfl⟩ := h
      exact .inl ⟨rfl, rfl⟩
    · simp only [hv] at h
      cases hw : v.afterRead qid (min (recv qid) kMaxBurst) with
      | error e => simp [hw] at h
      | ok w =>
        simp only [hw, Except.ok.injEq, Prod.mk.injEq] at h
        obtain ⟨rfl, rfl⟩ := h
        exact .inr ⟨v, qid, _, rfl, rfl, hw, rfl⟩

/-- The counter of an existing queue after messages, whatever queues they are for. -/
theorem remaining_doorbell (msgs : List DoorbellMsg) (hq : q < maxQueuesPerDir)
    (ht : s.doorbell msgs = .ok t) :
    t.remainingDpkt q = s.remainingDpkt q + announcedFor q msgs := by
  induction msgs generalizing s with
  | nil => cases ht; simp [announcedFor]
  | cons m msgs ih =>
    cases m with
    | malformed => exact ih ht
    | overlay => exact ih ht
    | ctrl qid nbPkts =>
      obtain ⟨u, hu, ht⟩ := doorbell_ctrl_eq_ok ht
      rw [ih ht, announcedFor]
      rcases Nat.lt_trichotomy qid maxQueuesPerDir with hlt | heq | hgt
      · rw [ctrlMessage_eq_ok hlt hu]
        by_cases hqid : q = qid
        · subst hqid; simp; ring
        · simp [hqid]
      · simp [Cdq.ctrlMessage, heq] at hu
      · rw [Cdq.ctrlMessage, if_pos hgt, Except.ok.injEq] at hu
        simp [hu, (hq.trans hgt).ne]

/-- The counter of an existing queue after a call of `CDQ`. -/
theorem remaining_cdq {msgs : List DoorbellMsg} {paused : ℕ → Bool} {recv : ℕ → ℕ}
    {out : Option (ℕ × ℕ)} (hq : q < maxQueuesPerDir)
    (ht : s.cdq msgs paused recv = .ok (t, out)) :
    t.remainingDpkt q = s.remainingDpkt q + announcedFor q msgs - readFrom out q := by
  obtain ⟨u, hu, ⟨hnone, rfl⟩ | ⟨v, qid, cnt, hv, -, hread, rfl⟩⟩ := cdq_eq_ok ht
  · obtain ⟨⟨n, rfl⟩, -⟩ := checkQueuedCtrlMessages_eq hnone
    simp [← remaining_doorbell msgs hq hu, readFrom]
  · obtain ⟨⟨n, rfl⟩, -⟩ := checkQueuedCtrlMessages_eq hv
    rw [afterRead_eq_ok hread, ← remaining_doorbell msgs hq hu]
    by_cases hqid : q = qid
    · subst hqid; simp [readFrom]
    · simp [readFrom, hqid]

/-- A read returns no more than the port gives. -/
theorem readFrom_le {msgs : List DoorbellMsg} {paused : ℕ → Bool} {recv : ℕ → ℕ}
    {out : Option (ℕ × ℕ)} (ht : s.cdq msgs paused recv = .ok (t, out)) (q : ℕ) :
    readFrom out q ≤ recv q := by
  obtain ⟨u, -, ⟨-, rfl⟩ | ⟨v, qid, cnt, -, rfl, -, rfl⟩⟩ := cdq_eq_ok ht
  · exact Nat.zero_le _
  · rw [readFrom]
    split_ifs with hqid
    · rw [hqid]; exact min_le_left _ _
    · exact Nat.zero_le _

/-- `CDQ` keeps mask and counters consistent. -/
theorem Consistent.cdq {msgs : List DoorbellMsg} {paused : ℕ → Bool} {recv : ℕ → ℕ}
    {out : Option (ℕ × ℕ)} (h : s.Consistent announced read) (hqids : qidsBelow msgs = true)
    (ht : s.cdq msgs paused recv = .ok (t, out)) :
    t.Consistent (fun i => announced i + announcedFor i msgs) fun i => read i + readFrom out i := by
  obtain ⟨u, hu, ⟨hnone, rfl⟩ | ⟨v, qid, cnt, hv, rfl, hread, rfl⟩⟩ := cdq_eq_ok ht
  · exact (h.doorbell msgs hqids hu).check hnone
  · exact ((h.doorbell msgs hqids hu).check hv).afterRead (mask_of_check hv) (min_le_right _ _)
      hread

/-- `CDQ` meets no undefined behaviour as long as the announcements fit the counters. -/
theorem Consistent.cdq_ok {msgs : List DoorbellMsg} (h : s.Consistent announced read)
    (hqids : qidsBelow msgs = true)
    (hbound : ∀ q < maxQueuesPerDir, announced q + announcedFor q msgs < 2 ^ 63)
    (paused : ℕ → Bool) (recv : ℕ → ℕ) : ∃ t out, s.cdq msgs paused recv = .ok (t, out) := by
  obtain ⟨u, hu⟩ := h.doorbell_ok msgs hqids hbound
  have hcons := h.doorbell msgs hqids hu
  rw [Cdq.cdq, hu]
  rcases hv : u.checkQueuedCtrlMessages paused with ⟨v, _ | qid⟩
  · exact ⟨v, none, by simp only [hv]⟩
  · have hbit := mask_of_check hv
    have hlt := (hcons.check hv).mask_lt qid hbit
    obtain ⟨t, ht⟩ : ∃ t, v.afterRead qid (min (recv qid) kMaxBurst) = .ok t :=
      (hcons.check hv).afterRead_ok hbit (min_le_right _ _) (hbound qid hlt)
    exact ⟨t, some (qid, min (recv qid) kMaxBurst), by simp only [hv, ht]⟩

/-! ### Runs -/

/-- What a call of `CDQ` meets: the packets in the doorbell queue, the queues that are paused, and
how many packets a read of each queue returns. -/
structure Call where
  msgs : List DoorbellMsg
  paused : ℕ → Bool
  recv : ℕ → ℕ

/-- The receiver with the account of what was announced for each queue and read from it. -/
structure Account where
  cdq : Cdq
  announced : ℕ → ℕ
  read : ℕ → ℕ

/-- The receiver after `Init`. -/
def Account.init : Account := ⟨Cdq.init, fun _ => 0, fun _ => 0⟩

/-- One call of `CDQ`. -/
def Account.step (a : Account) (c : Call) : Except Fault Account :=
  match a.cdq.cdq c.msgs c.paused c.recv with
  | .error e => .error e
  | .ok (s, out) => .ok
    { cdq := s
      announced := fun q => a.announced q + announcedFor q c.msgs
      read := fun q => a.read q + readFrom out q }

/-- The control messages of the call are for queues that exist. -/
def validQids (_ : Account) (c : Call) : Bool := qidsBelow c.msgs

/-- One call keeps the receiver consistent with the account. -/
theorem Consistent.step {a b : Account} {c : Call}
    (h : a.cdq.Consistent a.announced a.read) (hqids : validQids a c = true)
    (hstep : a.step c = .ok b) : b.cdq.Consistent b.announced b.read := by
  unfold Account.step at hstep
  cases hcdq : a.cdq.cdq c.msgs c.paused c.recv with
  | error e => simp [hcdq] at hstep
  | ok r =>
    obtain ⟨s, out⟩ := r
    simp only [hcdq, Except.ok.injEq] at hstep
    subst hstep
    exact h.cdq hqids hcdq

/-- **The doorbell state of the receiver.**  In every run whose control messages are for existing
queues, the mask has exactly the queues with a positive counter, and each counter is what was
announced less what was read.  The next call is defined as long as what is announced for a queue
stays below `2 ^ 63`. -/
theorem cdq_consistent {a : Account} (ha : Run.ReachIf Account.step validQids Account.init a) :
    (∀ q < maxQueuesPerDir,
      (a.cdq.overviewMask.getLsbD q = true ↔ 0 < a.cdq.remainingDpkt q) ∧
        a.cdq.remainingDpkt q = (a.announced q : ℤ) - a.read q) ∧
      ∀ c, validQids a c = true →
        (∀ q < maxQueuesPerDir, a.announced q + announcedFor q c.msgs < 2 ^ 63) →
        ∃ b, a.step c = .ok b := by
  have h : a.cdq.Consistent a.announced a.read :=
    ha.invariant (P := fun a => a.cdq.Consistent a.announced a.read) Consistent.init
      fun _ _ _ h hqids hstep => h.step hqids hstep
  refine ⟨fun q hq => ⟨h.mask_iff q hq, h.remaining_eq q hq⟩, fun c hqids hbound => ?_⟩
  obtain ⟨t, out, ht⟩ := h.cdq_ok hqids hbound c.paused c.recv
  exact ⟨_, by rw [Account.step, ht]⟩

/-- Two packets are announced for queue 3 and a burst of ten is read, so the counter is -8; five
more that are announced leave it negative, and the bit off. -/
theorem cdq_consistent_after_overread :
    ∃ a, Run.ReachIf Account.step validQids Account.init a ∧ a.cdq.remainingDpkt 3 = -3 ∧
      a.cdq.overviewMask.getLsbD 3 = false ∧
      (a.cdq.overviewMask.getLsbD 3 = true ↔ 0 < a.cdq.remainingDpkt 3) ∧
      a.cdq.remainingDpkt 3 = (a.announced 3 : ℤ) - a.read 3 := by
  have hrun : ((Run.exec Account.step validQids Account.init
      [⟨[.malformed, .ctrl 3 2], fun _ => false, fun _ => 10⟩,
        ⟨[.ctrl 3 5], fun _ => false, fun _ => 10⟩]).map fun a =>
      decide (a.cdq.remainingDpkt 3 = -3 ∧ a.cdq.overviewMask.getLsbD 3 = false)) = some true := by
    decide +kernel
  obtain ⟨a, hreach, hdec⟩ := Run.exists_reachIf _ hrun
  obtain ⟨hrem, hbit⟩ := of_decide_eq_true hdec
  exact ⟨a, hreach, hrem, hbit, (cdq_consistent hreach).1 3 (by decide)⟩

end Cdq

end Backdraft

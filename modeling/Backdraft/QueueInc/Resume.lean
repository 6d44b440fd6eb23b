import Backdraft.Lib.Run
import Backdraft.Port.RateLimit
import Backdraft.SwDpCtrl

/-!
# The input module under backpressure

`BKDRFTQueueInc::RunTask` without a doorbell queue.  The module reads from its queue unless the
shared table says that the flow it saw last is paused.  After a read it copies the rate that the
table has for the flow of the batch to the limiter of the port.

* `QueueInc`, `isQueuePausedInCache`, `runTask`, `step`: the module, its port and the shared table,
  in which an output module pauses and resumes flows;
* `runTask_cases`, `step_cases`: what a call and a step can do;
* `resume_reads_iff`: when a resumption takes effect, and `resume_without_effect`: a run in which
  it does not;
* `stopped_forever`: after a read has copied the rate 0, nothing is read any more, whatever is
  written to the table, since only a read copies a rate;
* `resume_reads`: runs in which every resumption takes effect.

Without a doorbell queue the module manages one queue, `qid`, and overlay is off.  `RunTask` has
two clocks: `now` is `current_ns` of its context, `tsc` the time that `RateLimit` reads.
-/

namespace Backdraft

open Word

/-- `empty_flow`. -/
def emptyFlow : Flow := ⟨⟨0, 0, 0, 0, 0⟩, 0, 0⟩

/-- A `BKDRFTQueueInc` with its port and the shared table.  `statusUntil` is `q_status_[qid].until`,
`statusFlow` is `q_status_flows_[qid]`. -/
structure QueueInc where
  port : BDVPort
  qid : ℕ
  burst : ℕ
  backpressure : Bool
  statusUntil : ℕ
  statusFlow : Flow
  dpCtrl : SwDpCtrl

namespace QueueInc

/-- `Init`, with backpressure, on a port made at the time `tsc` with the given rate. -/
def init (qid rate tsc : ℕ) : QueueInc where
  port := ⟨true, true, RateLimiter.init rate tsc, fun _ => []⟩
  qid := qid
  burst := 32
  backpressure := true
  statusUntil := 0
  statusFlow := emptyFlow
  dpCtrl := SwDpCtrl.init

/-- `IsQueuePausedInCache`. -/
def isQueuePausedInCache (s : QueueInc) (now : ℕ) : Bool :=
  s.backpressure && !s.statusFlow.equalTo emptyFlow &&
    decide (now < (s.dpCtrl.getFlowStatus s.statusFlow).untilTs)

/-- `RunTask` after it has read a batch that begins with `pkt`: the rate for its flow is copied to
the limiter. -/
def copyRate (s : QueueInc) (pkt : Packet) : QueueInc :=
  if s.backpressure then
    let s := { s with statusFlow := pkt.flow }
    let entry := s.dpCtrl.getFlowStatus s.statusFlow
    if entry.untilTs ≠ 0 ∧ entry.untilTs ≠ s.statusUntil then
      { s with
        statusUntil := entry.untilTs
        port := { s.port with limiter := { s.port.limiter with
          limit := Function.update (Function.update s.port.limiter.limit
            (.out, s.qid) (entry.rate % 2 ^ 32)) (.inc, s.qid) (entry.rate % 2 ^ 32) } } }
    else s
  else s

/-- `RunTask`, with the packets read. -/
def runTask (s : QueueInc) (now tsc : ℕ) : QueueInc × List Packet :=
  if s.port.adminUp = false then (s, [])
  else if s.isQueuePausedInCache now then (s, [])
  else
    let (port, batch) := s.port.recvPackets tsc s.qid s.burst
    let s := { s with port := port }
    match batch with
    | [] => (s, [])
    | pkt :: pkts => (s.copyRate pkt, pkt :: pkts)

/-- A call of the module, packets that arrive at the port, and writes to the table by an output
module. -/
inductive Op
  | runTask (now tsc : ℕ)
  | arrive (pkts : List Packet)
  /-- `Pause` of the output module -/
  | pause (now : ℕ) (flow : Flow)
  /-- the end of a pause in `TrySendBufferPFQ` -/
  | resume (now : ℕ) (flow : Flow)
  /-- `CommandSetBurst` -/
  | setBurst (burst : ℕ)
  | setAdminUp (adminUp : Bool)

/-- One step.  None fails. -/
def step (s : QueueInc) : Op → Except Empty QueueInc
  | .runTask now tsc => .ok (s.runTask now tsc).1
  | .arrive pkts => .ok { s with port := { s.port with
      queues := Function.update s.port.queues s.qid (s.port.queues s.qid ++ pkts) } }
  | .pause now flow =>
    .ok { s with dpCtrl := s.dpCtrl.pauseFlow (wadd 64 now 10000000000) 0 flow }
  | .resume now flow => .ok { s with dpCtrl := s.dpCtrl.pauseFlow now 100000000 flow }
  | .setBurst burst => .ok (if 32 < burst then s else { s with burst := burst })
  | .setAdminUp adminUp => .ok { s with port := { s.port with adminUp := adminUp } }

variable {s t : QueueInc} {now tsc : ℕ} {pkt : Packet}

/-! ### What a call does -/

section CopyRate

@[simp] theorem qid_copyRate : (s.copyRate pkt).qid = s.qid := by
  simp only [copyRate]; split_ifs <;> rfl

@[simp] theorem burst_copyRate : (s.copyRate pkt).burst = s.burst := by
  simp only [copyRate]; split_ifs <;> rfl

@[simp] theorem dpCtrl_copyRate : (s.copyRate pkt).dpCtrl = s.dpCtrl := by
  simp only [copyRate]; split_ifs <;> rfl

@[simp] theorem rateLimiting_copyRate :
    (s.copyRate pkt).port.rateLimiting = s.port.rateLimiting := by
  simp only [copyRate]; split_ifs <;> rfl

@[simp] theorem token_copyRate : (s.copyRate pkt).port.limiter.token = s.port.limiter.token := by
  simp only [copyRate]; split_ifs <;> rfl

/-- The limit stays as it is, or it is the rate of the entry of the flow. -/
theorem limit_copyRate (s : QueueInc) (pkt : Packet) :
    (s.copyRate pkt).port.limiter.limit (.inc, s.qid) = s.port.limiter.limit (.inc, s.qid) ∨
    ∃ e, s.dpCtrl.flowBook.lookup pkt.flow.toFlowTuple = some e ∧
      (s.copyRate pkt).port.limiter.limit (.inc, s.qid) = e.rate % 2 ^ 32 := by
  simp only [copyRate]
  split_ifs with hbp hnew
  · -- the entry that `GetFlowStatus` makes up for other flows has `until` zero
    refine .inr ?_
    cases hlook : s.dpCtrl.flowBook.lookup pkt.flow.toFlowTuple with
    | none => simp [SwDpCtrl.getFlowStatus, hlook] at hnew
    | some e => exact ⟨e, rfl, by simp [SwDpCtrl.getFlowStatus, hlook]⟩
  · exact .inl rfl
  · exact .inl rfl

end CopyRate

/-- `RunTask` does nothing, or it reads nothing, or it reads a batch and copies a rate. -/
theorem runTask_cases (s : QueueInc) (now tsc : ℕ) :
    s.runTask now tsc = (s, []) ∨
    ∃ port, port = (s.port.recvPackets tsc s.qid s.burst).1 ∧
      (s.runTask now tsc = ({ s with port := port }, []) ∨
        ∃ pkt pkts, (s.port.recvPackets tsc s.qid s.burst).2 = pkt :: pkts ∧
          s.runTask now tsc = ({ s with port := port }.copyRate pkt, pkt :: pkts)) := by
  unfold runTask
  split_ifs
  · exact .inl rfl
  · exact .inl rfl
  · refine .inr ⟨_, rfl, ?_⟩
    cases hrecv : (s.port.recvPackets tsc s.qid s.burst).2 with
    | nil => exact .inl (by simp only [hrecv])
    | cons pkt pkts => exact .inr ⟨pkt, pkts, rfl, by simp only [hrecv]⟩

/-- `RunTask` returns what it reads. -/
theorem runTask_ne_nil_iff :
    (s.runTask now tsc).2 ≠ [] ↔ s.port.adminUp = true ∧ s.isQueuePausedInCache now = false ∧
      (s.port.recvPackets tsc s.qid s.burst).2 ≠ [] := by
  unfold runTask
  split_ifs with hdown hpaused
  · simp [hdown]
  · simp [hpaused]
  · cases hrecv : (s.port.recvPackets tsc s.qid s.burst).2 with
    | nil => simp [hrecv]
    | cons pkt pkts => simpa [hrecv] using ⟨by simpa using hdown, by simpa using hpaused⟩

/-- A step is a call of `RunTask`, or it leaves the limiter and the queue number alone. -/
theorem step_cases {op : Op} (hok : s.step op = .ok t) :
    (∃ now tsc, op = .runTask now tsc ∧ t = (s.runTask now tsc).1) ∨
    (t.port.limiter = s.port.limiter ∧ t.port.rateLimiting = s.port.rateLimiting ∧ t.qid = s.qid ∧
      (t.burst = s.burst ∨ t.burst ≤ 32) ∧
      (t.dpCtrl = s.dpCtrl ∨ ∃ ts rate flow, (rate = 0 ∨ rate = 100000000) ∧
        t.dpCtrl = s.dpCtrl.pauseFlow ts rate flow)) := by
  cases op with
  | runTask now tsc => cases hok; exact .inl ⟨now, tsc, rfl, rfl⟩
  | arrive pkts => cases hok; exact .inr ⟨rfl, rfl, rfl, .inl rfl, .inl rfl⟩
  | pause now flow =>
    cases hok
    exact .inr ⟨rfl, rfl, rfl, .inl rfl, .inr ⟨_, 0, flow, .inl rfl, rfl⟩⟩
  | resume now flow =>
    cases hok
    exact .inr ⟨rfl, rfl, rfl, .inl rfl, .inr ⟨now, 100000000, flow, .inr rfl, rfl⟩⟩
  | setBurst burst =>
    cases hok
    split_ifs with hbig
    · exact .inr ⟨rfl, rfl, rfl, .inl rfl, .inl rfl⟩
    · exact .inr ⟨rfl, rfl, rfl, .inr (not_lt.1 hbig), .inl rfl⟩
  | setAdminUp adminUp => cases hok; exact .inr ⟨rfl, rfl, rfl, .inl rfl, .inl rfl⟩

/-! ### Every run -/

/-- What holds of the module with backpressure: the port limits rates, and the limit is a 32-bit
number. -/
structure PortInv (s : QueueInc) : Prop where
  rateLimiting : s.port.rateLimiting = true
  limit_lt : s.port.limiter.limit (.inc, s.qid) < 2 ^ 32

theorem PortInv.runTask (h : s.PortInv) (now tsc : ℕ) : (s.runTask now tsc).1.PortInv := by
  obtain heq | ⟨port, rfl, heq | ⟨pkt, pkts, -, heq⟩⟩ := s.runTask_cases now tsc
  · rw [heq]; exact h
  · rw [heq]; exact ⟨by simpa using h.rateLimiting, by simpa using h.limit_lt⟩
  · rw [heq]
    refine ⟨by simpa using h.rateLimiting, ?_⟩
    obtain hlimit | ⟨e, -, hlimit⟩ := limit_copyRate
      { s with port := (s.port.recvPackets tsc s.qid s.burst).1 } pkt
    · simpa [hlimit] using h.limit_lt
    · simpa [hlimit] using Nat.mod_lt e.rate (Nat.two_pow_pos 32)

theorem PortInv.step {op : Op} (h : s.PortInv) (hok : s.step op = .ok t) : t.PortInv := by
  obtain ⟨now, tsc, -, rfl⟩ | ⟨hlimiter, hlim, hqid, -, -⟩ := step_cases hok
  · exact h.runTask now tsc
  · exact ⟨hlim.trans h.rateLimiting, by rw [hlimiter, hqid]; exact h.limit_lt⟩

/-- The flow seen last was resumed, there are packets, and more than a second has passed since the
limiter started to count. -/
structure Resumed (s : QueueInc) (now tsc : ℕ) : Prop where
  entry : ∃ untilTs ≤ now,
    s.dpCtrl.flowBook.lookup s.statusFlow.toFlowTuple = some ⟨untilTs, 100000000⟩
  queue : s.port.queues s.qid ≠ []
  past : s.port.limiter.timestamp (.inc, s.qid) + secondNs < tsc
  tsc_lt : tsc < 2 ^ 64

theorem PortInv.runTask_ne_nil_iff (h : s.PortInv) (hres : s.Resumed now tsc) :
    (s.runTask now tsc).2 ≠ [] ↔ s.port.adminUp = true ∧ 0 < s.burst ∧
      s.port.limiter.token (.inc, s.qid) < s.port.limiter.limit (.inc, s.qid) := by
  have hcache : s.isQueuePausedInCache now = false := by
    obtain ⟨untilTs, huntil, hentry⟩ := hres.entry
    have hpassed : ¬ now < (s.dpCtrl.getFlowStatus s.statusFlow).untilTs := by
      rw [SwDpCtrl.getFlowStatus, hentry]
      exact not_lt.2 huntil
    simp [isQueuePausedInCache, hpassed]
  rw [QueueInc.runTask_ne_nil_iff, BDVPort.recvPackets_ne_nil_iff h.rateLimiting,
    RateLimiter.rateLimit_of_lt h.limit_lt hres.past hres.tsc_lt]
  constructor
  · rintro ⟨hup, -, -, hallowed, hburst⟩
    exact ⟨hup, hburst, by omega⟩
  · rintro ⟨hup, hburst, htoken⟩
    exact ⟨hup, hcache, hres.queue, by omega, hburst⟩

/-- **When a resumption takes effect.**  In a state in which the flow seen last was resumed, with
packets in the queue and a second passed, `RunTask` reads a packet exactly if the port is up, the
burst is not zero, and the limit that was copied last is more than the tokens used. -/
theorem resume_reads_iff {qid rate tsc₀ : ℕ} (hrate : rate < 2 ^ 32)
    (hs : Run.ReachIf step (fun _ _ => true) (init qid rate tsc₀) s) (hres : s.Resumed now tsc) :
    (s.runTask now tsc).2 ≠ [] ↔ s.port.adminUp = true ∧ 0 < s.burst ∧
      s.port.limiter.token (.inc, s.qid) < s.port.limiter.limit (.inc, s.qid) := by
  have h : s.PortInv := hs.invariant (P := PortInv) ⟨rfl, hrate⟩ fun u op v hu _ hok => hu.step hok
  exact h.runTask_ne_nil_iff hres

/-- A flow for the runs below. -/
def httpFlow : Flow := ⟨⟨1, 2, 1000, 80, 6⟩, 0, 0⟩

/-- The hypotheses of `Resumed` as a test. -/
def resumedAt (s : QueueInc) (untilTs tsc : ℕ) : Bool :=
  decide (s.dpCtrl.flowBook.lookup s.statusFlow.toFlowTuple = some ⟨untilTs, 100000000⟩ ∧
    s.port.queues s.qid ≠ [] ∧ s.port.limiter.timestamp (.inc, s.qid) + secondNs < tsc)

theorem Resumed.of_resumedAt {untilTs : ℕ} (h : s.resumedAt untilTs tsc = true)
    (huntil : untilTs ≤ now) (htsc : tsc < 2 ^ 64) : s.Resumed now tsc := by
  obtain ⟨hentry, hqueue, hpast⟩ := of_decide_eq_true h
  exact ⟨⟨untilTs, huntil, hentry⟩, hqueue, hpast, htsc⟩

/-- The flow is paused and resumed before the next read, which copies the new rate. -/
theorem resume_reads_iff_after_pause :
    ∃ s, Run.ReachIf step (fun _ _ => true) (init 0 1000000 0) s ∧
      s.Resumed 5000000000 5000000000 ∧
      (s.port.limiter.limit (.inc, s.qid) = 100000000 ∧
        s.port.limiter.token (.inc, s.qid) = 2) ∧
      (s.runTask 5000000000 5000000000).2 ≠ [] := by
  have hrun : ((Run.exec step (fun _ _ => true) (init 0 1000000 0)
      [.arrive [⟨1, httpFlow⟩], .runTask 2000000 2000000, .pause 2000001 httpFlow,
        .arrive [⟨2, httpFlow⟩], .resume 3000000 httpFlow, .runTask 4000000 4000000,
        .arrive [⟨3, httpFlow⟩]]).map fun s =>
      s.resumedAt 3000000 5000000000 && decide ((s.port.limiter.limit (.inc, s.qid) = 100000000 ∧
        s.port.limiter.token (.inc, s.qid) = 2) ∧ s.port.adminUp = true ∧ 0 < s.burst)) =
      some true := by
    decide +kernel
  obtain ⟨s, hreach, hdec⟩ := Run.exists_reachIf _ hrun
  obtain ⟨hres, hdec⟩ := Bool.and_eq_true_iff.1 hdec
  obtain ⟨⟨hlimit, htoken⟩, hup, hburst⟩ := of_decide_eq_true hdec
  have hresumed : s.Resumed 5000000000 5000000000 := .of_resumedAt hres (by decide) (by decide)
  exact ⟨s, hreach, hresumed, ⟨hlimit, htoken⟩,
    (resume_reads_iff (by decide) hreach hresumed).2 ⟨hup, hburst, by omega⟩⟩

/-- The pause runs out after ten seconds, and the next read copies its rate, which is zero.  The
flow is resumed; but almost three seconds later, with a packet in the queue, `RunTask` reads
nothing. -/
theorem resume_without_effect :
    ∃ s, Run.ReachIf step (fun _ _ => true) (init 0 1000000 0) s ∧
      s.Resumed 13000000000 13000000000 ∧ s.port.adminUp = true ∧ 0 < s.burst ∧
      (s.runTask 13000000000 13000000000).2 = [] := by
  have hrun : ((Run.exec step (fun _ _ => true) (init 0 1000000 0)
      [.arrive [⟨1, httpFlow⟩], .runTask 2000000 2000000, .pause 2000001 httpFlow,
        .arrive [⟨2, httpFlow⟩], .runTask 10002000002 10002000002,
        .resume 10002000003 httpFlow, .arrive [⟨3, httpFlow⟩]]).map fun s =>
      s.resumedAt 10002000003 13000000000 && decide (s.port.adminUp = true ∧ 0 < s.burst ∧
        (s.runTask 13000000000 13000000000).2 = [])) = some true := by
    decide +kernel
  obtain ⟨s, hreach, hdec⟩ := Run.exists_reachIf _ hrun
  obtain ⟨hres, hdec⟩ := Bool.and_eq_true_iff.1 hdec
  exact ⟨s, hreach, .of_resumedAt hres (by decide) (by decide),
    of_decide_eq_true hdec⟩

/-! ### Limits that are never lifted, and runs without them -/

/-- The limit of the queue is zero. -/
structure Stopped (s : QueueInc) : Prop where
  rateLimiting : s.port.rateLimiting = true
  limit_eq : s.port.limiter.limit (.inc, s.qid) = 0

theorem Stopped.recvPackets_eq_nil (h : s.Stopped) (tsc : ℕ) :
    (s.port.recvPackets tsc s.qid s.burst).2 = [] := by
  by_contra hne
  have hpos := ((BDVPort.recvPackets_ne_nil_iff h.rateLimiting).1 hne).2.1
  rw [RateLimiter.rateLimit_of_limit_eq_zero h.limit_eq] at hpos
  exact absurd hpos (by decide)

theorem Stopped.step {op : Op} (h : s.Stopped) (hok : s.step op = .ok t) : t.Stopped := by
  obtain ⟨now, tsc, -, rfl⟩ | ⟨hlimiter, hlim, hqid, -, -⟩ := step_cases hok
  · obtain heq | ⟨port, rfl, heq | ⟨pkt, pkts, hread, -⟩⟩ := s.runTask_cases now tsc
    · rw [heq]; exact h
    · rw [heq]; exact ⟨by simpa using h.rateLimiting, by simpa using h.limit_eq⟩
    · rw [h.recvPackets_eq_nil tsc] at hread
      cases hread
  · exact ⟨hlim.trans h.rateLimiting, by rw [hlimiter, hqid]; exact h.limit_eq⟩

/-- **A limit of zero is never lifted.**  Nothing is read any more, whatever arrives and whatever
is written to the table. -/
theorem stopped_forever (h : s.Stopped) (hs : Run.ReachIf step (fun _ _ => true) s t)
    (now tsc : ℕ) : (t.runTask now tsc).2 = [] := by
  have ht : t.Stopped := hs.invariant (P := Stopped) h fun u op v hu _ hok => hu.step hok
  by_contra hne
  exact (runTask_ne_nil_iff.1 hne).2.2 (ht.recvPackets_eq_nil tsc)

/-- The limit is more than a burst and than the tokens used. -/
structure Open (s : QueueInc) : Prop where
  burst_le : s.burst ≤ 32
  limit_gt : 32 < s.port.limiter.limit (.inc, s.qid)
  limit_le : s.port.limiter.limit (.inc, s.qid) ≤ 100000000
  token_lt : s.port.limiter.token (.inc, s.qid) < s.port.limiter.limit (.inc, s.qid)
  rates : ∀ f e, s.dpCtrl.flowBook.lookup f = some e → e.rate = 0 ∨ e.rate = 100000000

/-- The batch that a call reads is not of a flow with a pause in the table. -/
def readsNoPaused (s : QueueInc) : Op → Bool
  | .runTask now tsc => (s.runTask now tsc).2.head?.all fun pkt =>
      decide ((s.dpCtrl.flowBook.lookup pkt.flow.toFlowTuple).map DpTblEntry.rate ≠ some 0)
  | _ => true

theorem Open.runTask (h : s.Open) (hread : s.readsNoPaused (.runTask now tsc) = true) :
    (s.runTask now tsc).1.Open := by
  have hlt : s.port.limiter.limit (.inc, s.qid) < 2 ^ 32 := lt_of_le_of_lt h.limit_le (by decide)
  have htoken : (s.port.recvPackets tsc s.qid s.burst).1.limiter.token (.inc, s.qid) <
      s.port.limiter.limit (.inc, s.qid) :=
    BDVPort.token_recvPackets_lt hlt h.token_lt (lt_of_le_of_lt h.burst_le h.limit_gt)
  have hgt := h.limit_gt
  have hle := h.limit_le
  obtain heq | ⟨port, rfl, heq | ⟨pkt, pkts, -, heq⟩⟩ := s.runTask_cases now tsc
  · rw [heq]; exact h
  · rw [heq]
    exact ⟨h.burst_le, by simpa using hgt, by simpa using hle, by simpa using htoken, h.rates⟩
  · rw [readsNoPaused, heq] at hread
    rw [heq]
    -- the limit is as it was or that of a resumption
    have hlimit : ({ s with port := (s.port.recvPackets tsc s.qid s.burst).1 }.copyRate
          pkt).port.limiter.limit (.inc, s.qid) = s.port.limiter.limit (.inc, s.qid) ∨
        ({ s with port := (s.port.recvPackets tsc s.qid s.burst).1 }.copyRate
          pkt).port.limiter.limit (.inc, s.qid) = 100000000 := by
      obtain hsame | ⟨e, he, hcopied⟩ := limit_copyRate
        { s with port := (s.port.recvPackets tsc s.qid s.burst).1 } pkt
      · exact .inl (by simpa using hsame)
      · have hrate : e.rate = 100000000 := by
          refine (h.rates _ e he).resolve_left fun hzero => ?_
          simp [he, hzero] at hread
        exact .inr (hcopied.trans (by rw [hrate]; rfl))
    refine ⟨by simpa using h.burst_le, ?_, ?_, ?_, by simpa using h.rates⟩
    all_goals
      simp only [qid_copyRate, token_copyRate]
      omega

theorem Open.step {op : Op} (h : s.Open) (hread : s.readsNoPaused op = true)
    (hok : s.step op = .ok t) : t.Open := by
  obtain ⟨now, tsc, rfl, rfl⟩ | ⟨hlimiter, -, hqid, hburst, hbook⟩ := step_cases hok
  · exact h.runTask hread
  · refine ⟨?_, ?_, ?_, ?_, fun f e he => ?_⟩
    · rcases hburst with hburst | hburst
      · exact hburst.le.trans h.burst_le
      · exact hburst
    · rw [hlimiter, hqid]; exact h.limit_gt
    · rw [hlimiter, hqid]; exact h.limit_le
    · rw [hlimiter, hqid]; exact h.token_lt
    · rcases hbook with hbook | ⟨ts, rate, flow, hrate, hbook⟩
      · exact h.rates f e (by rw [← hbook]; exact he)
      · rw [hbook] at he
        -- an entry is the one that was written, or it was there
        obtain ⟨-, rfl⟩ | ⟨-, hold⟩ := HashTable.lookup_of_insert he
        · exact hrate
        · exact h.rates f e hold

/-- **Runs in which every resumption takes effect.**  As long as no batch is read whose flow has a
pause in the table, the next call after a resumption reads a packet. -/
theorem resume_reads {qid rate tsc₀ : ℕ} (hrate : 32 < rate) (hmax : rate ≤ 100000000)
    (hs : Run.ReachIf step readsNoPaused (init qid rate tsc₀) s) (hres : s.Resumed now tsc)
    (hup : s.port.adminUp = true) (hburst : 0 < s.burst) : (s.runTask now tsc).2 ≠ [] := by
  have hinit : (init qid rate tsc₀).Open := by
    refine ⟨le_rfl, hrate, hmax, ?_, fun f e he => ?_⟩
    · change 0 < rate
      omega
    · simp [init, SwDpCtrl.init] at he
  have hport : s.PortInv := hs.invariant (P := PortInv) ⟨rfl, lt_of_le_of_lt hmax (by decide)⟩
    fun u op v hu _ hok => hu.step hok
  have hopen : s.Open := hs.invariant (P := Open) hinit fun u op v hu hop hok => hu.step hop hok
  exact (hport.runTask_ne_nil_iff hres).2 ⟨hup, hburst, hopen.token_lt⟩

end QueueInc

end Backdraft

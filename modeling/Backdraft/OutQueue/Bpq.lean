import Mathlib.Tactic
import Backdraft.Backpressure.Graph
import Backdraft.OutQueue.Staged

/-!
# `BPQOut`

The output module of the backpressure design: `ProcessBatch` puts every packet in the ring and
frees what does not fit, `RunTask` sends.  A ring above the high water mark is announced upstream
by `SignalOverloadBP`, one below the low water mark by `SignalUnderloadBP`; both are calls into the
graph of modules and may change `overload_`, which `RunTask` reads.

* `BPQOut`, `BPQOut.buffer`, `BPQOut.runTask`, `BPQOut.step`: the module and its calls;
* `BPQOut.Inv`: what every call keeps (`BPQOut.Inv.processBatch`, `BPQOut.Inv.runTask`);
* `fifo_tail_drop`: the module is a queue that drops at its tail.

The header that `PreparePacket` and `FillBkdrftHeader` write is left out; only whether the packet
could be allocated matters here.
-/

namespace Backdraft.OutQueue

open Backpressure

/-- `DEFAULT_QUEUE_SIZE`. -/
def bpqQueueSize : ℕ := 1024

/-- The surroundings of the module: the graph, its own place in it, and its port. -/
structure BPQConfig (V α : Type) [DecidableEq V] where
  graph : ModuleGraph V
  self : V
  port : OutPort α

/-- A message upstream: whether `PreparePacket` gets a packet, and which overlay ports take it. -/
structure Message (V : Type) where
  allocated : Bool
  accepts : V → Bool

/-- The module, with two lists that the source does not keep: the packets handed in, each with
whether it was freed, and the packets that the port accepted. -/
structure BPQOut (V α : Type) extends Staged α where
  lowWater : ℕ
  highWater : ℕ
  txPause : UInt64
  txResume : UInt64
  stats : QueueStats
  net : State V
  handedIn : List (α × Bool)
  accepted : List α

/-- The calls: two of the module itself, and those of other modules that change the graph's
flags. -/
inductive BPQOp (V α : Type)
  | processBatch (batch : Batch α) (m : Message V)
  | runTask (accept : ℕ → ℕ) (m : ℕ → Message V)
  | signalled (net : State V)

namespace BPQOut

variable {V α : Type}

/-- The packets handed in and not freed. -/
def kept (s : BPQOut V α) : List α := (s.handedIn.filter (!·.2)).map (·.1)

/-- The packets freed. -/
def freed (s : BPQOut V α) : List α := (s.handedIn.filter (·.2)).map (·.1)

/-- `Init`, for a queue with counters `stats` and a graph in state `net`. -/
def init [Inhabited α] (burst : ℕ) (stats : QueueStats) (net : State V) : Option (BPQOut V α) :=
  (Staged.init bpqQueueSize burst).map fun q =>
    { toStaged := q
      lowWater := bpqQueueSize * 50 / 100
      highWater := bpqQueueSize * 70 / 100
      txPause := 0
      txResume := 0
      stats := stats
      net := net
      handedIn := []
      accepted := [] }

variable [DecidableEq V] [Fintype V]

/-- `PreparePacket` and the call of `SignalOverloadBP` or `SignalUnderloadBP`, which counts. -/
def signal (cfg : BPQConfig V α) (l : Load) (m : Message V) (x : State V × UInt64) :
    State V × UInt64 :=
  if m.allocated then
    ((Backpressure.signal cfg.graph l true m.accepts cfg.self x.1).state, x.2 + 1)
  else x

/-- `Buffer`. -/
def buffer (cfg : BPQConfig V α) (s : BPQOut V α) (pkts : List α) (m : Message V) : BPQOut V α :=
  let (q, queued) := s.toStaged.enqueue pkts
  let x :=
    if s.highWater < q.queue.count then signal cfg .overload m (s.net, s.txPause)
    else (s.net, s.txPause)
  { s with
    toStaged := q
    net := x.1
    txPause := x.2
    stats :=
      if queued < pkts.length then cfg.port.countDropped (pkts.length - queued) s.stats
      else s.stats
    handedIn := s.handedIn ++ (pkts.take queued).map (·, false) ++
      (pkts.drop queued).map (·, true) }

/-- `ProcessBatch`. -/
def processBatch (cfg : BPQConfig V α) (s : BPQOut V α) (batch : Batch α) (m : Message V) :
    BPQOut V α :=
  s.buffer cfg batch.pkts m

variable [Inhabited α]

/-- What `RunTask` does with a burst just fetched: a ring below the low water mark is announced. -/
def fetched (cfg : BPQConfig V α) (lowWater : ℕ) (m : ℕ → Message V) (k : ℕ) (q : Staged α)
    (x : State V × UInt64) : State V × UInt64 :=
  if q.queue.count < lowWater ∧ x.1.overload cfg.self = true then signal cfg .underload (m k) x
  else x

/-- `RunTask`. -/
def runTask (cfg : BPQConfig V α) (s : BPQOut V α) (accept : ℕ → ℕ) (m : ℕ → Message V) :
    Option (BPQOut V α × TaskResult) :=
  (sendLoop accept (fetched cfg s.lowWater m) (s.queue.count + 1) 0 s.toStaged
    (s.net, s.txResume) []).map fun (q, x, sent) =>
      ({ s with
          toStaged := q
          net := x.1
          txResume := x.2
          stats := cfg.port.countSent sent s.stats
          accepted := s.accepted ++ sent },
        cfg.port.taskResult sent)

/-- One call; a `RunTask` without a result is an error. -/
def step (cfg : BPQConfig V α) (s : BPQOut V α) : BPQOp V α → Except Unit (BPQOut V α)
  | .processBatch batch m => .ok (s.processBatch cfg batch m)
  | .runTask accept m =>
    match s.runTask cfg accept m with
    | some (s', _) => .ok s'
    | none => .error ()
  | .signalled net => .ok { s with net := net }

/-! ### What every call keeps -/

omit [DecidableEq V] [Fintype V] [Inhabited α] in
theorem kept_flagged (l₁ l₂ : List α) :
    ((l₁.map (·, false) ++ l₂.map (·, true)).filter (!·.2)).map (·.1) = l₁ := by
  simp [List.filter_map, Function.comp_def]

omit [DecidableEq V] [Fintype V] [Inhabited α] in
theorem freed_flagged (l₁ l₂ : List α) :
    ((l₁.map (·, false) ++ l₂.map (·, true)).filter (·.2)).map (·.1) = l₂ := by
  simp [List.filter_map, Function.comp_def]

/-- The state between two calls, with `s₀` as the state after `Init`. -/
structure Inv (cfg : BPQConfig V α) (s₀ s : BPQOut V α) : Prop where
  wf : s.toStaged.WF
  slots_eq : s.queue.slots = bpqQueueSize
  order : s.accepted ++ s.waiting = s.kept
  packets : cfg.port.selfOutStats = false →
    s.stats.packets = s₀.stats.packets + .ofNat s.accepted.length
  dropped : cfg.port.selfOutStats = false →
    s.stats.dropped = s₀.stats.dropped + .ofNat s.freed.length

variable {cfg : BPQConfig V α} {s₀ s : BPQOut V α}

omit [Fintype V] in
theorem Inv.init {burst : ℕ} {stats : QueueStats} {net : State V} (hburst : burst ≤ kMaxBurst)
    (h : BPQOut.init burst stats net = some s) : Inv cfg s s := by
  rw [BPQOut.init] at h
  obtain ⟨q, hq, rfl⟩ := Option.map_eq_some_iff.1 h
  obtain ⟨hwf, hnil, hslots, -⟩ := Staged.init_spec hq ⟨10, by decide, rfl⟩ hburst
  exact ⟨hwf, hslots, by simpa [kept] using hnil, fun _ => by simp, fun _ => by simp [freed]⟩

/-- The packets that fit are appended, the others are freed. -/
theorem Inv.handedIn_processBatch (h : Inv cfg s₀ s) (batch : Batch α) (m : Message V) :
    (s.processBatch cfg batch m).handedIn =
      s.handedIn ++ (batch.pkts.take s.queue.freeCount).map (·, false) ++
        (batch.pkts.drop s.queue.freeCount).map (·, true) := by
  obtain ⟨-, -, hqueued, -⟩ := h.wf.enqueue_spec batch.pkts
  show s.handedIn ++ (batch.pkts.take (s.toStaged.enqueue batch.pkts).2).map (·, false) ++
    (batch.pkts.drop (s.toStaged.enqueue batch.pkts).2).map (·, true) = _
  rw [hqueued, min_comm, ← List.take_eq_take_min, ← List.drop_eq_drop_min]

theorem Inv.processBatch (h : Inv cfg s₀ s) (batch : Batch α) (m : Message V) :
    Inv cfg s₀ (s.processBatch cfg batch m) := by
  obtain ⟨hwf, hwait, hqueued, hslots⟩ := h.wf.enqueue_spec batch.pkts
  have hin := h.handedIn_processBatch batch m
  rw [List.append_assoc] at hin
  have hkept : (s.processBatch cfg batch m).kept =
      s.kept ++ batch.pkts.take s.queue.freeCount := by
    rw [kept, hin, List.filter_append, List.map_append, kept_flagged, kept]
  have hfreed : (s.processBatch cfg batch m).freed =
      s.freed ++ batch.pkts.drop s.queue.freeCount := by
    rw [freed, hin, List.filter_append, List.map_append, freed_flagged, freed]
  have hstats : (s.processBatch cfg batch m).stats =
      if (s.toStaged.enqueue batch.pkts).2 < batch.pkts.length then
        cfg.port.countDropped (batch.pkts.length - (s.toStaged.enqueue batch.pkts).2) s.stats
      else s.stats := rfl
  refine ⟨hwf, hslots.trans h.slots_eq, ?_, fun hself => ?_, fun hself => ?_⟩
  · rw [hkept, ← h.order, List.append_assoc]
    exact congrArg (s.accepted ++ ·) hwait
  · rw [show (s.processBatch cfg batch m).accepted = s.accepted from rfl, ← h.packets hself,
      hstats]
    split_ifs
    · rw [OutPort.packets_countDropped]
    · rfl
  · have hlen : (batch.pkts.drop s.queue.freeCount).length =
        batch.pkts.length - (s.toStaged.enqueue batch.pkts).2 := by
      rw [List.length_drop, hqueued]
      omega
    rw [hfreed, List.length_append, hlen, UInt64.ofNat_add, ← UInt64.add_assoc,
      ← h.dropped hself, hstats]
    split_ifs with hlt
    · rw [OutPort.dropped_countDropped _ hself]
    · rw [Nat.sub_eq_zero_of_le (by omega)]
      exact (UInt64.add_zero _).symm

/-- A `RunTask` returns; it hands the port a prefix of what was waiting. -/
theorem Inv.runTask (h : Inv cfg s₀ s) (accept : ℕ → ℕ) (m : ℕ → Message V) :
    ∃ s' r, s.runTask cfg accept m = some (s', r) ∧ Inv cfg s₀ s' ∧ s'.handedIn = s.handedIn := by
  have hfuel : s.queue.contents.length < s.queue.count + 1 := by
    rw [h.wf.ring.count_eq]
    omega
  obtain ⟨q', x', out, hloop, hs⟩ := sendLoop_spec accept (fetched cfg s.lowWater m) 0
    (s.net, s.txResume) [] h.wf hfuel
  rw [BPQOut.runTask, hloop]
  refine ⟨_, _, rfl, ⟨hs.wf, hs.slots_eq.trans h.slots_eq, ?_, fun hself => ?_, fun hself => ?_⟩,
    rfl⟩
  · show s.accepted ++ out ++ q'.waiting = s.kept
    rw [List.append_assoc, hs.order]
    exact h.order
  · have hout : out.length < 2 ^ 32 := by
      have hle := h.wf.length_waiting_le
      have hlen := congrArg List.length hs.order
      rw [h.slots_eq, kMaxBurst, bpqQueueSize] at hle
      rw [List.length_append] at hlen
      omega
    show (cfg.port.countSent out s.stats).packets = _ + .ofNat (s.accepted ++ out).length
    rw [OutPort.packets_countSent _ hself hout, List.length_append, UInt64.ofNat_add,
      ← UInt64.add_assoc, ← h.packets hself]
  · show (cfg.port.countSent out s.stats).dropped = _
    rw [OutPort.dropped_countSent]
    exact h.dropped hself

theorem Inv.step {s' : BPQOut V α} {op : BPQOp V α} (h : Inv cfg s₀ s)
    (hs : BPQOut.step cfg s op = .ok s') : Inv cfg s₀ s' := by
  cases op with
  | processBatch batch m =>
    cases hs
    exact h.processBatch batch m
  | runTask accept m =>
    obtain ⟨t, r, ht, hinv, -⟩ := h.runTask accept m
    rw [BPQOut.step, ht] at hs
    cases hs
    exact hinv
  | signalled net =>
    cases hs
    exact ⟨h.wf, h.slots_eq, h.order, h.packets, h.dropped⟩

end BPQOut

/-! ### The queue -/

section Fifo

variable {V α : Type} [DecidableEq V] [Fintype V] [Inhabited α] {cfg : BPQConfig V α}
  {s₀ s : BPQOut V α}

/-- **`BPQOut` is a queue with tail drop.**  After any calls, whatever the port accepts in each
round: what it has accepted, then the staged packets, then the ring, are the packets handed in
without those freed, in their order.  A batch loses exactly the packets beyond the free slots of
the ring, a `RunTask` returns with at most 32 staged packets and frees none, and unless the driver
counts for itself the counters have grown by the numbers of packets sent and freed. -/
theorem fifo_tail_drop {burst : ℕ} {stats : QueueStats} {net : State V}
    (hburst : burst ≤ kMaxBurst) (h₀ : BPQOut.init burst stats net = some s₀)
    (hs : Run.ReachIf (BPQOut.step cfg) (fun _ _ => true) s₀ s) :
    s.accepted ++ s.mbufs.take s.cntMbufs ++ s.queue.contents = s.kept ∧
    (∀ batch m, (s.processBatch cfg batch m).handedIn =
      s.handedIn ++ (batch.pkts.take s.queue.freeCount).map (·, false) ++
        (batch.pkts.drop s.queue.freeCount).map (·, true)) ∧
    (∀ accept m, ∃ s' r, s.runTask cfg accept m = some (s', r) ∧ s'.cntMbufs ≤ 32 ∧
      s'.handedIn = s.handedIn) ∧
    (cfg.port.selfOutStats = false →
      s.stats.packets = s₀.stats.packets + .ofNat s.accepted.length ∧
      s.stats.dropped = s₀.stats.dropped + .ofNat s.freed.length) := by
  have hinv : BPQOut.Inv cfg s₀ s :=
    hs.invariant (BPQOut.Inv.init hburst h₀) fun u op v hu _ hv => hu.step hv
  refine ⟨?_, hinv.handedIn_processBatch, fun accept m => ?_,
    fun hself => ⟨hinv.packets hself, hinv.dropped hself⟩⟩
  · rw [List.append_assoc]
    exact hinv.order
  · obtain ⟨s', r, hrun, hinv', hsame⟩ := hinv.runTask accept m
    exact ⟨s', r, hrun, hinv'.wf.cnt_le, hsame⟩

/-- A module alone in its graph. -/
def aloneConfig : BPQConfig Unit ℕ where
  graph :=
    { igates := fun _ => []
      ogates := fun _ => []
      bpqInc := fun _ => false
      overlayPort := fun _ => false
      propagateWorkers := fun _ => false
      connected := fun _ _ => rfl
      bpqInc_igates := fun _ _ => rfl }
  self := ()
  port := ⟨false, fun _ => 64⟩

/-- Three packets come in and the port takes two of them. -/
theorem fifo_tail_drop_partial_send :
    ∃ s₀ s, BPQOut.init 32 ⟨0, 0, 0⟩ State.idle = some s₀ ∧
      Run.ReachIf (BPQOut.step aloneConfig) (fun _ _ => true) s₀ s ∧
      s.accepted = [0, 1] ∧ s.accepted ++ s.mbufs.take s.cntMbufs ++ s.queue.contents = s.kept := by
  let ops : List (BPQOp Unit ℕ) :=
    [.processBatch ⟨[0, 1, 2], by simp⟩ ⟨true, fun _ => true⟩,
      .runTask (fun _ => 2) fun _ => ⟨true, fun _ => true⟩]
  have hrun : ((BPQOut.init 32 ⟨0, 0, 0⟩ State.idle).bind fun s₀ =>
      (Run.exec (BPQOut.step aloneConfig) (fun _ _ => true) s₀ ops).map fun s =>
        decide (s.accepted = [0, 1])) = some true := by
    decide +kernel
  obtain ⟨s₀, s, h₀, hreach, hacc⟩ := Run.exists_init_reachIf _ hrun
  exact ⟨s₀, s, h₀, hreach, of_decide_eq_true hacc, (fifo_tail_drop (by decide) h₀ hreach).1⟩

end Fifo

end Backdraft.OutQueue

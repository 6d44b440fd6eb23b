import Mathlib.Data.List.Perm.Subperm
import Backdraft.Lib.Headroom
import Backdraft.Backpressure.Relay
import Backdraft.OutQueue.Bpq

/-!
# `BPQInc` and `BPQOut` together

A pipeline whose packets come in at `BPQInc` modules, pass through others, and wait for their ports
in `BPQOut` modules.  Tasks run one after the other on one worker.  The modules share the flags and
the counters of the graph: a `BPQOut` that fills calls `SignalOverloadBP`, and the `BPQInc` modules
whose packets come to it then return from their task without receiving.

* `IncStats`, `bpqIncRunTask`: `RunTask` of `BPQInc`;
* `BpqNet`, `BpqState`: the pipeline and its state;
* `Event`, `step`: a run of a task with what the modules behind it do;
* `Sound`: what the signals keep (`Sound.signal`), and the invariant of the modules `Inv`;
* `Inv.deliver`, `Inv.runInc`, `Inv.runOut`, `inv_step`: every event keeps it.

The modules between may drop packets of a batch, and bring the others in any order and in any
batches to the `BPQOut` modules behind the source; they hold no packets, and copy none where nothing
is to be lost (`permits`).  No overlay message arrives.  Histograms of the port are counted, its
rates are left out.
-/

namespace Backdraft.OutQueue

open Backpressure Word

/-! ### The source -/

/-- `queue_stats` of an input queue, as far as `BPQInc` counts. -/
structure IncStats where
  packets : UInt64
  bytes : UInt64
  requestedHist : ℕ → UInt64
  actualHist : ℕ → UInt64
  diffHist : ℕ → UInt64

/-- A port as `BPQInc` sees it: whether the driver keeps the statistics itself
(`DRIVER_FLAG_SELF_INC_STATS`), and the lengths of the packets. -/
structure IncPort (α : Type) where
  selfIncStats : Bool
  totalLen : α → ℕ

/-- `struct task_result` of `BPQInc`. -/
structure IncResult where
  block : Bool
  packets : ℕ
  bits : ℕ
  deriving DecidableEq

/-- What `RunTask` of `BPQInc` leaves behind: the counters, the batch it hands on, its result. -/
structure IncRun (α : Type) where
  stats : IncStats
  batch : List α
  result : IncResult

/-- The result of a task without work. -/
def IncResult.idle : IncResult := ⟨true, 0, 0⟩

/-- One more in a histogram. -/
def countIn (hist : ℕ → UInt64) (i : ℕ) : ℕ → UInt64 := Function.update hist i (hist i + 1)

/-- `BPQInc::RunTask`; `received` is what `RecvPackets` gets, with the burst of `Init`. -/
def bpqIncRunTask {α : Type} (port : IncPort α) (childrenOverload : ℤ) (adminUp : Bool)
    (st : IncStats) (received : List α) : IncRun α :=
  if childrenOverload > 0 then ⟨st, [], .idle⟩
  else if !adminUp then ⟨st, [], .idle⟩
  else
    let cnt := received.length
    let st :=
      { st with
        requestedHist := countIn st.requestedHist kMaxBurst
        actualHist := countIn st.actualHist cnt
        diffHist := countIn st.diffHist (kMaxBurst - cnt) }
    if cnt = 0 then ⟨st, [], .idle⟩
    else
      let receivedBytes := (received.map port.totalLen).sum % 2 ^ 64
      ⟨if port.selfIncStats then st
        else
          { st with
            packets := st.packets + .ofNat cnt
            bytes := st.bytes + .ofNat receivedBytes },
        received,
        ⟨false, cnt, wadd 64 receivedBytes (cnt * 24 % 2 ^ 32) * 8 % 2 ^ 64⟩⟩

/-- A source hands on what it receives, unless it is stopped or its port is down. -/
theorem batch_bpqIncRunTask {α : Type} (port : IncPort α) (childrenOverload : ℤ) (adminUp : Bool)
    (st : IncStats) (received : List α) :
    (bpqIncRunTask port childrenOverload adminUp st received).batch =
      if childrenOverload > 0 ∨ adminUp = false then [] else received := by
  by_cases hstopped : childrenOverload > 0
  · simp [bpqIncRunTask, hstopped]
  cases adminUp with
  | false => simp [bpqIncRunTask, hstopped]
  | true => by_cases hnil : received = [] <;> simp [bpqIncRunTask, hstopped, hnil]

/-! ### The pipeline -/

/-- The graph of modules, those that are `BPQOut`, the ports, and the `BPQOut` modules to which the
packets of a `BPQInc` may come. -/
structure BpqNet (V α : Type) [DecidableEq V] where
  graph : ModuleGraph V
  isOut : V → Bool
  outPort : V → OutPort α
  incPort : V → IncPort α
  feeds : V → V → Bool
  /-- `kNumOGates` of `BPQOut` is 0 -/
  ogates_out : ∀ q, isOut q = true → graph.ogates q = []
  bpqInc_out : ∀ q, isOut q = true → graph.bpqInc q = false
  leads : ∀ t q, feeds t q = true → Leads graph t q

/-- The surroundings of one `BPQOut`. -/
def BpqNet.config {V α : Type} [DecidableEq V] (N : BpqNet V α) (q : V) : BPQConfig V α :=
  ⟨N.graph, q, N.outPort q⟩

theorem BpqNet.deaf {V α : Type} [DecidableEq V] (N : BpqNet V α) {q : V}
    (hq : N.isOut q = true) : Deaf N.graph q :=
  ⟨N.bpqInc_out q hq, .inl (N.ogates_out q hq)⟩

/-- A batch that comes to a `BPQOut`, and what happens to the message it may cause. -/
structure Delivery (V α : Type) where
  module : V
  batch : Batch α
  message : Message V

/-- The flags of the graph, the `BPQOut` modules, and the counters of the sources. -/
structure BpqState (V α : Type) where
  net : State V
  outs : V → BPQOut V α
  incs : V → IncStats

namespace BpqState

/-- What happens: a source runs and the modules behind it bring packets to `BPQOut` modules, or a
`BPQOut` runs. -/
inductive Event (V α : Type)
  | runInc (t : V) (adminUp : Bool) (received : List α) (deliveries : List (Delivery V α))
  | runOut (q : V) (accept : ℕ → ℕ) (m : ℕ → Message V)

variable {V α : Type} [DecidableEq V]

/-- A `BPQOut` as its functions find it. -/
def out (s : BpqState V α) (q : V) : BPQOut V α := { s.outs q with net := s.net }

/-- A `BPQOut` as its functions leave it. -/
def setOut (s : BpqState V α) (q : V) (o : BPQOut V α) : BpqState V α :=
  { s with net := o.net, outs := Function.update s.outs q o }

variable [Fintype V]

/-- A batch comes to a `BPQOut`. -/
def deliver (N : BpqNet V α) (s : BpqState V α) (d : Delivery V α) : BpqState V α :=
  s.setOut d.module ((s.out d.module).processBatch (N.config d.module) d.batch d.message)

/-- `RunTask` of a source. -/
def runInc (N : BpqNet V α) (s : BpqState V α) (t : V) (adminUp : Bool) (received : List α) :
    IncRun α :=
  bpqIncRunTask (N.incPort t) (s.net.childrenOverload t) adminUp (s.incs t) received

variable [Inhabited α]

/-- One event.  A run of a task is one step, since no other worker runs. -/
def step (N : BpqNet V α) (s : BpqState V α) : Event V α → Except Unit (BpqState V α)
  | .runInc t adminUp received deliveries =>
    .ok (deliveries.foldl (deliver N)
      { s with incs := Function.update s.incs t (s.runInc N t adminUp received).stats })
  | .runOut q accept m =>
    match (s.out q).runTask (N.config q) accept m with
    | some (o, _) => .ok (s.setOut q o)
    | none => .error ()

/-- Batches come to `BPQOut` modules only, and only these run as such. -/
def addresses (N : BpqNet V α) : Event V α → Bool
  | .runInc _ _ _ deliveries => deliveries.all fun d => N.isOut d.module
  | .runOut q _ _ => N.isOut q

/-- The batches hold packets that the source has handed on, and come to modules behind it; a packet
for the message of an overload is always there. -/
def permits [DecidableEq α] (N : BpqNet V α) (s : BpqState V α) : Event V α → Bool
  | .runInc t adminUp received deliveries =>
    decide (received.length ≤ kMaxBurst ∧
      (deliveries.flatMap fun d => d.batch.pkts).Subperm
        (s.runInc N t adminUp received).batch ∧
      ∀ d ∈ deliveries,
        N.isOut d.module = true ∧ N.feeds t d.module = true ∧ d.message.allocated = true)
  | .runOut q _ _ => N.isOut q

/-- The batches hold packets that the source has handed on, or copies of them, and come to modules
behind it; packets for messages may be missing. -/
def carries [DecidableEq α] (N : BpqNet V α) (s : BpqState V α) : Event V α → Bool
  | .runInc t adminUp received deliveries =>
    decide (∀ d ∈ deliveries, N.isOut d.module = true ∧ N.feeds t d.module = true ∧
      ∀ p ∈ d.batch.pkts, p ∈ (s.runInc N t adminUp received).batch)
  | .runOut q _ _ => N.isOut q

/-- No task has run. -/
def start (outs : V → BPQOut V α) (incs : V → IncStats) : BpqState V α := ⟨.idle, outs, incs⟩

/-- The `BPQOut` modules are as `Init` makes them. -/
def Made (N : BpqNet V α) (outs : V → BPQOut V α) : Prop :=
  ∀ q, N.isOut q = true → ∃ stats, BPQOut.init kMaxBurst stats .idle = some (outs q)

/-! ### Signals -/

variable {N : BpqNet V α}

/-- The state of the graph between two calls: the overlay is silent, the relays follow their
children, the counters are right, and nobody but a `BPQOut` is overloaded of itself. -/
structure Sound (N : BpqNet V α) (net : State V) : Prop where
  quiet : Quiet N.graph net
  exact : Exact N.graph net
  under : ∀ x, Deaf N.graph x → N.isOut x = false → net.overload x = false

omit [Fintype V] [Inhabited α] in
theorem sound_idle : Sound N .idle := ⟨quiet_idle, exact_idle _, fun _ _ _ => rfl⟩

omit [Inhabited α] in
/-- A signal of a `BPQOut` decides about its flag, if there is a packet for it. -/
theorem Sound.signal {net : State V} (h : Sound N net) {q : V} (hq : N.isOut q = true) (l : Load)
    (m : Message V) (n : UInt64) :
    Sound N (BPQOut.signal (N.config q) l m (net, n)).1 ∧ ∀ x, N.isOut x = true →
      (BPQOut.signal (N.config q) l m (net, n)).1.overload x =
        if x = q ∧ m.allocated = true then l.flag else net.overload x := by
  unfold BPQOut.signal
  split_ifs with hm
  · refine ⟨⟨h.quiet.signal (N.deaf hq) l m.accepts, h.exact.signal l m.accepts q,
      fun x hx hout => ?_⟩, fun x hx => ?_⟩
    · have hxq : x ≠ q := by
        rintro rfl
        exact absurd (hout.symm.trans hq) (by decide)
      rw [BpqNet.config, h.quiet.overload_signal (N.deaf hq) l m.accepts hx, if_neg hxq]
      exact h.under x hx hout
    · rw [BpqNet.config, h.quiet.overload_signal (N.deaf hq) l m.accepts (N.deaf hx)]
      simp [hm]
  · exact ⟨h, fun x _ => by simp [hm]⟩

/-! ### One `BPQOut` -/

/-- The water marks of all `BPQOut` modules. -/
def marks (V : Type) : Headroom.Marks V where
  high _ := bpqQueueSize * 70 / 100
  low _ := bpqQueueSize * 50 / 100
  burst := kMaxBurst
  low_pos _ := by decide
  low_le _ := by decide

/-- A `BPQOut` that has freed nothing. -/
structure OutInv (cfg : BPQConfig V α) (o₀ o : BPQOut V α) : Prop where
  inv : BPQOut.Inv cfg o₀ o
  highWater_eq : o.highWater = bpqQueueSize * 70 / 100
  lowWater_eq : o.lowWater = bpqQueueSize * 50 / 100
  burst_eq : o.burst = kMaxBurst
  freed_eq : o.freed = []

variable {cfg : BPQConfig V α} {o₀ o : BPQOut V α}

omit [Fintype V] in
theorem OutInv.init {stats : QueueStats} {net : State V}
    (h : BPQOut.init kMaxBurst stats net = some o) : OutInv cfg o o := by
  have hinv : BPQOut.Inv cfg o o := BPQOut.Inv.init le_rfl h
  rw [BPQOut.init] at h
  obtain ⟨q, hq, rfl⟩ := Option.map_eq_some_iff.mp h
  exact ⟨hinv, rfl, rfl, (Staged.init_spec hq ⟨10, by decide, rfl⟩ le_rfl).2.2.2, rfl⟩

omit [Fintype V] in
/-- Signals of other modules do not matter. -/
theorem OutInv.withNet (h : OutInv cfg o₀ o) (net : State V) :
    OutInv cfg o₀ { o with net := net } :=
  ⟨⟨h.inv.wf, h.inv.slots_eq, h.inv.order, h.inv.packets, h.inv.dropped⟩, h.highWater_eq,
    h.lowWater_eq, h.burst_eq, h.freed_eq⟩

/-- A batch that fits. -/
theorem OutInv.processBatch (h : OutInv cfg o₀ o) {batch : Batch α} (m : Message V)
    (hfit : o.queue.contents.length + batch.pkts.length < bpqQueueSize) :
    OutInv cfg o₀ (o.processBatch cfg batch m) ∧
      (o.processBatch cfg batch m).queue.contents = o.queue.contents ++ batch.pkts ∧
      (o.processBatch cfg batch m).net =
        if bpqQueueSize * 70 / 100 < o.queue.contents.length + batch.pkts.length then
          (BPQOut.signal cfg .overload m (o.net, o.txPause)).1
        else o.net := by
  have hmask := h.inv.wf.ring.mask_eq
  rw [h.inv.slots_eq] at hmask
  have hroom : batch.pkts.length ≤ o.queue.freeCount := by
    rw [h.inv.wf.ring.freeCount_eq]
    omega
  obtain ⟨hwf, hcont, -, -⟩ := h.inv.wf.ring.mpEnqueueBurst_spec batch.pkts
  rw [← h.inv.wf.ring.freeCount_eq, List.take_of_length_le hroom] at hcont
  have hcount : (o.toStaged.enqueue batch.pkts).1.queue.count =
      o.queue.contents.length + batch.pkts.length := by
    rw [← List.length_append, ← hcont]
    exact hwf.count_eq
  have hin := h.inv.handedIn_processBatch batch m
  rw [List.take_of_length_le hroom, List.drop_of_length_le hroom] at hin
  refine ⟨⟨h.inv.processBatch batch m, h.highWater_eq, h.lowWater_eq, h.burst_eq, ?_⟩, hcont, ?_⟩
  · have hfreed := h.freed_eq
    rw [BPQOut.freed] at hfreed ⊢
    rw [hin]
    simpa [List.filter_map, Function.comp_def] using hfreed
  · simp only [BPQOut.processBatch, BPQOut.buffer, hcount, h.highWater_eq]
    split_ifs <;> rfl

/-- What the rounds of `RunTask` of a `BPQOut` keep, with the graph `net` and `n` packets in the
ring at its start. -/
structure Serving (N : BpqNet V α) (q : V) (net : State V) (n : ℕ) (st : Staged α)
    (x : State V × UInt64) : Prop where
  wf : st.WF
  burst_eq : st.burst = kMaxBurst
  le : st.queue.contents.length ≤ n
  sound : Sound N x.1
  others : ∀ y, N.isOut y = true → y ≠ q → x.1.overload y = net.overload y
  under : x.1.overload q = false → st.queue.contents.length ≤ (marks V).high q

omit [Fintype V] in
theorem Serving.shift {q : V} {net : State V} {n k : ℕ} {st : Staged α} {x : State V × UInt64}
    (h : Serving N q net n st x) (hk : k < st.cntMbufs) : Serving N q net n (st.shift k) x :=
  { h with wf := (h.wf.shift_spec hk).1 }

omit [Fintype V] in
theorem Serving.fetch {q : V} {net : State V} {n : ℕ} {st : Staged α} {x : State V × UInt64}
    (h : Serving N q net n st x) : Serving N q net n st.fetch.1 x := by
  obtain ⟨hwf, -, -, hrest, -⟩ := h.wf.fetch_spec
  have hle : st.fetch.1.queue.contents.length ≤ st.queue.contents.length := by
    rw [hrest, List.length_drop]
    exact Nat.sub_le _ _
  exact ⟨hwf, h.burst_eq, hle.trans h.le, h.sound, h.others, fun hq => hle.trans (h.under hq)⟩

/-- After a fetch: the flag goes down only when the ring is below the low water mark. -/
theorem Serving.fetched {q : V} (hq : N.isOut q = true) {net : State V} {n : ℕ} {st : Staged α}
    {x : State V × UInt64} (h : Serving N q net n st x) (m : ℕ → Message V) (k : ℕ) :
    Serving N q net n st
      (BPQOut.fetched (N.config q) (bpqQueueSize * 50 / 100) m k st x) := by
  unfold BPQOut.fetched
  split_ifs with hlow
  · obtain ⟨hsound, hflags⟩ := h.sound.signal hq .underload (m k) x.2
    refine ⟨h.wf, h.burst_eq, h.le, hsound, fun y hy hne => ?_, fun _ => ?_⟩
    · rw [hflags y hy, if_neg fun hcon => hne hcon.1]
      exact h.others y hy hne
    · rw [h.wf.ring.count_eq] at hlow
      exact hlow.1.le.trans ((marks V).low_le q)
  · exact h

/-- A `BPQOut` runs: it has freed nothing, and its flag goes down only with its ring. -/
theorem OutInv.runTask {q : V} (hq : N.isOut q = true) (h : OutInv (N.config q) o₀ o)
    (hsound : Sound N o.net)
    (hunder : o.net.overload q = false → o.queue.contents.length ≤ (marks V).high q)
    (accept : ℕ → ℕ) (m : ℕ → Message V) :
    ∃ o' r, o.runTask (N.config q) accept m = some (o', r) ∧ OutInv (N.config q) o₀ o' ∧
      Serving N q o.net o.queue.contents.length o'.toStaged (o'.net, o'.txResume) := by
  obtain ⟨o', r, hrun, hinv, hsame⟩ := h.inv.runTask accept m
  refine ⟨o', r, hrun, ?_⟩
  obtain ⟨y, hloop, heq⟩ := Option.map_eq_some_iff.mp hrun
  have hserving : Serving N q o.net o.queue.contents.length y.1 y.2.1 := by
    refine sendLoop_invariant (P := Serving N q o.net o.queue.contents.length)
      (fun st x k hk hst => hst.shift hk) (fun st x hst => hst.fetch)
      (fun k st x hst => ?_) hloop
      ⟨h.inv.wf, h.burst_eq, le_rfl, hsound, fun _ _ _ => rfl, hunder⟩
    rw [h.lowWater_eq]
    exact hst.fetched hq m k
  obtain ⟨rfl, -⟩ := Prod.mk.inj heq
  refine ⟨⟨hinv, h.highWater_eq, h.lowWater_eq, hserving.burst_eq, ?_⟩, hserving⟩
  rw [BPQOut.freed, hsame]
  exact h.freed_eq

/-! ### All of them -/

/-- The packets in the rings, and the `BPQOut` modules that are overloaded. -/
def load (N : BpqNet V α) (s : BpqState V α) : Headroom.Load V where
  count q := if N.isOut q then (s.outs q).queue.contents.length else 0
  loaded q := N.isOut q && s.net.overload q

/-- The invariant of a run of a task, when the batches `rest` are still to come. -/
structure Inv (N : BpqNet V α) (outs₀ : V → BPQOut V α) (s : BpqState V α)
    (rest : List (V × ℕ)) : Prop where
  sound : Sound N s.net
  out : ∀ q, N.isOut q = true → OutInv (N.config q) (outs₀ q) (s.outs q)
  under : Headroom.Under (marks V) (s.load N)
  room : Headroom.Room (marks V) (s.load N) rest

variable {outs₀ : V → BPQOut V α} {s : BpqState V α} {rest rest' : List (V × ℕ)}

omit [Fintype V] in
theorem count_load {q : V} (hq : N.isOut q = true) :
    (s.load N).count q = (s.outs q).queue.contents.length := by
  simp [load, hq]

omit [Fintype V] in
/-- One `BPQOut` is replaced, and of the flags of all of them only its own changes. -/
theorem load_setOut {q : V} (hq : N.isOut q = true)
    (hothers : ∀ y, N.isOut y = true → y ≠ q → o.net.overload y = s.net.overload y) :
    (s.setOut q o).load N = ⟨Function.update (s.load N).count q o.queue.contents.length,
      Function.update (s.load N).loaded q (o.net.overload q)⟩ := by
  simp only [load, setOut, Headroom.Load.mk.injEq]
  constructor
  · funext y
    by_cases hy : y = q
    · subst hy
      simp [hq]
    · simp [Function.update_of_ne hy]
  · funext y
    by_cases hy : y = q
    · subst hy
      simp [hq]
    · rw [Function.update_of_ne hy]
      cases hout : N.isOut y with
      | true => rw [hothers y hout hy]
      | false => rfl

omit [Fintype V] in
theorem Inv.setOut (h : Inv N outs₀ s rest) {q : V} (hsound : Sound N o.net)
    (ho : OutInv (N.config q) (outs₀ q) o)
    (hunder : Headroom.Under (marks V) ((s.setOut q o).load N))
    (hroom : Headroom.Room (marks V) ((s.setOut q o).load N) rest') :
    Inv N outs₀ (s.setOut q o) rest' := by
  refine ⟨hsound, fun y hy => ?_, hunder, hroom⟩
  by_cases hyq : y = q
  · subst hyq
    simpa [BpqState.setOut] using ho
  · simpa [BpqState.setOut, Function.update_of_ne hyq] using h.out y hy

/-- The flags after a batch has come to a `BPQOut` that it fits in. -/
theorem Sound.processBatch {q : V} (hq : N.isOut q = true) (h : OutInv (N.config q) o₀ o)
    (hsound : Sound N o.net) {batch : Batch α} {m : Message V} (hm : m.allocated = true)
    (hfit : o.queue.contents.length + batch.pkts.length < bpqQueueSize) :
    Sound N (o.processBatch (N.config q) batch m).net ∧ ∀ x, N.isOut x = true →
      (o.processBatch (N.config q) batch m).net.overload x =
        if x = q then o.net.overload q ||
          decide ((marks V).high q < o.queue.contents.length + batch.pkts.length)
        else o.net.overload x := by
  rw [(h.processBatch m hfit).2.2]
  split_ifs with hhigh
  · obtain ⟨hnext, hflags⟩ := hsound.signal hq .overload m o.txPause
    refine ⟨hnext, fun x hx => ?_⟩
    have hdec : decide ((marks V).high q < o.queue.contents.length + batch.pkts.length) = true :=
      decide_eq_true hhigh
    rw [hflags x hx, hdec, Bool.or_true]
    simp [hm, Load.flag]
  · refine ⟨hsound, fun x _ => ?_⟩
    have hdec : decide ((marks V).high q < o.queue.contents.length + batch.pkts.length) = false :=
      decide_eq_false hhigh
    rw [hdec, Bool.or_false]
    split_ifs with hxq
    · rw [hxq]
    · rfl

/-- A batch comes to a `BPQOut`. -/
theorem Inv.deliver {d : Delivery V α}
    (h : Inv N outs₀ s ((d.module, d.batch.pkts.length) :: rest)) (hq : N.isOut d.module = true)
    (hm : d.message.allocated = true) : Inv N outs₀ (s.deliver N d) rest := by
  have hroom := h.room d.module
  rw [Headroom.pending_cons, if_pos rfl, count_load hq] at hroom
  have hfit : (s.out d.module).queue.contents.length + d.batch.pkts.length < bpqQueueSize := by
    have hmarks : (marks V).high d.module + (marks V).burst < bpqQueueSize := by
      show 1024 * 70 / 100 + 32 < 1024
      decide
    refine lt_of_le_of_lt ?_ hmarks
    exact (Nat.add_le_add_left (Nat.le_add_right _ _) _).trans hroom
  have hout : OutInv (N.config d.module) (outs₀ d.module) (s.out d.module) :=
    (h.out _ hq).withNet s.net
  obtain ⟨ho, hcont, -⟩ := hout.processBatch d.message hfit
  obtain ⟨hsound, hflags⟩ := Sound.processBatch hq hout h.sound hm hfit
  have hload : (s.deliver N d).load N =
      Headroom.put (marks V) (s.load N) (d.module, d.batch.pkts.length) := by
    refine (load_setOut hq fun y hy hne => ?_).trans ?_
    · exact (hflags y hy).trans (if_neg hne)
    · have hloaded : (s.load N).loaded d.module = s.net.overload d.module := by simp [load, hq]
      rw [hflags _ hq, if_pos rfl]
      simp only [Headroom.put, hcont, List.length_append, count_load hq, hloaded]
      rfl
  refine h.setOut hsound ho ?_ ?_
  · exact hload ▸ h.under.put _
  · exact hload ▸ h.room.put

/-- A `BPQOut` runs, and no other one has another flag then. -/
theorem Inv.runOut (h : Inv N outs₀ s []) {q : V} (hq : N.isOut q = true) (accept : ℕ → ℕ)
    (m : ℕ → Message V) :
    ∃ o, step N s (.runOut q accept m) = .ok (s.setOut q o) ∧ Inv N outs₀ (s.setOut q o) [] ∧
      ∀ y, N.isOut y = true → y ≠ q → o.net.overload y = s.net.overload y := by
  have hunder : s.net.overload q = false →
      (s.outs q).queue.contents.length ≤ (marks V).high q := fun hfree => by
    rw [← count_load hq]
    exact h.under q (by simp [load, hfree])
  have hout : OutInv (N.config q) (outs₀ q) (s.out q) := (h.out q hq).withNet s.net
  obtain ⟨o, r, hrun, ho, hserving⟩ := hout.runTask hq h.sound hunder accept m
  refine ⟨o, by simp only [step, hrun], ?_, hserving.others⟩
  have hload := load_setOut (s := s) hq hserving.others
  refine h.setOut hserving.sound ho (fun y hy => ?_) fun y => ?_
  · rw [hload] at hy ⊢
    by_cases hyq : y = q
    · subst hyq
      simp only [Function.update_self] at hy ⊢
      exact hserving.under hy
    · simp only [Function.update_of_ne hyq] at hy ⊢
      exact h.under y hy
  · rw [hload]
    by_cases hyq : y = q
    · subst hyq
      have hle := h.room y
      rw [count_load hq] at hle
      simp only [Function.update_self]
      exact (Nat.add_le_add_right hserving.le _).trans hle
    · simp only [Function.update_of_ne hyq]
      exact h.room y

/-- The numbers of packets of batches. -/
def sizes (deliveries : List (Delivery V α)) : List (V × ℕ) :=
  deliveries.map fun d => (d.module, d.batch.pkts.length)

omit [DecidableEq V] [Fintype V] [Inhabited α] in
theorem total_sizes (deliveries : List (Delivery V α)) :
    Headroom.total (sizes deliveries) = (deliveries.flatMap fun d => d.batch.pkts).length := by
  simp [Headroom.total, sizes, List.length_flatMap, Function.comp_def]

theorem Inv.foldl_deliver : ∀ (deliveries : List (Delivery V α)) {s : BpqState V α},
    Inv N outs₀ s (sizes deliveries) →
    (∀ d ∈ deliveries, N.isOut d.module = true ∧ d.message.allocated = true) →
    Inv N outs₀ (deliveries.foldl (BpqState.deliver N) s) []
  | [], _, h, _ => h
  | d :: deliveries, _, h, hd =>
    Inv.foldl_deliver deliveries
      (Inv.deliver (d := d) h (hd d List.mem_cons_self).1 (hd d List.mem_cons_self).2)
      fun e he => hd e (List.mem_cons_of_mem _ he)

omit [Fintype V] in
/-- Behind a source that is not stopped no `BPQOut` is overloaded. -/
theorem Sound.free (h : Sound N s.net) {t : V} (ht : s.net.childrenOverload t ≤ 0) :
    Headroom.Free (fun t q => N.feeds t q = true) (s.load N) t := by
  intro q hq
  by_contra hne
  simp only [load, Bool.not_eq_false, Bool.and_eq_true] at hne
  exact absurd (h.quiet.blocked_of_leads h.exact (N.leads t q hq) hne.2) ht.not_gt

omit [Fintype V] in
/-- A source runs, until the first batch comes to a `BPQOut`. -/
theorem Inv.runInc (h : Inv N outs₀ s []) {t : V} {adminUp : Bool} {received : List α}
    (hreceived : received.length ≤ kMaxBurst) (incs : V → IncStats)
    (hrest : ∀ d ∈ rest, N.feeds t d.1 = true)
    (htotal : Headroom.total rest ≤ (s.runInc N t adminUp received).batch.length) :
    Inv N outs₀ { s with incs := incs } rest := by
  refine ⟨h.sound, h.out, h.under, ?_⟩
  show Headroom.Room (marks V) (s.load N) rest
  rw [BpqState.runInc, batch_bpqIncRunTask] at htotal
  split_ifs at htotal with hnone
  · intro q
    have hpending := Headroom.pending_le_total rest q
    have hroom := h.room q
    rw [Headroom.pending_nil] at hroom
    rw [List.length_nil] at htotal
    omega
  · exact h.under.room_source h.room (h.sound.free (not_lt.mp fun hlt => hnone (.inl hlt))) hrest
      (htotal.trans hreceived)

/-- **A step.** -/
theorem inv_step [DecidableEq α] (s : BpqState V α) (e : Event V α) (s' : BpqState V α)
    (h : Inv N outs₀ s []) (hpermits : permits N s e = true) (hstep : step N s e = .ok s') :
    Inv N outs₀ s' [] := by
  cases e with
  | runInc t adminUp received deliveries =>
    simp only [permits, decide_eq_true_eq] at hpermits
    obtain ⟨hreceived, hsub, hdel⟩ := hpermits
    cases hstep
    have hrest : ∀ d ∈ sizes deliveries, N.feeds t d.1 = true := by
      intro d hd
      obtain ⟨e, he, rfl⟩ := List.mem_map.mp hd
      exact (hdel e he).2.1
    have htotal : Headroom.total (sizes deliveries) ≤
        (s.runInc N t adminUp received).batch.length := by
      rw [total_sizes]
      exact hsub.length_le
    exact Inv.foldl_deliver deliveries (h.runInc hreceived _ hrest htotal) fun d hd =>
      ⟨(hdel d hd).1, (hdel d hd).2.2⟩
  | runOut q accept m =>
    obtain ⟨o, ho, hinv, -⟩ := h.runOut (q := q) hpermits accept m
    rw [ho] at hstep
    cases hstep
    exact hinv

end BpqState

end Backdraft.OutQueue

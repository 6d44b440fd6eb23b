import Mathlib.Tactic
import Backdraft.Lib.Run
import Backdraft.OutQueue.Staged

/-!
# `ECNQOut`

The output module that marks packets when its queue is long.  `ProcessBatch` has a fast path: with
an empty ring the batch is offered to the port at once, and only the rest is buffered.  The path
does not look at the staging array, so a batch may overtake packets that a `RunTask` has staged and
could not send; and with the port down the batch is neither freed nor kept.

* `ECNQOut`, `ECNQOut.buffer`, `ECNQOut.processBatch`, `ECNQOut.runTask`: the module and its calls;
* `ECNQOut.orderly`: the calls that do neither;
* `ECNQOut.Inv`: what orderly calls keep;
* `order_kept_iff`: every packet stays accounted for and in order exactly as long as all calls are
  orderly.
-/

namespace Backdraft.OutQueue

open scoped List

/-- `DEFAULT_QUEUE_SIZE`. -/
def ecnqQueueSize : ℕ := 16

/-- The module, with four lists that the source does not keep: the packets that `ecnMark` wrote to,
those handed in, those that the port accepted and those freed. -/
structure ECNQOut (α : Type) extends Staged α where
  highWater : ℕ
  stats : QueueStats
  marked : List α
  handedIn : List α
  accepted : List α
  freed : List α
  deriving DecidableEq

/-- The calls: `ProcessBatch` reads `admin_up` of the port, which would take `n` packets. -/
inductive ECNQOp (α : Type)
  | processBatch (adminUp : Bool) (n : ℕ) (batch : Batch α)
  | runTask (accept : ℕ → ℕ)

/-- The packets that a call hands in. -/
def ECNQOp.pkts {α : Type} : ECNQOp α → List α
  | .processBatch _ _ batch => batch.pkts
  | .runTask _ => []

namespace ECNQOut

variable {α : Type}

/-- `Init`, for a queue with counters `stats`; `kHighWaterRatio` is zero. -/
def init [Inhabited α] (stats : QueueStats) : Option (ECNQOut α) :=
  (Staged.init ecnqQueueSize kMaxBurst).map fun q =>
    { toStaged := q
      highWater := ecnqQueueSize * 0 / 100
      stats := stats
      marked := []
      handedIn := []
      accepted := []
      freed := [] }

/-- `Buffer`: mark from the high water mark on, enqueue, free what does not fit. -/
def buffer (p : OutPort α) (s : ECNQOut α) (pkts : List α) : ECNQOut α :=
  let leftSpace := s.highWater - s.queue.count
  let (q, queued) := s.toStaged.enqueue pkts
  { s with
    toStaged := q
    marked := s.marked ++ pkts.drop leftSpace
    stats :=
      if queued < pkts.length then p.countDropped (pkts.length - queued) s.stats else s.stats
    freed := s.freed ++ pkts.drop queued }

/-- `SendPackets` of the fast path, and its statistics. -/
def sendNow (p : OutPort α) (s : ECNQOut α) (sent : List α) : ECNQOut α :=
  { s with
    stats := p.countSent sent s.stats
    accepted := s.accepted ++ sent }

/-- `ProcessBatch`. -/
def processBatch (p : OutPort α) (s : ECNQOut α) (adminUp : Bool) (n : ℕ) (batch : Batch α) :
    ECNQOut α :=
  let s := { s with handedIn := s.handedIn ++ batch.pkts }
  if !adminUp then s
  else if 0 < s.queue.count then s.buffer p batch.pkts
  else
    let s := s.sendNow p (batch.pkts.take n)
    if n < batch.pkts.length then s.buffer p (batch.pkts.drop n) else s

variable [Inhabited α]

/-- `RunTask`. -/
def runTask (p : OutPort α) (s : ECNQOut α) (accept : ℕ → ℕ) : Option (ECNQOut α × TaskResult) :=
  (sendLoop accept (fun _ _ x => x) (s.queue.count + 1) 0 s.toStaged () []).map
    fun (q, _, sent) =>
      ({ s with
          toStaged := q
          stats := p.countSent sent s.stats
          accepted := s.accepted ++ sent },
        p.taskResult sent)

/-- One call; a `RunTask` without a result is an error. -/
def step (p : OutPort α) (s : ECNQOut α) : ECNQOp α → Except Unit (ECNQOut α)
  | .processBatch adminUp n batch => .ok (s.processBatch p adminUp n batch)
  | .runTask accept =>
    match s.runTask p accept with
    | some (s', _) => .ok s'
    | none => .error ()

/-- Every packet handed in was accepted by the port or freed, or it waits; each exactly once. -/
def KeepsAll (s : ECNQOut α) : Prop :=
  s.handedIn.Perm (s.accepted ++ s.freed ++ s.waiting)

/-- The port gets the packets in the order in which they were handed in, in this state and in the
next `RunTask`. -/
def InOrder (p : OutPort α) (s : ECNQOut α) : Prop :=
  s.accepted <+ s.handedIn ∧
    ∀ accept s' r, s.runTask p accept = some (s', r) → s'.accepted <+ s'.handedIn

/-- The port is up, and the fast path sends nothing past staged packets. -/
def orderly (s : ECNQOut α) : ECNQOp α → Bool
  | .processBatch adminUp n _ => adminUp && (s.cntMbufs == 0 || 0 < s.queue.count || n == 0)
  | .runTask _ => true

/-! ### What orderly calls keep -/

/-- The state between two calls, without what a `ProcessBatch` may break. -/
structure Base (s : ECNQOut α) : Prop where
  wf : s.toStaged.WF
  slots_eq : s.queue.slots = ecnqQueueSize
  burst_eq : s.burst = kMaxBurst

/-- The state after orderly calls. -/
structure Inv (s : ECNQOut α) : Prop extends Base s where
  all : s.KeepsAll
  order : s.accepted ++ s.waiting <+ s.handedIn

variable {p : OutPort α} {s : ECNQOut α}

theorem Inv.init {stats : QueueStats} (h : ECNQOut.init stats = some s) : Inv s := by
  rw [ECNQOut.init] at h
  obtain ⟨q, hq, rfl⟩ := Option.map_eq_some_iff.1 h
  obtain ⟨hwf, hnil, hslots, hburst⟩ := Staged.init_spec hq ⟨4, by decide, rfl⟩ le_rfl
  exact ⟨⟨hwf, hslots, hburst⟩, by simp [KeepsAll, hnil], by simp [hnil]⟩

theorem handedIn_init {stats : QueueStats} (h : ECNQOut.init stats = some s) :
    s.handedIn = [] := by
  rw [ECNQOut.init] at h
  obtain ⟨q, -, rfl⟩ := Option.map_eq_some_iff.1 h
  rfl

/-- `Buffer` appends what fits and frees the rest. -/
theorem Base.buffer (h : Base s) (pkts : List α) :
    Base (s.buffer p pkts) ∧
      (s.buffer p pkts).waiting = s.waiting ++ pkts.take s.queue.freeCount ∧
      (s.buffer p pkts).freed = s.freed ++ pkts.drop s.queue.freeCount := by
  obtain ⟨hwf, hwait, hqueued, hslots⟩ := h.wf.enqueue_spec pkts
  refine ⟨⟨hwf, hslots.trans h.slots_eq, h.burst_eq⟩, hwait, ?_⟩
  show s.freed ++ pkts.drop (s.toStaged.enqueue pkts).2 = _
  rw [hqueued, min_comm, ← List.drop_eq_drop_min]

/-- A `RunTask` returns; it hands the port a prefix of what waits, and all of it if the port takes
everything. -/
theorem Base.runTask (h : Base s) (accept : ℕ → ℕ) :
    ∃ s' r out, s.runTask p accept = some (s', r) ∧ Base s' ∧ s'.accepted = s.accepted ++ out ∧
      out ++ s'.waiting = s.waiting ∧ s'.freed = s.freed ∧ s'.handedIn = s.handedIn ∧
      ((∀ k, kMaxBurst ≤ accept k) → s'.waiting = []) := by
  have hfuel : s.queue.contents.length < s.queue.count + 1 := by
    rw [h.wf.ring.count_eq]
    omega
  obtain ⟨q', x', out, hloop, hs⟩ := sendLoop_spec accept (fun _ _ x => x) 0 () [] h.wf hfuel
  rw [ECNQOut.runTask, hloop]
  refine ⟨_, _, out, rfl, ⟨hs.wf, hs.slots_eq.trans h.slots_eq, hs.burst_eq.trans h.burst_eq⟩,
    rfl, hs.order, rfl, rfl, fun hall => ?_⟩
  obtain ⟨k, hk⟩ | hz | hnil := hs.ended
  · exact absurd (hall k) (Nat.not_le.2 hk)
  · rw [h.burst_eq] at hz
    exact absurd hz (by decide)
  · exact hnil

/-- The order that counts is that of the packets accepted and waiting. -/
theorem Base.inOrder_iff (h : Base s) :
    s.InOrder p ↔ s.accepted ++ s.waiting <+ s.handedIn := by
  constructor
  · intro hord
    obtain ⟨s', r, out, hrun, -, hacc, hout, -, hin, hnil⟩ :=
      h.runTask (p := p) fun _ => kMaxBurst
    have hlast := hord.2 _ _ _ hrun
    rwa [hacc, hin, ← List.append_nil out, ← hnil fun _ => le_rfl, hout] at hlast
  · intro hord
    refine ⟨(List.sublist_append_left _ _).trans hord, fun accept t r ht => ?_⟩
    obtain ⟨s', r', out, hrun, -, hacc, hout, -, hin, -⟩ := h.runTask (p := p) accept
    rw [hrun] at ht
    cases ht
    rw [hacc, hin]
    rw [← hout, ← List.append_assoc] at hord
    exact (List.sublist_append_left _ _).trans hord

/-- The part of a batch that the fast path sends. -/
def passed (s : ECNQOut α) (n : ℕ) (batch : Batch α) : List α :=
  if 0 < s.queue.count then [] else batch.pkts.take n

/-- A `ProcessBatch` with the port up sends the first part of the batch, appends to the ring what
fits of the rest, and frees what does not. -/
theorem Base.processBatch_up (h : Base s) (n : ℕ) (batch : Batch α) :
    ∃ fit rest, batch.pkts = s.passed n batch ++ (fit ++ rest) ∧
      Base (s.processBatch p true n batch) ∧
      (s.processBatch p true n batch).handedIn = s.handedIn ++ batch.pkts ∧
      (s.processBatch p true n batch).accepted = s.accepted ++ s.passed n batch ∧
      (s.processBatch p true n batch).waiting = s.waiting ++ fit ∧
      (s.processBatch p true n batch).freed = s.freed ++ rest := by
  set s₁ : ECNQOut α := { s with handedIn := s.handedIn ++ batch.pkts } with hs₁
  have hin : Base s₁ := ⟨h.wf, h.slots_eq, h.burst_eq⟩
  by_cases hring : 0 < s.queue.count
  · have heq : s.processBatch p true n batch = s₁.buffer p batch.pkts := by
      simp [processBatch, hring, hs₁]
    have hnil : s.passed n batch = [] := if_pos hring
    obtain ⟨hbase, hwait, hfreed⟩ := hin.buffer (p := p) batch.pkts
    rw [heq, hnil]
    exact ⟨_, _, (List.take_append_drop _ _).symm, hbase, rfl, (List.append_nil _).symm, hwait,
      hfreed⟩
  have hpass : s.passed n batch = batch.pkts.take n := if_neg hring
  have hsent : Base (s₁.sendNow p (batch.pkts.take n)) := ⟨h.wf, h.slots_eq, h.burst_eq⟩
  rw [hpass]
  by_cases hleft : n < batch.pkts.length
  · have heq : s.processBatch p true n batch =
        (s₁.sendNow p (batch.pkts.take n)).buffer p (batch.pkts.drop n) := by
      simp [processBatch, hring, hleft, hs₁]
    obtain ⟨hbase, hwait, hfreed⟩ := hsent.buffer (p := p) (batch.pkts.drop n)
    rw [heq]
    refine ⟨_, _, ?_, hbase, rfl, rfl, hwait, hfreed⟩
    rw [List.take_append_drop, List.take_append_drop]
  · have heq : s.processBatch p true n batch = s₁.sendNow p (batch.pkts.take n) := by
      simp [processBatch, hring, hleft, hs₁]
    rw [heq]
    refine ⟨[], [], ?_, hsent, rfl, rfl, (List.append_nil _).symm, (List.append_nil _).symm⟩
    rw [List.append_nil, List.append_nil, List.take_of_length_le (by omega)]

/-- Every call returns. -/
theorem Base.step (h : Base s) (op : ECNQOp α) :
    ∃ s', ECNQOut.step p s op = .ok s' ∧ Base s' ∧ s'.handedIn = s.handedIn ++ op.pkts := by
  cases op with
  | processBatch adminUp n batch =>
    refine ⟨_, rfl, ?_⟩
    cases adminUp with
    | false => exact ⟨⟨h.wf, h.slots_eq, h.burst_eq⟩, rfl⟩
    | true =>
      obtain ⟨_, _, -, hbase, hin, -⟩ := h.processBatch_up (p := p) n batch
      exact ⟨hbase, hin⟩
  | runTask accept =>
    obtain ⟨s', r, out, hrun, hbase, -, -, -, hin, -⟩ := h.runTask (p := p) accept
    refine ⟨s', by rw [ECNQOut.step, hrun], hbase, ?_⟩
    rw [hin]
    exact (List.append_nil _).symm

/-- A batch that passes nothing, or nothing that waits, goes to the end of the line. -/
theorem Inv.processBatch_up (h : Inv s) {n : ℕ} {batch : Batch α}
    (hpass : s.passed n batch = [] ∨ s.waiting = []) : Inv (s.processBatch p true n batch) := by
  obtain ⟨fit, rest, hpkts, hbase, hin, hacc, hwait, hfreed⟩ :=
    h.toBase.processBatch_up (p := p) n batch
  have hline : s.accepted ++ s.passed n batch ++ (s.waiting ++ fit) =
      s.accepted ++ s.waiting ++ (s.passed n batch ++ fit) := by
    obtain hnil | hnil := hpass <;> simp [hnil]
  refine ⟨hbase, ?_, ?_⟩
  · -- the three parts of the batch go to the three places
    rw [KeepsAll, hin, hacc, hfreed, hwait, hpkts]
    refine (h.all.append_right _).trans ?_
    rw [← Multiset.coe_eq_coe]
    simp only [← Multiset.coe_add]
    abel
  · rw [hacc, hwait, hin, hpkts, hline, ← List.append_assoc (s.passed n batch)]
    exact h.order.append (List.sublist_append_left _ _)

/-- **An orderly call keeps every packet and the order.** -/
theorem Inv.step {s' : ECNQOut α} {op : ECNQOp α} (h : Inv s) (hop : s.orderly op = true)
    (hs : ECNQOut.step p s op = .ok s') : Inv s' := by
  cases op with
  | processBatch adminUp n batch =>
    cases hs
    simp only [orderly, Bool.and_eq_true, Bool.or_eq_true, beq_iff_eq, decide_eq_true_eq] at hop
    obtain ⟨rfl, hpath⟩ := hop
    refine h.processBatch_up ?_
    by_cases hring : 0 < s.queue.count
    · exact .inl (if_pos hring)
    rw [passed, if_neg hring]
    obtain (hz | hpos) | hn := hpath
    · right
      have hnil : s.queue.contents = [] := by
        rw [← List.length_eq_zero_iff, ← h.wf.ring.count_eq]
        omega
      rw [Staged.waiting, hz, hnil, List.take_zero, List.append_nil]
    · exact absurd hpos hring
    · exact .inl (by rw [hn, List.take_zero])
  | runTask accept =>
    obtain ⟨t, r, out, hrun, hbase, hacc, hout, hfreed, hin, -⟩ := h.toBase.runTask (p := p) accept
    rw [ECNQOut.step, hrun] at hs
    cases hs
    refine ⟨hbase, ?_, ?_⟩
    · rw [KeepsAll, hin, hacc, hfreed]
      refine h.all.trans ?_
      rw [← hout, ← Multiset.coe_eq_coe]
      simp only [← Multiset.coe_add]
      abel
    · rw [hacc, hin, List.append_assoc, hout]
      exact h.order

/-- A batch that comes while the port is down is in none of the three places. -/
theorem Inv.not_keepsAll_down (h : Inv s) (n : ℕ) (batch : Batch α) :
    ¬ (s.processBatch p false n batch).KeepsAll := by
  intro hall
  have hlen : (s.handedIn ++ batch.pkts).length = (s.accepted ++ s.freed ++ s.waiting).length :=
    hall.length_eq
  rw [List.length_append, ← h.all.length_eq] at hlen
  exact batch.ne_nil (List.length_eq_zero_iff.1 (by omega))

/-- A packet that the fast path sends past a staged one leaves out of order. -/
theorem Inv.not_inOrder_past (h : Inv s) {n : ℕ} {batch : Batch α}
    (hnd : (s.handedIn ++ batch.pkts).Nodup) (hpass : s.passed n batch ≠ [])
    (hwaits : s.waiting ≠ []) : ¬ (s.processBatch p true n batch).InOrder p := by
  obtain ⟨fit, rest, hpkts, hbase, hin, hacc, hwait, -⟩ :=
    h.toBase.processBatch_up (p := p) n batch
  obtain ⟨y, hy⟩ := List.exists_mem_of_ne_nil _ hpass
  obtain ⟨x, hx⟩ := List.exists_mem_of_ne_nil _ hwaits
  rw [hbase.inOrder_iff, hin, hacc, hwait]
  intro hord
  -- `y` is sent before `x`, but it came after it
  have hyx : [y] ++ [x] <+ s.handedIn ++ batch.pkts :=
    ((List.singleton_sublist.2 (List.mem_append_right _ hy)).append
      (List.singleton_sublist.2 (List.mem_append_left _ hx))).trans hord
  have hxin : x ∈ s.handedIn := h.order.subset (List.mem_append_right _ hx)
  have hyin : y ∈ batch.pkts := by
    rw [hpkts]
    exact List.mem_append_left _ hy
  have hxy : [x] ++ [y] <+ s.handedIn ++ batch.pkts :=
    (List.singleton_sublist.2 hxin).append (List.singleton_sublist.2 hyin)
  exact Slots.not_sublist_swap hnd hxy hyx

/-- **A call keeps every packet and the order exactly if it is orderly.** -/
theorem Inv.step_iff {s' : ECNQOut α} {op : ECNQOp α} (h : Inv s)
    (hnd : (s.handedIn ++ op.pkts).Nodup) (hs : ECNQOut.step p s op = .ok s') :
    s'.KeepsAll ∧ s'.InOrder p ↔ s.orderly op = true := by
  constructor
  · rintro ⟨hall, hord⟩
    cases op with
    | runTask accept => rfl
    | processBatch adminUp n batch =>
      cases hs
      cases adminUp with
      | false => exact absurd hall (h.not_keepsAll_down n batch)
      | true =>
        by_contra hop
        simp only [orderly, Bool.true_and, Bool.or_eq_true, beq_iff_eq, decide_eq_true_eq,
          not_or] at hop
        obtain ⟨⟨hstaged, hring⟩, hn⟩ := hop
        refine h.not_inOrder_past hnd ?_ ?_ hord
        · rw [passed, if_neg hring]
          simp [List.take_eq_nil_iff, hn, batch.ne_nil]
        · have hlen := h.wf.length_mbufs
          intro hnil
          obtain ⟨hfront, -⟩ := List.append_eq_nil_iff.1 hnil
          obtain hz | hz := List.take_eq_nil_iff.1 hfront
          · exact hstaged hz
          · rw [hz, List.length_nil] at hlen
            exact absurd hlen (by decide)
  · intro hop
    have hinv := h.step hop hs
    exact ⟨hinv.all, hinv.toBase.inOrder_iff.2 hinv.order⟩

/-- `Base`, for every list of calls. -/
theorem Base.exec {s₀ : ECNQOut α} (h : Base s₀) (ops : List (ECNQOp α)) :
    ∃ s, Run.exec (ECNQOut.step p) (fun _ _ => true) s₀ ops = some s ∧ Base s ∧
      s.handedIn = s₀.handedIn ++ ops.flatMap ECNQOp.pkts := by
  induction ops generalizing s₀ with
  | nil => exact ⟨s₀, rfl, h, by simp⟩
  | cons op ops ih =>
    obtain ⟨s₁, hs₁, hbase, hin⟩ := h.step (p := p) op
    obtain ⟨s, hs, hbase', hin'⟩ := ih hbase
    refine ⟨s, by simpa [Run.exec, hs₁] using hs, hbase', ?_⟩
    rw [hin', hin, List.append_assoc, List.flatMap_cons]

end ECNQOut

/-! ### Runs -/

section Runs

variable {α : Type} [Inhabited α]

/-- **When `ECNQOut` keeps order and loses nothing.**  The calls are made one after the other, on
different packets and with any number of packets taken by the port.  After each of them the packets
handed in are those accepted, those freed and those that wait, each once, and the port gets them
in their order, exactly if each batch comes while the port is up and either finds no staged packet,
or finds one in the ring, or is not sent at once. -/
theorem order_kept_iff {p : OutPort α} {stats : QueueStats} {s₀ : ECNQOut α}
    (h₀ : ECNQOut.init stats = some s₀) (ops : List (ECNQOp α))
    (hnd : (ops.flatMap ECNQOp.pkts).Nodup) :
    (∀ done, done <+: ops → ∃ s, Run.exec (ECNQOut.step p) (fun _ _ => true) s₀ done = some s ∧
      s.KeepsAll ∧ s.InOrder p) ↔
    ∀ done op, done ++ [op] <+: ops →
      ∃ s, Run.exec (ECNQOut.step p) (fun _ _ => true) s₀ done = some s ∧ s.orderly op = true := by
  have hinv := ECNQOut.Inv.init h₀
  have hstart : s₀.KeepsAll ∧ s₀.InOrder p := ⟨hinv.all, hinv.toBase.inOrder_iff.2 hinv.order⟩
  refine Run.forall_prefix_iff ⟨s₀, rfl, hstart⟩ ops fun done op hp ⟨s, hs, hall, hord⟩ => ?_
  obtain ⟨t, ht, hbase, hin⟩ := hinv.toBase.exec (p := p) done
  obtain rfl : t = s := Option.some.inj (ht.symm.trans hs)
  obtain ⟨u, hu, -, hin'⟩ := hbase.step (p := p) op
  have hnext : Run.exec (ECNQOut.step p) (fun _ _ => true) s₀ (done ++ [op]) = some u := by
    rw [Run.exec_concat ht]
    simp [Run.exec, hu]
  -- the packets handed in so far are those of the calls, so they are all different
  have hnodup : (t.handedIn ++ op.pkts).Nodup := by
    obtain ⟨rest, rfl⟩ := hp
    rw [List.flatMap_append, List.flatMap_append, List.flatMap_singleton] at hnd
    rw [hin, ECNQOut.handedIn_init h₀, List.nil_append]
    exact hnd.sublist (List.sublist_append_left _ _)
  have hiff := (⟨hbase, hall, hbase.inOrder_iff.1 hord⟩ : ECNQOut.Inv t).step_iff hnodup hu
  simp only [hnext, ht, Option.some.injEq, exists_eq_left', hiff]

end Runs

/-- A port that takes two of the twenty packets of the first batch: fifteen fit in the ring and
three are freed. -/
theorem order_kept_first_batch :
    ∃ s₀ : ECNQOut ℕ, ECNQOut.init ⟨0, 0, 0⟩ = some s₀ ∧
      ∃ s, Run.exec (ECNQOut.step ⟨false, fun _ => 64⟩) (fun _ _ => true) s₀
          [.processBatch true 2 ⟨List.range 20, by decide⟩] = some s ∧
        s.KeepsAll ∧ s.InOrder ⟨false, fun _ => 64⟩ := by
  let ops : List (ECNQOp ℕ) := [.processBatch true 2 ⟨List.range 20, by decide⟩]
  have hinit : (ECNQOut.init (α := ℕ) ⟨0, 0, 0⟩).isSome := by decide +kernel
  obtain ⟨s₀, h₀⟩ := Option.isSome_iff_exists.1 hinit
  have hup : (ECNQOut.init (α := ℕ) ⟨0, 0, 0⟩).map
      (·.orderly (.processBatch true 2 ⟨List.range 20, by decide⟩)) = some true := by
    decide +kernel
  rw [h₀] at hup
  refine ⟨s₀, h₀, (order_kept_iff h₀ ops (by decide)).2 (fun done op hp => ?_) ops
    (List.prefix_refl _)⟩
  obtain ⟨rfl, rfl⟩ : done = [] ∧ op = .processBatch true 2 ⟨List.range 20, by decide⟩ := by
    obtain ⟨rest, hrest⟩ := hp
    have hlen := congrArg List.length hrest
    simp only [List.length_append, List.length_singleton, ops] at hlen
    obtain rfl : done = [] := List.length_eq_zero_iff.1 (by omega)
    exact ⟨rfl, (List.cons.inj hrest).1⟩
  exact ⟨s₀, rfl, Option.some.inj hup⟩

/-- Packet 1 is staged and the port takes no more; the batch with packet 2 finds an empty ring and
is sent before it.  And a batch that comes while the port is down is in no place at all. -/
theorem batch_overtakes_or_is_lost :
    ∃ s₀ s t : ECNQOut ℕ, ECNQOut.init ⟨0, 0, 0⟩ = some s₀ ∧
      Run.ReachIf (ECNQOut.step ⟨false, fun _ => 64⟩) (fun _ _ => true) s₀ s ∧
      s.handedIn = [0, 1, 2] ∧ s.accepted = [0, 2, 1] ∧ ¬ s.accepted <+ s.handedIn ∧
      Run.ReachIf (ECNQOut.step ⟨false, fun _ => 64⟩) (fun _ _ => true) s₀ t ∧
      t.handedIn = [0] ∧ t.accepted = [] ∧ t.freed = [] ∧ t.waiting = [] ∧ ¬ t.KeepsAll := by
  let late : List (ECNQOp ℕ) :=
    [.processBatch true 0 ⟨[0, 1], by simp⟩, .runTask fun _ => 1,
      .processBatch true 1 ⟨[2], by simp⟩, .runTask fun _ => 32]
  let down : List (ECNQOp ℕ) := [.processBatch false 1 ⟨[0], by simp⟩]
  have hrun : ((ECNQOut.init ⟨0, 0, 0⟩).bind fun s₀ =>
      (Run.exec (ECNQOut.step ⟨false, fun _ => 64⟩) (fun _ _ => true) s₀ late).bind fun s =>
      (Run.exec (ECNQOut.step ⟨false, fun _ => 64⟩) (fun _ _ => true) s₀ down).map fun t =>
        decide (s.handedIn = [0, 1, 2] ∧ s.accepted = [0, 2, 1] ∧
          t.handedIn = [0] ∧ t.accepted = [] ∧ t.freed = [] ∧ t.waiting = [])) = some true := by
    decide +kernel
  obtain ⟨s₀, h₀, hrun⟩ := Option.bind_eq_some_iff.1 hrun
  obtain ⟨s, hs, hrun⟩ := Option.bind_eq_some_iff.1 hrun
  obtain ⟨t, ht, hrun⟩ := Option.map_eq_some_iff.1 hrun
  obtain ⟨hin, hacc, hin', hacc', hfreed, hwait⟩ := of_decide_eq_true hrun
  refine ⟨s₀, s, t, h₀, Run.reachIf_of_exec late hs, hin, hacc, ?_,
    Run.reachIf_of_exec down ht, hin', hacc', hfreed, hwait, ?_⟩
  · rw [hin, hacc]
    decide
  · rw [ECNQOut.KeepsAll, hin', hacc', hfreed, hwait]
    decide

end Backdraft.OutQueue

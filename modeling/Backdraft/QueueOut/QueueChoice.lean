import Backdraft.Lib.LeastRecent
import Backdraft.QueueOut.Blocks

/-!
# The queue of a new flow

With a doorbell queue or per-flow buffers, `GetFlowState` puts a new flow on the queue that was
visited least recently.  A run of lookups is observed by a log of its visits, newest first.

* `chooseQueue_eq_pick`: the loop over the queues is the one of `LeastRecent`;
* `LogInv`: `last_visit` is the time of the last visit, and each new flow was put on the first queue
  with the smallest one;
* `least_recently_used`: so `k` new flows in a row are put on `k` queues.

The code uses two times for itself: 0 is the `last_visit` of a queue that was never visited, and
`UINT64_MAX` is where the loop starts.  The scheduler takes `current_ns` from the time stamp
counter, multiplied by a factor, and never shows either of them.
-/

namespace Backdraft

open Word LeastRecent

/-- The queues on which a new flow can be put: `data_queues_`, without the doorbell queue. -/
def QueueOutConfig.candidates (cfg : QueueOutConfig) : List ℕ :=
  if cfg.cdq then cfg.dataQueues.drop 1 else cfg.dataQueues

/-- A lookup that returned a block: when, on which queue, and whether the flow had no block
before. -/
structure Visit where
  time : ℕ
  qid : ℕ
  fresh : Bool
  deriving DecidableEq

namespace FlowTable

variable {cfg : QueueOutConfig} {t t' t₀ : FlowTable} {now i : ℕ} {flow : Flow}

theorem chooseQueue_eq_pick (hmode : cfg.cdq = true ∨ cfg.perFlowBuffering = true) :
    t.chooseQueue cfg = pick t.lastVisit (2 ^ 64 - 1) 0 cfg.candidates := by
  unfold chooseQueue
  rw [if_neg (by rcases hmode with h | h <;> simp [h])]
  rfl

/-- The choice of a queue, if one of them was last visited before the end of time. -/
theorem chooseQueue_firstMin (hmode : cfg.cdq = true ∨ cfg.perFlowBuffering = true)
    (hpos : cfg.candidates ≠ []) (hlt : ∀ q, t.lastVisit q < 2 ^ 64 - 1) :
    FirstMin t.lastVisit cfg.candidates (t.chooseQueue cfg) := by
  obtain ⟨q, hq⟩ := List.exists_mem_of_ne_nil _ hpos
  rw [chooseQueue_eq_pick hmode]
  exact pick_firstMin ⟨q, hq, hlt q⟩

/-! ### Visits -/

/-- The visit that a lookup makes. -/
def visit (t t' : FlowTable) (now : ℕ) (flow : Flow) (i : ℕ) : Visit :=
  ⟨now, (t'.flowStatePool i).qid, (t.flowBufferMapping.lookup flow.toFlowTuple).isNone⟩

/-- A table and the visits made so far, newest first. -/
structure Logged where
  table : FlowTable
  visits : List Visit

/-- One operation, observed. -/
def Logged.step (cfg : QueueOutConfig) (l : Logged) : Op → Except Fatal Logged
  | .getFlowState now flow =>
    match l.table.getFlowState cfg now flow with
    | .error e => .error e
    | .ok (t, i) => .ok ⟨t, l.table.visit t now flow i :: l.visits⟩
  | op => (l.table.step cfg op).map fun t => ⟨t, l.visits⟩

/-- The clock of the scheduler shows neither 0 nor `UINT64_MAX`. -/
def Logged.inTime (l : Logged) : Op → Bool
  | .getFlowState now _ => decide (0 < now ∧ now < 2 ^ 64 - 1)
  | op => l.table.usesBlocks op

/-- The queues and times of some visits. -/
def uses (visits : List Visit) : List (ℕ × ℕ) := visits.map fun e => (e.qid, e.time)

/-- What the log says about the table, and about the choices made. -/
structure LogInv (cfg : QueueOutConfig) (l : Logged) : Prop where
  last_eq : ∀ q, l.table.lastVisit q = last 0 (uses l.visits) q
  firstMin : ∀ e old, e :: old <:+ l.visits → e.fresh = true →
    FirstMin (last 0 (uses old)) cfg.candidates e.qid
  time : ∀ e ∈ l.visits, 0 < e.time ∧ e.time < 2 ^ 64 - 1

namespace LogInv

variable {l l' : Logged}

theorem lastVisit_lt (h : LogInv cfg l) (q : ℕ) : l.table.lastVisit q < 2 ^ 64 - 1 := by
  rw [h.last_eq]
  rcases last_mem 0 (uses l.visits) q with heq | ⟨e, he, heq⟩
  · rw [heq]
    decide
  · obtain ⟨v, hv, rfl⟩ := List.mem_map.1 he
    exact heq ▸ (h.time v hv).2

theorem lookup (h : LogInv cfg l) (hmode : cfg.cdq = true ∨ cfg.perFlowBuffering = true)
    (hpos : cfg.candidates ≠ []) (hnow : 0 < now ∧ now < 2 ^ 64 - 1)
    (hget : l.table.getFlowState cfg now flow = .ok (t', i)) :
    LogInv cfg ⟨t', l.table.visit t' now flow i :: l.visits⟩ := by
  refine ⟨fun q => ?_, fun e old hsuf hfresh => ?_, ?_⟩
  · change t'.lastVisit q = last 0 (((t'.flowStatePool i).qid, now) :: uses l.visits) q
    rw [lastVisit_getFlowState hget, last_cons, ← h.last_eq, Function.update_apply]
    simp only [eq_comm]
  · rcases List.suffix_cons_iff.1 hsuf with heq | hsuf
    · obtain ⟨rfl, rfl⟩ := List.cons.inj heq
      have hnone : l.table.flowBufferMapping.lookup flow.toFlowTuple = none :=
        Option.isNone_iff_eq_none.1 hfresh
      change FirstMin _ _ (t'.flowStatePool i).qid
      rw [qid_getFlowState hnone hget, ← funext h.last_eq]
      exact chooseQueue_firstMin hmode hpos h.lastVisit_lt
    · exact h.firstMin e old hsuf hfresh
  · exact List.forall_mem_cons.2 ⟨hnow, h.time⟩

theorem step {op : Op} (h : LogInv cfg l) (hmode : cfg.cdq = true ∨ cfg.perFlowBuffering = true)
    (hpos : cfg.candidates ≠ []) (hop : l.inTime op = true) (hok : l.step cfg op = .ok l') :
    LogInv cfg l' := by
  cases op with
  | getFlowState now flow =>
    simp only [Logged.step] at hok
    split at hok
    · cases hok
    · rename_i t i hget
      cases hok
      exact h.lookup hmode hpos (of_decide_eq_true hop) hget
  | enqueue i pkts =>
    cases hok
    exact ⟨h.last_eq, h.firstMin, h.time⟩
  | drain i n =>
    cases hdrain : l.table.step cfg (.drain i n) with
    | error e => simp [Logged.step, hdrain, Except.map] at hok
    | ok t =>
      simp only [Logged.step, hdrain, Except.map, Except.ok.injEq] at hok
      obtain ⟨b, rfl⟩ := buffers_of_step_drain hdrain
      exact hok ▸ ⟨h.last_eq, h.firstMin, h.time⟩

theorem setup (h₀ : setup cfg = some t₀) (refuses : ℕ → Bool) :
    LogInv cfg ⟨t₀.answering refuses, []⟩ := by
  obtain ⟨b, rfl⟩ := setup_eq_some h₀
  exact ⟨fun q => rfl, fun e old hsuf => by simp at hsuf, by simp⟩

/-- New flows that come later than all visits before them are put on different queues. -/
theorem nodup_qid {new old : List Visit} (h : LogInv cfg l) (hnodup : cfg.candidates.Nodup)
    (hlog : new ++ old <:+ l.visits) (hlen : new.length ≤ cfg.candidates.length)
    (hfresh : ∀ e ∈ new, e.fresh = true) (hlater : ∀ e ∈ new, ∀ e' ∈ old, e'.time < e.time) :
    (new.map Visit.qid).Nodup := by
  have hleast : ∀ u mid, u :: mid <:+ uses new → ∀ q ∈ cfg.candidates,
      last 0 (mid ++ uses old) u.1 ≤ last 0 (mid ++ uses old) q := by
    intro u mid hmid q hq
    obtain ⟨vs, hvs, heq⟩ := List.suffix_map_iff.1 hmid
    cases vs with
    | nil => cases heq
    | cons v vs =>
      obtain ⟨rfl, rfl⟩ := List.cons.inj heq
      have hsuf : v :: (vs ++ old) <:+ l.visits := by
        obtain ⟨pre, hpre⟩ := hvs
        exact List.IsSuffix.trans ⟨pre, by rw [← hpre]; simp⟩ hlog
      have hmin := h.firstMin v (vs ++ old) hsuf (hfresh v (hvs.subset (by simp)))
      have hle := hmin.le hq
      rwa [uses, List.map_append] at hle
  have hafter : ∀ u ∈ uses new, 0 < u.2 ∧ ∀ u' ∈ uses old, u'.2 < u.2 := by
    intro u hu
    obtain ⟨v, hv, rfl⟩ := List.mem_map.1 hu
    refine ⟨(h.time v (hlog.subset (List.mem_append_left _ hv))).1, fun u' hu' => ?_⟩
    obtain ⟨v', hv', rfl⟩ := List.mem_map.1 hu'
    exact hlater v hv v' hv'
  have hnew := nodup_of_least hnodup (by simpa [uses] using hlen) hleast hafter
  rwa [uses, List.map_map] at hnew

end LogInv

theorem logInv_of_reach {l : Logged} {refuses : ℕ → Bool}
    (hmode : cfg.cdq = true ∨ cfg.perFlowBuffering = true)
    (hpos : cfg.candidates ≠ []) (h₀ : setup cfg = some t₀)
    (hl : Run.ReachIf (Logged.step cfg) Logged.inTime ⟨t₀.answering refuses, []⟩ l) :
    LogInv cfg l :=
  hl.invariant (P := LogInv cfg) (.setup h₀ refuses) fun _ _ _ h hop hok =>
    h.step hmode hpos hop hok

theorem nodup_candidates (h : cfg.dataQueues.Nodup) : cfg.candidates.Nodup := by
  unfold QueueOutConfig.candidates
  split_ifs
  · exact h.sublist (List.drop_sublist 1 _)
  · exact h

/-- **Queues are assigned by least recent use.**  In every run, whatever flows the hash map refuses,
`last_visit` is the time of the last lookup that returned a block on the queue, or 0; a new flow is
put on the first queue with the smallest one; and as many new flows in a row as there are queues,
each later than all visits before the first of them, are put on different queues. -/
theorem least_recently_used {l : Logged} {refuses : ℕ → Bool}
    (hmode : cfg.cdq = true ∨ cfg.perFlowBuffering = true)
    (hpos : cfg.candidates ≠ []) (hnodup : cfg.dataQueues.Nodup) (h₀ : setup cfg = some t₀)
    (hl : Run.ReachIf (Logged.step cfg) Logged.inTime ⟨t₀.answering refuses, []⟩ l) :
    (∀ q, l.table.lastVisit q = last 0 (uses l.visits) q) ∧
    (∀ now flow t' i, l.table.flowBufferMapping.lookup flow.toFlowTuple = none →
      l.table.getFlowState cfg now flow = .ok (t', i) →
        FirstMin l.table.lastVisit cfg.candidates (t'.flowStatePool i).qid) ∧
    ∀ new old, new ++ old <:+ l.visits → new.length ≤ cfg.candidates.length →
      (∀ e ∈ new, e.fresh = true) → (∀ e ∈ new, ∀ e' ∈ old, e'.time < e.time) →
        (new.map Visit.qid).Nodup := by
  have hinv := logInv_of_reach hmode hpos h₀ hl
  refine ⟨hinv.last_eq, fun now flow t' i hnone hget => ?_, fun new old hlog hlen hfresh hlater =>
    hinv.nodup_qid (nodup_candidates hnodup) hlog hlen hfresh hlater⟩
  rw [qid_getFlowState hnone hget]
  exact chooseQueue_firstMin hmode hpos hinv.lastVisit_lt

/-- Per-flow buffers of four slots, and the given queues. -/
def queuesConfig (dataQueues : List ℕ) : QueueOutConfig :=
  ⟨4, dataQueues, true, true, false, true, false⟩

/-- Two flows on two queues, of which the hash map refuses the first. -/
theorem least_recently_used_two_flows :
    ∃ t₀ l, setup (queuesConfig [3, 5]) = some t₀ ∧
      Run.ReachIf (Logged.step (queuesConfig [3, 5])) Logged.inTime
        ⟨t₀.answering fun n => n == 0, []⟩ l ∧
      (l.visits.map Visit.qid = [5, 3] ∧ l.table.lastVisit 5 = 8) ∧
      (l.visits.map Visit.qid).Nodup := by
  have hrun : ((setup (queuesConfig [3, 5])).bind fun t₀ =>
      (Run.exec (Logged.step (queuesConfig [3, 5])) Logged.inTime
        ⟨t₀.answering fun n => n == 0, []⟩
        [.getFlowState 7 (udpTo 80), .getFlowState 8 (udpTo 81)]).map fun l =>
      decide ((l.visits.map Visit.qid = [5, 3] ∧ l.table.lastVisit 5 = 8) ∧
        l.visits.length = 2 ∧ ∀ e ∈ l.visits, e.fresh = true)) = some true := by
    decide +kernel
  obtain ⟨t₀, l, h₀, hreach, hdec⟩ := Run.exists_init_reachIf _ hrun
  obtain ⟨hfacts, hlen, hfresh⟩ := of_decide_eq_true hdec
  have hused := least_recently_used (.inr rfl) (by decide) (by decide) h₀ hreach
  refine ⟨t₀, l, h₀, hreach, hfacts, hused.2.2 l.visits [] (by simp) hlen.le hfresh ?_⟩
  simp

end FlowTable

end Backdraft

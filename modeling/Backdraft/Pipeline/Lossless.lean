import Backdraft.Lib.Headroom
import Backdraft.Pipeline.Signals

/-!
# Room for every batch

The rings of queues with backpressure have room for all that comes to them.  A task that is not
stopped has no overloaded queue behind it, so that these are not above their high water mark, and
the batch of the task fits above it.

* `permits`: what may happen to a pipeline, its tasks and the modules between them;
* `load`: the packets in the rings and the flags, as a state of `Headroom`;
* `Inv`: no queue has dropped a packet, and the rings have room for what is still on its way;
* `Inv.processBatch`, `Inv.runTask_queue`, `Inv.runTask`, `inv_step`: every event keeps it.

The modules between tasks may drop packets of a batch and bring the others in any order and in any
batches to queues behind the task.
-/

namespace Backdraft

open Headroom

namespace PipelineState

variable {V : Type*} [DecidableEq V] {α : Type} [Inhabited α]

/-- The batches hold packets that the task has handed on, and come to queues behind it; no command
changes the size or the backpressure of a queue.  So every task that hands packets on stops while
`children_overload_` is positive, as `QueueInc` does not, and the modules between neither copy
packets, as `Replicate` does, nor hold them, as `Buffer` does. -/
def permits [DecidableEq α] (net : TaskNet V) (totalLen : α → ℕ) (s : PipelineState V α) :
    Event V α → Bool
  | .run t taken deliveries =>
    decide (taken.length ≤ kMaxBurst ∧
      (deliveries.flatMap Prod.snd).Subperm (s.runTask net totalLen t taken).2 ∧
      ∀ d ∈ deliveries, net.isQueue d.1 = true ∧
        (d.1 = t ∧ net.isQueue t = true ∨ t ∈ net.parents d.1))
  | .setBurst q _ => net.isQueue q
  | .setSize _ _ _ => false
  | .setRuntimeConfig _ _ _ => false

/-- The packets in the rings, and the queues that are overloaded. -/
def load (net : TaskNet V) (s : PipelineState V α) : Load V where
  count q := if net.isQueue q then (s.queues q).queue.contents.length else 0
  loaded := s.flags net

/-- A queue with the marks `high` and `low`, which has handed on, or holds, whatever came to it. -/
structure QueueInv (m : QueueModule α) (high low : ℕ) (delivered handedOn : List α) : Prop where
  sound : m.Sound
  backpressure_eq : m.backpressure = true
  highWater_eq : m.highWater = high
  lowWater_eq : m.lowWater = low
  high_lt : high + kMaxBurst < m.queue.slots
  dropped_eq : m.stats.dropped = 0
  freed_eq : m.freed = []
  delivered_eq : delivered = handedOn ++ m.queue.contents

/-- A step that keeps the settings; the flag is set apart from it. -/
theorem QueueInv.keep {m m' : QueueModule α} {high low : ℕ} {din din' dout dout' : List α}
    (h : QueueInv m high low din dout) (hkeeps : m.Keeps m') (overload : Bool)
    (hdin : din' = dout' ++ m'.queue.contents) :
    QueueInv { m' with overload := overload } high low din' dout' where
  sound := ⟨hkeeps.sound.wf, hkeeps.sound.watermark_eq, hkeeps.sound.burst_le⟩
  backpressure_eq := hkeeps.backpressure_eq.trans h.backpressure_eq
  highWater_eq := hkeeps.highWater_eq.trans h.highWater_eq
  lowWater_eq := hkeeps.lowWater_eq.trans h.lowWater_eq
  high_lt := hkeeps.slots_eq ▸ h.high_lt
  dropped_eq := hkeeps.dropped_eq.trans h.dropped_eq
  freed_eq := hkeeps.freed_eq.trans h.freed_eq
  delivered_eq := hdin

/-- The invariant of a run of a task, when the batches `rest` are still to come to queues. -/
structure Inv (net : TaskNet V) (M : Marks V) (s : PipelineState V α) (rest : List (V × ℕ)) :
    Prop where
  burst_eq : M.burst = kMaxBurst
  queue : ∀ q, net.isQueue q = true →
    QueueInv (s.queues q) (M.high q) (M.low q) (s.delivered q) (s.handedOn q)
  steady : Steady M (s.load net)
  room : Room M (s.load net) rest

variable {net : TaskNet V} {M : Marks V} {s : PipelineState V α}

omit [DecidableEq V] in
theorem count_load {q : V} (hq : net.isQueue q = true) :
    (s.load net).count q = (s.queues q).queue.contents.length := by
  simp [load, hq]

/-- A task that is not stopped has no overloaded queue behind it. -/
theorem Counted.free [Fintype V] (h : Counted net s) {t : V} (ht : s.childrenOverload t ≤ 0) :
    Free (fun t q => t ∈ net.parents q) (s.load net) t := by
  rw [h t, overloaded_le_zero_iff] at ht
  intro q hq
  by_contra hne
  exact ht q (by simpa [load] using hne) hq

/-- The state of one queue is replaced. -/
theorem Inv.replace {rest rest' : List (V × ℕ)} (h : Inv net M s rest) {q : V}
    (hq : net.isQueue q = true) {m : QueueModule α} {children : V → ℤ} {din dout : V → List α}
    (hm : QueueInv m (M.high q) (M.low q) (din q) (dout q))
    (hdin : ∀ r ≠ q, din r = s.delivered r) (hdout : ∀ r ≠ q, dout r = s.handedOn r)
    {l : Load V} (hl : l = ⟨Function.update (s.load net).count q m.queue.contents.length,
      Function.update (s.load net).loaded q m.overload⟩)
    (hsteady : Steady M l) (hroom : Room M l rest') :
    let s' : PipelineState V α := ⟨Function.update s.queues q m, children, din, dout⟩
    Inv net M s' rest' ∧ s'.load net = l := by
  have hload : load net (⟨Function.update s.queues q m, children, din, dout⟩ : PipelineState V α)
      = l := by
    rw [hl]
    simp only [load, Load.mk.injEq]
    constructor
    · funext r
      by_cases hr : r = q
      · subst hr
        simp [hq]
      · simp [Function.update_of_ne hr]
    · funext r
      by_cases hr : r = q
      · subst hr
        simp [flags, hq]
      · simp [flags, Function.update_of_ne hr]
  refine ⟨⟨h.burst_eq, fun r hr => ?_, hload ▸ hsteady, hload ▸ hroom⟩, hload⟩
  by_cases hrq : r = q
  · subst hrq
    simpa using hm
  · simpa [Function.update_of_ne hrq, hdin r hrq, hdout r hrq] using h.queue r hr

/-- A batch comes to a queue. -/
theorem Inv.processBatch {q : V} {batch : List α} {rest : List (V × ℕ)}
    (h : Inv net M s ((q, batch.length) :: rest)) (hq : net.isQueue q = true) :
    Inv net M (s.processBatch net (q, batch)) rest ∧
      (s.processBatch net (q, batch)).load net = put M (s.load net) (q, batch.length) := by
  have hinv := h.queue q hq
  have hroom := h.room q
  rw [pending_cons, if_pos rfl, h.burst_eq, count_load hq] at hroom
  have hfit : (s.queues q).queue.contents.length + batch.length < (s.queues q).queue.slots := by
    have := hinv.high_lt
    simp only at hroom
    omega
  obtain ⟨hkeeps, hcont, hsignal⟩ := hinv.sound.processBatch_spec hfit
  rw [processBatch_eq]
  simp only [setOverload, Function.update_idem, Function.update_self]
  refine h.replace hq ?_ (fun r hr => ?_) (fun _ _ => rfl) ?_ (h.steady.put (q, batch.length))
    h.room.put
  · refine hinv.keep hkeeps _ ?_
    simp only [Function.update_self]
    rw [hcont, hinv.delivered_eq, List.append_assoc]
  · exact Function.update_of_ne hr _ _
  · simp only [put, hcont, hsignal, List.length_append, hinv.backpressure_eq, hinv.highWater_eq,
      Bool.true_and, count_load hq]
    simp [load, flags, hq]

/-- A queue that is not stopped takes a batch out of its ring. -/
theorem Inv.runTask_queue [Fintype V] (h : Inv net M s []) (hcounted : Counted net s) {t : V}
    (ht : net.isQueue t = true) (hfree : s.childrenOverload t ≤ 0) (totalLen : α → ℕ)
    (taken : List α) {rest : List (V × ℕ)}
    (hrest : ∀ d ∈ rest, d.1 = t ∨ t ∈ net.parents d.1)
    (htotal : total rest ≤ ((s.queues t).queue.contents.take (s.queues t).burst).length) :
    let k := ((s.queues t).queue.contents.take (s.queues t).burst).length
    Inv net M (s.runTask net totalLen t taken).1 rest ∧
      (s.runTask net totalLen t taken).1.load net = Headroom.take M (s.load net) t k ∧
      (s.runTask net totalLen t taken).2 =
        (s.queues t).queue.contents.take (s.queues t).burst := by
  intro k
  have hinv := h.queue t ht
  obtain ⟨hkeeps, hcont, hbatch, hsignal⟩ := hinv.sound.runTask_spec hfree totalLen
  have hk : k ≤ (s.queues t).queue.contents.length := by
    simp only [k, List.length_take]
    exact min_le_right _ _
  have hk' : k ≤ M.burst := by
    simp only [k, List.length_take]
    exact (min_le_left _ _).trans (h.burst_eq ▸ hinv.sound.burst_le)
  have hleft : (s.queues t).queue.contents.length - (s.queues t).burst =
      (s.queues t).queue.contents.length - k := by
    simp only [k, List.length_take]
    omega
  have hroom : Room M (Headroom.take M (s.load net) t k) rest :=
    h.steady.room_take h.room (hcounted.free hfree) (by rw [count_load ht]; exact hk) hk' hrest
      htotal
  rw [runTask_eq ht]
  simp only [setOverload, Function.update_idem, Function.update_self, hbatch, and_true]
  refine h.replace ht ?_ (fun _ _ => rfl) (fun r hr => ?_) ?_ (h.steady.take t k) hroom
  · refine hinv.keep hkeeps _ ?_
    simp only [Function.update_self]
    rw [hcont, hinv.delivered_eq, List.append_assoc, List.take_append_drop]
  · exact Function.update_of_ne hr _ _
  · have hfull := h.steady.full t
    simp only [Headroom.take, Load.mk.injEq, hcont, List.length_drop, hleft, count_load ht,
      true_and]
    have hloaded : (s.load net).loaded t = (s.queues t).overload := by
      simp [load, flags, ht]
    rw [hloaded, count_load ht] at hfull
    rw [hloaded, hkeeps.overload_eq, hsignal, hinv.backpressure_eq, hleft, hinv.lowWater_eq,
      Bool.true_and]
    -- an empty batch gives no signal, but then the ring is as full as before
    by_cases hnil : (s.queues t).queue.contents.take (s.queues t).burst = []
    · have hzero : k = 0 := List.length_eq_zero_iff.mpr hnil
      have hlow : (s.queues t).overload = true →
          ¬ (s.queues t).queue.contents.length < M.low t := fun hover => (hfull hover).not_gt
      cases hover : (s.queues t).overload with
      | false => simp
      | true => rw [hzero, Nat.sub_zero, decide_eq_false (hlow hover), Bool.and_false]
    · simp [hnil]

/-- Any task runs, until the first batch comes to a queue. -/
theorem Inv.runTask [Fintype V] (h : Inv net M s []) (hcounted : Counted net s) (t : V)
    (totalLen : α → ℕ) {taken : List α}
    (htaken : taken.length ≤ kMaxBurst) {rest : List (V × ℕ)}
    (hrest : ∀ d ∈ rest, d.1 = t ∧ net.isQueue t = true ∨ t ∈ net.parents d.1)
    (htotal : total rest ≤ (s.runTask net totalLen t taken).2.length) :
    Inv net M (s.runTask net totalLen t taken).1 rest := by
  have hnone (hzero : total rest = 0) : Inv net M s rest :=
    { h with
      room := fun q => by
        have := pending_le_total rest q
        have := h.room q
        rw [pending_nil] at this
        omega }
  by_cases hfree : s.childrenOverload t ≤ 0
  · cases ht : net.isQueue t with
    | true =>
      have hnil : ∀ d ∈ ([] : List (V × ℕ)), d.1 = t ∨ t ∈ net.parents d.1 := by simp
      have hbatch :=
        (h.runTask_queue hcounted ht hfree totalLen taken hnil (Nat.zero_le _)).2.2
      rw [hbatch] at htotal
      exact (h.runTask_queue hcounted ht hfree totalLen taken
        (fun d hd => (hrest d hd).imp_left And.left) htotal).1
    | false =>
      simp only [PipelineState.runTask, ht, Bool.false_eq_true, if_false, if_neg hfree.not_gt]
        at htotal ⊢
      refine { h with
        room := h.steady.under.room_source h.room (hcounted.free hfree) (fun d hd => ?_) ?_ }
      · exact (hrest d hd).resolve_left fun hself => by simp [ht] at hself
      · rw [h.burst_eq]
        exact htotal.trans htaken
  · -- a task that is stopped hands nothing on
    rw [not_le] at hfree
    rw [runTask_of_stopped hfree] at htotal ⊢
    exact hnone (Nat.le_zero.mp htotal)

/-- The numbers of packets of batches. -/
def sizes (deliveries : List (V × List α)) : List (V × ℕ) :=
  deliveries.map fun d => (d.1, d.2.length)

omit [DecidableEq V] [Inhabited α] in
theorem total_sizes (deliveries : List (V × List α)) :
    total (sizes deliveries) = (deliveries.flatMap Prod.snd).length := by
  simp [total, sizes, List.length_flatMap, Function.comp_def]

/-- The batches of a run come to their queues. -/
theorem Inv.foldl_processBatch :
    ∀ (deliveries : List (V × List α)) {s : PipelineState V α},
      Inv net M s (sizes deliveries) → (∀ d ∈ deliveries, net.isQueue d.1 = true) →
      Inv net M (deliveries.foldl (PipelineState.processBatch net) s) [] ∧
        (deliveries.foldl (PipelineState.processBatch net) s).load net =
          (sizes deliveries).foldl (put M) (s.load net)
  | [], _, h, _ => ⟨h, rfl⟩
  | d :: deliveries, s, h, hq => by
    obtain ⟨hnext, hload⟩ := Inv.processBatch (q := d.1) h (hq d List.mem_cons_self)
    obtain ⟨hlast, hload'⟩ := Inv.foldl_processBatch deliveries hnext
      fun e he => hq e (List.mem_cons_of_mem _ he)
    exact ⟨hlast, hload'.trans (by rw [hload]; rfl)⟩

theorem Inv.setBurst (h : Inv net M s []) {q : V} (hq : net.isQueue q = true) {burst : ℕ}
    {m : QueueModule α} (hm : (s.queues q).setBurst burst = .ok m) :
    Inv net M { s with queues := Function.update s.queues q m } [] := by
  have hinv := h.queue q hq
  unfold QueueModule.setBurst at hm
  split_ifs at hm with hburst
  cases hm
  have hload : (⟨Function.update (s.load net).count q (s.queues q).queue.contents.length,
      Function.update (s.load net).loaded q (s.queues q).overload⟩ : Load V) = s.load net := by
    have hloaded : (s.queues q).overload = (s.load net).loaded q := by simp [load, flags, hq]
    rw [← count_load hq, hloaded]
    simp
  have hm : QueueInv { s.queues q with burst := burst } (M.high q) (M.low q) (s.delivered q)
      (s.handedOn q) :=
    { hinv with sound := ⟨hinv.sound.wf, hinv.sound.watermark_eq, not_lt.mp hburst⟩ }
  exact (h.replace hq hm (fun _ _ => rfl) (fun _ _ => rfl) hload.symm h.steady h.room).1

/-- **A step.** -/
theorem inv_step [Fintype V] [DecidableEq α] (totalLen : α → ℕ) (s : PipelineState V α)
    (e : Event V α) (s' : PipelineState V α) (h : Inv net M s []) (hcounted : Counted net s)
    (hpermits : permits net totalLen s e = true) (hstep : step net totalLen s e = .ok s') :
    Inv net M s' [] := by
  cases e with
  | run t taken deliveries =>
    simp only [permits, decide_eq_true_eq] at hpermits
    obtain ⟨htaken, hsub, hdel⟩ := hpermits
    cases hstep
    have hrest : ∀ d ∈ sizes deliveries, d.1 = t ∧ net.isQueue t = true ∨ t ∈ net.parents d.1 := by
      intro d hd
      obtain ⟨e, he, rfl⟩ := List.mem_map.mp hd
      exact (hdel e he).2
    have htotal : total (sizes deliveries) ≤ (s.runTask net totalLen t taken).2.length := by
      rw [total_sizes]
      exact hsub.length_le
    have hrun := h.runTask hcounted t totalLen htaken hrest htotal
    exact (Inv.foldl_processBatch deliveries hrun fun d hd => (hdel d hd).1).1
  | setBurst q burst =>
    cases hstep
    unfold command
    split
    · exact h
    · exact h.setBurst hpermits ‹_›
  | setSize q size allocs => cases hpermits
  | setRuntimeConfig q arg allocs => cases hpermits

omit [Inhabited α] in
theorem addresses_of_permits [Inhabited α] [DecidableEq α] {totalLen : α → ℕ} {e : Event V α}
    (h : permits net totalLen s e = true) : addresses net e = true := by
  cases e with
  | run t taken deliveries =>
    simp only [permits, decide_eq_true_eq] at h
    exact List.all_eq_true.mpr fun d hd => (h.2.2 d hd).1
  | setBurst => rfl
  | setSize => rfl
  | setRuntimeConfig => rfl

end PipelineState

end Backdraft

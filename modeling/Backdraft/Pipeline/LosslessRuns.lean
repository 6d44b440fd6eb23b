import Backdraft.Pipeline.Lossless
import Backdraft.Pipeline.TaskGraph

/-!
# Backpressure between queues loses nothing

What holds in every state that a pipeline of queues can reach on one worker, when all queues were
made with backpressure and with the default size or one of at least 512, all tasks stop while a
queue behind them is overloaded, and the modules between neither copy nor hold packets (`permits`).
With two workers two batches could come to a queue after its last look at the high water mark.

* `Made`: the pipeline before the first run;
* `inv_of_reach`: the invariant holds in every state;
* `lossless`: no queue drops a packet, and each hands on what came to it, in order;
* `exists_drain`: without a cycle of tasks the queues can always be emptied;
* `TaskGraph.permits_of_leads`: the parent tasks that `UpdateTaskGraph` finds are enough.
-/

namespace Backdraft

open Headroom

namespace PipelineState

variable {V : Type*} {α : Type} [Inhabited α]

/-- The queues are as `Init` makes them, with backpressure, and with the default size or one of at
least 512. -/
def Made (net : TaskNet V) (queues : V → QueueModule α) : Prop :=
  ∀ q, net.isQueue q = true → ∃ arg, QueueModule.init arg true true = .ok (queues q) ∧
    arg.backpressure = true ∧ (arg.size = 0 ∨ 512 ≤ arg.size)

variable {net : TaskNet V} {queues : V → QueueModule α}

theorem Made.ready (h : Made net queues) {q : V} (hq : net.isQueue q = true) :
    (queues q).Ready := by
  obtain ⟨arg, hinit, hback, hsize⟩ := h q hq
  exact QueueModule.ready_of_init hinit hback hsize

/-- The water marks of the queues. -/
def Made.marks (h : Made net queues) : Marks V where
  high q := if net.isQueue q then (queues q).highWater else 1
  low q := if net.isQueue q then (queues q).lowWater else 1
  burst := kMaxBurst
  low_pos q := by
    split_ifs with hq
    · exact (h.ready hq).low_pos
    · exact Nat.one_pos
  low_le q := by
    split_ifs with hq
    · exact (h.ready hq).low_le
    · exact le_rfl

variable [DecidableEq V] [Fintype V]

omit [Fintype V] in
theorem inv_start (h : Made net queues) : Inv net h.marks (start queues) [] := by
  have hempty (q : V) : ((start queues).load net).count q = 0 := by
    simp only [load, start]
    split_ifs with hq
    · rw [(h.ready hq).contents_eq, List.length_nil]
    · rfl
  have hunder (q : V) : ((start queues).load net).loaded q = false := by
    simp only [load, flags, Bool.and_eq_false_imp]
    exact fun hq => (h.ready hq).overload_eq
  refine ⟨rfl, fun q hq => ?_, ⟨fun q _ => ?_, fun q hq => ?_⟩, fun q => ?_⟩
  · have hready := h.ready hq
    simp only [Made.marks, hq, if_true]
    exact ⟨hready.sound, hready.backpressure_eq, rfl, rfl, hready.high_lt, hready.dropped_eq,
      hready.freed_eq, by simp [start, hready.contents_eq]⟩
  · rw [hempty]
    exact Nat.zero_le _
  · rw [hunder] at hq
    cases hq
  · rw [hempty, pending_nil]
    exact Nat.zero_le _

variable [DecidableEq α] {totalLen : α → ℕ} {s : PipelineState V α}

/-- **The invariant holds in every state**, and the counters are exact. -/
theorem inv_of_reach (h : Made net queues)
    (hreach : Run.ReachIf (step net totalLen) (permits net totalLen) (start queues) s) :
    Inv net h.marks s [] ∧ Counted net s := by
  refine Run.ReachIf.invariant (P := fun s => Inv net h.marks s [] ∧ Counted net s) hreach
    ⟨inv_start h, counted_start fun q hq => (h.ready hq).overload_eq⟩ ?_
  rintro s e s' ⟨hinv, hcounted⟩ hpermits hstep
  exact ⟨inv_step totalLen s e s' hinv hcounted hpermits hstep,
    counted_step totalLen s e s' hcounted (addresses_of_permits hpermits) hstep⟩

/-- **Nothing is lost.**  Whatever tasks one worker runs, and wherever the modules between them
bring packets, without copying or holding them, no queue drops a packet; what has come to a queue
is what its task has handed on, in order, followed by what the ring holds. -/
theorem lossless (h : Made net queues)
    (hreach : Run.ReachIf (step net totalLen) (permits net totalLen) (start queues) s) {q : V}
    (hq : net.isQueue q = true) :
    (s.queues q).freed = [] ∧ (s.queues q).stats.dropped = 0 ∧
      s.delivered q = s.handedOn q ++ (s.queues q).queue.contents := by
  have hinv := (inv_of_reach h hreach).1.queue q hq
  exact ⟨hinv.freed_eq, hinv.dropped_eq, hinv.delivered_eq⟩

theorem made_sourceAndQueue {m : QueueModule ℕ}
    (hm : (QueueModule.init (smallQueue true) true true).toOption = some m) :
    Made sourceAndQueue fun _ => m := fun _ _ =>
  ⟨smallQueue true, Run.toOption_eq_some.mp hm, rfl, .inr (by decide)⟩

/-- Two packets come to the queue, and one of them is handed on. -/
theorem lossless_sourceAndQueue :
    ∃ (m : QueueModule ℕ) (s : PipelineState (Fin 2) ℕ),
      (QueueModule.init (smallQueue true) true true).toOption = some m ∧
      (s.queues 1).queue.contents = [8] ∧ (s.queues 1).freed = [] ∧
      s.delivered 1 = s.handedOn 1 ++ [8] := by
  have hrun : ∃ (m : QueueModule ℕ) (s : PipelineState (Fin 2) ℕ),
      (QueueModule.init (smallQueue true) true true).toOption = some m ∧
      Run.ReachIf (step sourceAndQueue id) (permits sourceAndQueue id) (start fun _ => m) s ∧
      decide ((s.queues 1).queue.contents = [8]) = true :=
    Run.exists_init_reachIf
      [.run 0 [7, 8] [(1, [7]), (1, [8])], .setBurst 1 1, .run 1 [] []] (by decide +kernel)
  obtain ⟨m, s, hm, hreach, hone⟩ := hrun
  have hall := lossless (made_sourceAndQueue hm) hreach (q := 1) rfl
  rw [of_decide_eq_true hone] at hall
  exact ⟨m, s, hm, of_decide_eq_true hone, hall.1, hall.2.2⟩

/-- Fifteen full batches come to the queue. -/
theorem exists_reach_fill : ∃ (m : QueueModule ℕ) (s : PipelineState (Fin 2) ℕ),
    (QueueModule.init (smallQueue true) true true).toOption = some m ∧
    Run.ReachIf (step sourceAndQueue id) (permits sourceAndQueue id) (start fun _ => m) s ∧
    decide ((s.queues 1).overload = true ∧ (s.queues 1).burst = 32) = true :=
  Run.exists_init_reachIf
    (List.replicate 15 (.run 0 (List.replicate 32 7) [(1, List.replicate 32 7)]))
    (by decide +kernel)

/-! ### No deadlock -/

omit [Fintype V] [DecidableEq α] [Inhabited α] in
theorem burst_processBatch (net : TaskNet V) (s : PipelineState V α) (d : V × List α) (q : V) :
    ((s.processBatch net d).queues q).burst = (s.queues q).burst := by
  rw [processBatch_eq]
  by_cases hq : q = d.1
  · subst hq
    simp [setOverload, QueueModule.processBatch]
  · simp [setOverload, Function.update_of_ne hq]

omit [Fintype V] [DecidableEq α] [Inhabited α] in
theorem burst_foldl_processBatch (net : TaskNet V) (q : V) :
    ∀ (deliveries : List (V × List α)) (s : PipelineState V α),
      ((deliveries.foldl (processBatch net) s).queues q).burst = (s.queues q).burst
  | [], _ => rfl
  | d :: deliveries, s => by
    rw [List.foldl_cons, burst_foldl_processBatch net q deliveries, burst_processBatch]

omit [Fintype V] [DecidableEq α] in
theorem burst_runTask (net : TaskNet V) (totalLen : α → ℕ) (s : PipelineState V α) (t : V)
    (taken : List α) (q : V) :
    (((s.runTask net totalLen t taken).1.queues q).burst) = (s.queues q).burst := by
  cases ht : net.isQueue t with
  | true =>
    rw [runTask_eq ht]
    by_cases hq : q = t
    · subst hq
      simp only [setOverload, Function.update_self, QueueModule.runTask]
      split_ifs <;> rfl
    · simp [setOverload, Function.update_of_ne hq]
  | false =>
    simp only [runTask, ht, Bool.false_eq_true, if_false]
    split_ifs <;> rfl

/-- Tasks run one after the other, and `route` says where the modules between them bring packets. -/
def runAll (net : TaskNet V) (totalLen : α → ℕ)
    (route : PipelineState V α → V → List (V × List α)) (s : PipelineState V α) (tasks : List V) :
    PipelineState V α :=
  tasks.foldl (fun s t => (route s t).foldl (processBatch net) (s.runTask net totalLen t []).1) s

/-- The modules between tasks bring packets of a task to queues that have it as a parent. -/
def Routes (net : TaskNet V) (totalLen : α → ℕ)
    (route : PipelineState V α → V → List (V × List α)) : Prop :=
  ∀ s t, permits net totalLen s (.run t [] (route s t)) = true ∧
    ∀ d ∈ route s t, t ∈ net.parents d.1

variable {M : Marks V} {rank : V → ℕ} {route : PipelineState V α → V → List (V × List α)}

/-- A task that runs with packets in its ring takes more from the moves before the packets than it
adds. -/
theorem weight_run (hrank : ∀ q, ∀ t ∈ net.parents q, rank q < rank t)
    (hroute : Routes net totalLen route) (hinv : Inv net M s []) (hcounted : Counted net s) {t : V}
    (ht : net.isQueue t = true) (hpos : 0 < (s.queues t).burst)
    (hne : (s.queues t).queue.contents ≠ []) (hfree : s.childrenOverload t ≤ 0) :
    let s' := (route s t).foldl (processBatch net) (s.runTask net totalLen t []).1
    Inv net M s' [] ∧ Counted net s' ∧
      weight rank (s'.load net).count < weight rank (s.load net).count := by
  intro s'
  obtain ⟨hpermits, hparents⟩ := hroute s t
  simp only [permits, decide_eq_true_eq] at hpermits
  obtain ⟨-, hsub, hdel⟩ := hpermits
  have hnil : ∀ d ∈ ([] : List (V × ℕ)), d.1 = t ∨ t ∈ net.parents d.1 := by simp
  have hbatch :=
    (hinv.runTask_queue hcounted ht hfree totalLen [] hnil (Nat.zero_le _)).2.2
  have hrest : ∀ d ∈ sizes (route s t), t ∈ net.parents d.1 := by
    intro d hd
    obtain ⟨e, he, rfl⟩ := List.mem_map.mp hd
    exact hparents e he
  have htotal : total (sizes (route s t)) ≤
      ((s.queues t).queue.contents.take (s.queues t).burst).length := by
    rw [total_sizes, ← hbatch]
    exact hsub.length_le
  obtain ⟨hrun, hload, -⟩ := hinv.runTask_queue hcounted ht hfree totalLen []
    (fun d hd => .inr (hrest d hd)) htotal
  obtain ⟨hlast, hload'⟩ :=
    Inv.foldl_processBatch (route s t) hrun fun d hd => (hdel d hd).1
  refine ⟨hlast, Counted.foldl_processBatch _ (hcounted.runTask totalLen t []) fun d hd =>
    (hdel d hd).1, ?_⟩
  rw [hload', hload]
  set k := ((s.queues t).queue.contents.take (s.queues t).burst).length with hk
  have hkpos : 0 < k := by
    rw [hk, List.length_take]
    exact lt_min hpos (List.length_pos_iff.mpr hne)
  have hkle : k ≤ (s.load net).count t := by
    rw [count_load ht, hk, List.length_take]
    exact min_le_right _ _
  have htake := weight_take M rank hkle
  have hput := weight_foldl_put M rank (n := rank t) (sizes (route s t))
    (Headroom.take M (s.load net) t k) fun d hd => hrank d.1 t (hrest d hd)
  have hmul : total (sizes (route s t)) * rank t ≤ k * rank t := Nat.mul_le_mul_right _ htotal
  have hsucc : k * (rank t + 1) = k * rank t + k := Nat.mul_succ _ _
  omega

omit [DecidableEq α] in
/-- When the rings are empty no task is stopped. -/
theorem Inv.childrenOverload_eq_zero (hinv : Inv net M s []) (hcounted : Counted net s)
    (hempty : ∀ q, (s.load net).count q = 0) (t : V) : s.childrenOverload t = 0 := by
  have hle : s.childrenOverload t ≤ 0 := by
    rw [hcounted t, overloaded_le_zero_iff]
    intro q hq
    have hfull := hinv.steady.full q hq
    have hpos := M.low_pos q
    rw [hempty q] at hfull
    omega
  rw [hcounted t] at hle ⊢
  exact le_antisymm hle (overloaded_nonneg _ _ _)

/-- The queues can be emptied from any state of the invariant. -/
theorem Inv.exists_drained (hrank : ∀ q, ∀ t ∈ net.parents q, rank q < rank t)
    (hroute : Routes net totalLen route) (hinv : Inv net M s []) (hcounted : Counted net s)
    (hpos : ∀ q, net.isQueue q = true → 0 < (s.queues q).burst) :
    ∃ tasks : List V, (∀ t ∈ tasks, net.isQueue t = true) ∧
      (∀ q, net.isQueue q = true →
        ((s.runAll net totalLen route tasks).queues q).queue.contents = []) ∧
      ∀ t, (s.runAll net totalLen route tasks).childrenOverload t = 0 := by
  induction hn : weight rank (s.load net).count using Nat.strong_induction_on generalizing s with
  | _ n ih =>
    by_cases hempty : ∀ q, (s.load net).count q = 0
    · refine ⟨[], by simp, fun q hq => ?_, hinv.childrenOverload_eq_zero hcounted hempty⟩
      have := hempty q
      rw [count_load hq] at this
      exact List.eq_nil_of_length_eq_zero this
    · -- a queue with packets may run, and the packets then have fewer moves before them
      obtain ⟨q, hq⟩ := not_forall.mp hempty
      obtain ⟨t, ht, hfree⟩ : ∃ t, 0 < (s.load net).count t ∧
          Free (fun t q => t ∈ net.parents q) (s.load net) t :=
        hinv.steady.exists_free (fun t q => hrank q t) (Nat.pos_of_ne_zero hq)
      have hqueue : net.isQueue t = true := by
        by_contra hne
        simp [load, hne] at ht
      have hne : (s.queues t).queue.contents ≠ [] := by
        rw [count_load hqueue] at ht
        exact List.length_pos_iff.mp ht
      have hrun : s.childrenOverload t ≤ 0 := by
        rw [hcounted t, overloaded_le_zero_iff]
        intro r hr hmem
        have hnot : s.flags net r = false := hfree r hmem
        rw [hnot] at hr
        cases hr
      obtain ⟨hinv', hcounted', hlt⟩ :=
        weight_run hrank hroute hinv hcounted hqueue (hpos t hqueue) hne hrun
      obtain ⟨tasks, htasks, hdrained⟩ := ih _ (hn ▸ hlt) hinv' hcounted' (fun r hr => by
        rw [burst_foldl_processBatch, burst_runTask]
        exact hpos r hr) rfl
      exact ⟨t :: tasks, List.forall_mem_cons.mpr ⟨hqueue, htasks⟩, hdrained⟩

/-- **No deadlock.**  When the tasks do not feed each other in a cycle, then from every state that
one worker reaches so the tasks of the queues can run in an order that empties all rings and leaves
no task stopped, wherever the modules between them bring packets. -/
theorem exists_drain (h : Made net queues)
    (hreach : Run.ReachIf (step net totalLen) (permits net totalLen) (start queues) s)
    (hrank : ∀ q, ∀ t ∈ net.parents q, rank q < rank t)
    (hpos : ∀ q, net.isQueue q = true → 0 < (s.queues q).burst)
    (hroute : Routes net totalLen route) :
    ∃ tasks : List V, (∀ t ∈ tasks, net.isQueue t = true) ∧
      (∀ q, net.isQueue q = true →
        ((s.runAll net totalLen route tasks).queues q).queue.contents = []) ∧
      ∀ t, (s.runAll net totalLen route tasks).childrenOverload t = 0 :=
  (inv_of_reach h hreach).1.exists_drained hrank hroute (inv_of_reach h hreach).2 hpos

/-- The queue that has stopped the source can be emptied, and the source then runs again. -/
theorem exists_drain_sourceAndQueue :
    ∃ (m : QueueModule ℕ) (s : PipelineState (Fin 2) ℕ) (tasks : List (Fin 2)),
      (QueueModule.init (smallQueue true) true true).toOption = some m ∧
      (s.queues 1).overload = true ∧
      ((s.runAll sourceAndQueue id (fun _ _ => []) tasks).queues 1).queue.contents = [] ∧
      (s.runAll sourceAndQueue id (fun _ _ => []) tasks).childrenOverload 0 = 0 := by
  obtain ⟨m, s, hm, hreach, hfull⟩ := exists_reach_fill
  obtain ⟨hloaded, hburst⟩ := of_decide_eq_true hfull
  have hrank : ∀ q, ∀ t ∈ sourceAndQueue.parents q, (1 - q.val) < (1 - t.val) := by decide
  have hroute : Routes sourceAndQueue (id : ℕ → ℕ) fun _ _ => [] := fun s t =>
    ⟨by simp [permits], by simp⟩
  have hpos : ∀ q, sourceAndQueue.isQueue q = true → 0 < (s.queues q).burst := by
    intro q hq
    obtain rfl : q = 1 := Fin.ext (of_decide_eq_true hq)
    rw [hburst]
    decide
  obtain ⟨tasks, -, hempty, hzero⟩ :=
    exists_drain (made_sourceAndQueue hm) hreach hrank hpos hroute
  exact ⟨m, s, tasks, hm, hloaded, hempty 1 rfl, hzero 0⟩

end PipelineState

/-! ### The parent tasks are enough -/

namespace TaskGraph

open PipelineState

variable {V : Type*} [DecidableEq V] [Fintype V] {α : Type} [Inhabited α] [DecidableEq α]

/-- With the parent tasks that `UpdateTaskGraph` finds, the modules behind a task may bring its
packets to whatever queue the connections lead to. -/
theorem permits_of_leads {g : TaskGraph V} {tasks : List V}
    (htasks : ∀ m, m ∈ tasks ↔ g.isTask m = true) {parents₀ : V → List V} {net : TaskNet V}
    (hparents : g.updateTaskGraph tasks parents₀ = some net.parents)
    (hqueues : ∀ q, net.isQueue q = true → g.isTask q = true) {totalLen : α → ℕ}
    {s : PipelineState V α} {t : V} (ht : g.isTask t = true) {taken : List α}
    {deliveries : List (V × List α)} (htaken : taken.length ≤ kMaxBurst)
    (hsub : (deliveries.flatMap Prod.snd).Subperm (s.runTask net totalLen t taken).2)
    (hleads : ∀ d ∈ deliveries, net.isQueue d.1 = true ∧ g.Leads t d.1) :
    permits net totalLen s (.run t taken deliveries) = true := by
  obtain ⟨parents', hupdate, hspec⟩ := exists_updateTaskGraph htasks parents₀
  obtain rfl : parents' = net.parents := by simpa [hparents] using hupdate.symm
  refine decide_eq_true ⟨htaken, hsub, fun d hd => ?_⟩
  obtain ⟨hqueue, hlead⟩ := hleads d hd
  refine ⟨hqueue, ?_⟩
  by_cases hself : d.1 = t
  · exact .inl ⟨hself, hself ▸ hqueue⟩
  · refine .inr ?_
    classical
    rw [hspec d.1 ((htasks d.1).mpr (hqueues d.1 hqueue)), List.mem_filter]
    exact ⟨(htasks t).mpr ht, decide_eq_true ⟨Ne.symm hself, hlead⟩⟩

end TaskGraph

end Backdraft

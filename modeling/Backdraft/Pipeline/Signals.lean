import Mathlib.Data.List.Perm.Subperm
import Backdraft.Lib.Run
import Backdraft.Pipeline.Queue

/-!
# The signals of queues

Tasks run one after the other on one worker.  A task takes a batch, from its ring if it is a `Queue`
and from outside if it is not (`PortInc`, `Source`), and the modules behind it bring packets of the
batch to queues.  A queue that rises above its high water mark stops its parent tasks.

With two workers two producers of a queue could both find `overload_` clear and count the overload
twice.  The connections stay as they are while tasks run, and `SignalOverload` and `SignalUnderload`
of queues are the only signals.

* `TaskNet`: which tasks are queues, and the parent tasks that `UpdateTaskGraph` has found;
* `PipelineState`: the queues, `children_overload_` of the tasks, and, for the statements only, what
  has come to each queue and what it has handed on;
* `signalOverload`, `signalUnderload`, `processBatch`, `runTask`: the code of the modules;
* `Event`, `step`: a run of a task with what the modules behind it do, and the commands of queues;
* `Counted`: the counters of the tasks are exact, which every event keeps;
* `stopped_iff`: a task is stopped exactly while a queue behind it is overloaded;
* `stays_stopped`: a queue whose low water mark is zero never lets its parent tasks run again.
-/

namespace Backdraft

/-- The queues, and `parent_tasks_`. -/
structure TaskNet (V : Type*) where
  isQueue : V → Bool
  parents : V → List V

/-- The state between two runs of tasks. -/
structure PipelineState (V : Type*) (α : Type) where
  queues : V → QueueModule α
  childrenOverload : V → ℤ
  /-- what has come to each queue -/
  delivered : V → List α
  /-- what the task of each queue has taken -/
  handedOn : V → List α

namespace PipelineState

variable {V : Type*} [DecidableEq V] {α : Type}

/-- The loop over `parent_tasks_` that changes `children_overload_`. -/
def addToAll (n : ℤ) (tasks : List V) (childrenOverload : V → ℤ) : V → ℤ :=
  tasks.foldl (fun c p => Function.update c p (c p + n)) childrenOverload

/-- `SignalOverload`. -/
def signalOverload (net : TaskNet V) (s : PipelineState V α) (q : V) : PipelineState V α :=
  if (s.queues q).overload then s
  else
    { s with
      childrenOverload := addToAll 1 (net.parents q) s.childrenOverload
      queues := Function.update s.queues q { s.queues q with overload := true } }

/-- `SignalUnderload`. -/
def signalUnderload (net : TaskNet V) (s : PipelineState V α) (q : V) : PipelineState V α :=
  if !(s.queues q).overload then s
  else
    { s with
      childrenOverload := addToAll (-1) (net.parents q) s.childrenOverload
      queues := Function.update s.queues q { s.queues q with overload := false } }

variable [Inhabited α]

/-- `ProcessBatch` of a queue, with the signal. -/
def processBatch (net : TaskNet V) (s : PipelineState V α) (d : V × List α) : PipelineState V α :=
  let r := (s.queues d.1).processBatch d.2
  let s :=
    { s with
      queues := Function.update s.queues d.1 r.1
      delivered := Function.update s.delivered d.1 (s.delivered d.1 ++ d.2) }
  if r.2 then s.signalOverload net d.1 else s

/-- `RunTask` of a task, with the signal, and the batch it hands on; `taken` is what a task that is
no queue gets from outside. -/
def runTask (net : TaskNet V) (totalLen : α → ℕ) (s : PipelineState V α) (t : V)
    (taken : List α) : PipelineState V α × List α :=
  if net.isQueue t then
    let r := (s.queues t).runTask (s.childrenOverload t) totalLen
    let s :=
      { s with
        queues := Function.update s.queues t r.module
        handedOn := Function.update s.handedOn t (s.handedOn t ++ r.batch) }
    (if r.signalUnderload then s.signalUnderload net t else s, r.batch)
  else if s.childrenOverload t > 0 then (s, [])
  else (s, taken)

/-- What happens to a pipeline: a task runs, and batches come to queues; or a command changes the
settings of a queue. -/
inductive Event (V : Type*) (α : Type)
  | run (t : V) (taken : List α) (deliveries : List (V × List α))
  | setBurst (q : V) (burst : ℕ)
  | setSize (q : V) (size : ℕ) (allocs : Bool)
  | setRuntimeConfig (q : V) (arg : QueueArg) (allocs : Bool)

/-- A command to a queue; one that fails changes nothing. -/
def command (s : PipelineState V α) (q : V) (r : Except CommandError (QueueModule α)) :
    PipelineState V α :=
  match r with
  | .error _ => s
  | .ok m => { s with queues := Function.update s.queues q m }

/-- One event.  A run of a task is one step, since no other worker runs, and `parent_tasks_` does
not change. -/
def step (net : TaskNet V) (totalLen : α → ℕ) (s : PipelineState V α) :
    Event V α → Except Unit (PipelineState V α)
  | .run t taken deliveries =>
    .ok (deliveries.foldl (processBatch net) (s.runTask net totalLen t taken).1)
  | .setBurst q burst => .ok (s.command q ((s.queues q).setBurst burst))
  | .setSize q size allocs => .ok (s.command q ((s.queues q).setSize size allocs))
  | .setRuntimeConfig q arg allocs =>
    .ok (s.command q ((s.queues q).setRuntimeConfig arg allocs))

/-- Batches come to queues only. -/
def addresses (net : TaskNet V) : Event V α → Bool
  | .run _ _ deliveries => deliveries.all fun d => net.isQueue d.1
  | _ => true

/-- No command changes the size or the backpressure of `q`. -/
def leaves (q : V) : Event V α → Bool
  | .setSize r _ _ => decide (r ≠ q)
  | .setRuntimeConfig r _ _ => decide (r ≠ q)
  | _ => true

/-- No task has run. -/
def start (queues : V → QueueModule α) : PipelineState V α :=
  ⟨queues, fun _ => 0, fun _ => [], fun _ => []⟩

/-! ### The counters -/

omit [Inhabited α] in
theorem addToAll_apply (n : ℤ) : ∀ (tasks : List V) (c : V → ℤ) (t : V),
    addToAll n tasks c t = c t + n * tasks.count t
  | [], c, t => by simp [addToAll]
  | p :: tasks, c, t => by
    have hrest := addToAll_apply n tasks (Function.update c p (c p + n)) t
    rw [addToAll] at hrest ⊢
    rw [List.foldl_cons, hrest, List.count_cons]
    by_cases hpt : p = t
    · subst hpt
      simp
      ring
    · simp [hpt, Function.update_of_ne (Ne.symm hpt)]

/-- Set `overload_` of a queue, and let the counters of its parent tasks follow. -/
def setOverload (net : TaskNet V) (s : PipelineState V α) (q : V) (b : Bool) :
    PipelineState V α where
  queues := Function.update s.queues q { s.queues q with overload := b }
  childrenOverload t := s.childrenOverload t +
    (if b then ((net.parents q).count t : ℤ) else 0) -
      if (s.queues q).overload then ((net.parents q).count t : ℤ) else 0
  delivered := s.delivered
  handedOn := s.handedOn

omit [Inhabited α] in
theorem setOverload_self (net : TaskNet V) (s : PipelineState V α) (q : V) :
    s.setOverload net q (s.queues q).overload = s := by
  simp [setOverload]

omit [Inhabited α] in
theorem signalOverload_eq (net : TaskNet V) (s : PipelineState V α) (q : V) :
    s.signalOverload net q = s.setOverload net q true := by
  unfold signalOverload
  split_ifs with h
  · rw [← h, setOverload_self]
  · simp only [setOverload, h, PipelineState.mk.injEq, true_and, and_true]
    funext t
    simp [addToAll_apply]

omit [Inhabited α] in
theorem signalUnderload_eq (net : TaskNet V) (s : PipelineState V α) (q : V) :
    s.signalUnderload net q = s.setOverload net q false := by
  unfold signalUnderload
  split_ifs with h
  · rw [Bool.not_eq_true'] at h
    rw [← h, setOverload_self]
  · rw [Bool.not_eq_true', Bool.not_eq_false] at h
    simp only [setOverload, h, PipelineState.mk.injEq, true_and, and_true]
    funext t
    simp [addToAll_apply]
    ring

omit [Inhabited α] in
/-- `ProcessBatch` as one change of the queue and of its overload flag. -/
theorem processBatch_eq (net : TaskNet V) (s : PipelineState V α) (d : V × List α) :
    s.processBatch net d =
      setOverload net
        { s with
          queues := Function.update s.queues d.1 ((s.queues d.1).processBatch d.2).1
          delivered := Function.update s.delivered d.1 (s.delivered d.1 ++ d.2) }
        d.1 ((s.queues d.1).overload || ((s.queues d.1).processBatch d.2).2) := by
  have hkeep : ((s.queues d.1).processBatch d.2).1.overload = (s.queues d.1).overload := rfl
  simp only [processBatch]
  split_ifs with h
  · rw [signalOverload_eq, h, Bool.or_true]
  · rw [Bool.not_eq_true] at h
    rw [h, Bool.or_false, ← hkeep]
    refine (setOverload_self net _ d.1).symm.trans ?_
    simp only [Function.update_self]

/-- `RunTask` of a queue as one change of the queue and of its overload flag. -/
theorem runTask_eq {net : TaskNet V} {t : V} (ht : net.isQueue t = true) (totalLen : α → ℕ)
    (s : PipelineState V α) (taken : List α) :
    let r := (s.queues t).runTask (s.childrenOverload t) totalLen
    s.runTask net totalLen t taken =
      (setOverload net
        { s with
          queues := Function.update s.queues t r.module
          handedOn := Function.update s.handedOn t (s.handedOn t ++ r.batch) }
        t (r.module.overload && !r.signalUnderload), r.batch) := by
  simp only [runTask, ht, if_true]
  split_ifs with h
  · rw [signalUnderload_eq, h, Bool.not_true, Bool.and_false]
  · rw [Bool.not_eq_true] at h
    rw [h, Bool.not_false, Bool.and_true, Prod.mk.injEq]
    refine ⟨(setOverload_self net _ t).symm.trans ?_, rfl⟩
    simp only [Function.update_self]

/-- The overloaded queues behind a task, each as often as it has the task among its parents. -/
def overloaded [Fintype V] (net : TaskNet V) (loaded : V → Bool) (t : V) : ℤ :=
  ∑ q, if loaded q then ((net.parents q).count t : ℤ) else 0

theorem overloaded_update [Fintype V] (net : TaskNet V) (loaded : V → Bool) (t q : V) (b : Bool) :
    overloaded net (Function.update loaded q b) t =
      overloaded net loaded t + (if b then ((net.parents q).count t : ℤ) else 0) -
        if loaded q then ((net.parents q).count t : ℤ) else 0 := by
  unfold overloaded
  rw [← Finset.add_sum_erase _ _ (Finset.mem_univ q),
    ← Finset.add_sum_erase _ _ (Finset.mem_univ q), Function.update_self]
  have hrest : (∑ r ∈ Finset.univ.erase q,
        if Function.update loaded q b r then ((net.parents r).count t : ℤ) else 0) =
      ∑ r ∈ Finset.univ.erase q, if loaded r then ((net.parents r).count t : ℤ) else 0 :=
    Finset.sum_congr rfl fun r hr => by rw [Function.update_of_ne (Finset.ne_of_mem_erase hr)]
  rw [hrest]
  ring

omit [DecidableEq V] in
theorem overloaded_nonneg [DecidableEq V] [Fintype V] (net : TaskNet V) (loaded : V → Bool)
    (t : V) : 0 ≤ overloaded net loaded t := by
  refine Finset.sum_nonneg fun q _ => ?_
  split
  · exact Int.natCast_nonneg _
  · exact le_rfl

/-- The count is zero when no overloaded queue has the task as a parent. -/
theorem overloaded_le_zero_iff [Fintype V] {net : TaskNet V} {loaded : V → Bool} {t : V} :
    overloaded net loaded t ≤ 0 ↔ ∀ q, loaded q = true → t ∉ net.parents q := by
  have hterm (q : V) : 0 ≤ if loaded q then ((net.parents q).count t : ℤ) else 0 := by
    split
    · exact Int.natCast_nonneg _
    · exact le_rfl
  rw [(overloaded_nonneg net loaded t).ge_iff_eq', overloaded,
    Finset.sum_eq_zero_iff_of_nonneg fun q _ => hterm q]
  refine ⟨fun h q hq => ?_, fun h q _ => ?_⟩
  · have := h q (Finset.mem_univ q)
    rw [if_pos hq, Int.natCast_eq_zero] at this
    exact List.count_eq_zero.mp this
  · split_ifs with hq
    · rw [List.count_eq_zero.mpr (h q hq), Nat.cast_zero]
    · rfl

/-- A task that is stopped hands nothing on. -/
theorem runTask_of_stopped {net : TaskNet V} {totalLen : α → ℕ} {s : PipelineState V α} {t : V}
    (h : 0 < s.childrenOverload t) (taken : List α) :
    s.runTask net totalLen t taken = (s, []) := by
  unfold runTask
  split_ifs
  · simp [QueueModule.runTask_of_stopped h]
  · rfl

/-! ### The counters are exact -/

/-- The queues that are overloaded. -/
def flags (net : TaskNet V) (s : PipelineState V α) (q : V) : Bool :=
  net.isQueue q && (s.queues q).overload

/-- `children_overload_` of each task counts the overloaded queues behind it. -/
def Counted [Fintype V] (net : TaskNet V) (s : PipelineState V α) : Prop :=
  ∀ t, s.childrenOverload t = overloaded net (s.flags net) t

variable [Fintype V] {net : TaskNet V} {s : PipelineState V α}

omit [Fintype V] [Inhabited α] in
theorem flags_setOverload {q : V} (hq : net.isQueue q = true) (b : Bool) :
    (s.setOverload net q b).flags net = Function.update (s.flags net) q b := by
  funext r
  by_cases hr : r = q
  · subst hr
    simp [flags, setOverload, hq]
  · simp [flags, setOverload, Function.update_of_ne hr]

omit [Inhabited α] in
theorem Counted.setOverload (h : Counted net s) {q : V} (hq : net.isQueue q = true) (b : Bool) :
    Counted net (s.setOverload net q b) := by
  intro t
  rw [flags_setOverload hq, overloaded_update, ← h t]
  simp [PipelineState.setOverload, flags, hq]

omit [Inhabited α] in
/-- A queue changes, but not its overload flag. -/
theorem Counted.replace (h : Counted net s) {q : V} {m : QueueModule α}
    (hm : m.overload = (s.queues q).overload) (delivered handedOn : V → List α) :
    Counted net ⟨Function.update s.queues q m, s.childrenOverload, delivered, handedOn⟩ := by
  have hflags : flags net (⟨Function.update s.queues q m, s.childrenOverload, delivered, handedOn⟩ :
      PipelineState V α) = s.flags net := by
    funext r
    by_cases hr : r = q
    · subst hr
      simp [flags, hm]
    · simp [flags, Function.update_of_ne hr]
  intro t
  rw [hflags]
  exact h t

omit [Inhabited α] in
theorem Counted.processBatch (h : Counted net s) {d : V × List α} (hd : net.isQueue d.1 = true) :
    Counted net (s.processBatch net d) := by
  have hsame : ((s.queues d.1).processBatch d.2).1.overload = (s.queues d.1).overload := rfl
  rw [processBatch_eq]
  exact (h.replace hsame _ _).setOverload hd _

omit [Inhabited α] in
theorem Counted.foldl_processBatch : ∀ (deliveries : List (V × List α)) {s : PipelineState V α},
    Counted net s → (∀ d ∈ deliveries, net.isQueue d.1 = true) →
    Counted net (deliveries.foldl (PipelineState.processBatch net) s)
  | [], _, h, _ => h
  | _ :: deliveries, _, h, hq =>
    Counted.foldl_processBatch deliveries (h.processBatch (hq _ List.mem_cons_self))
      fun d hd => hq d (List.mem_cons_of_mem _ hd)

theorem Counted.runTask (h : Counted net s) (totalLen : α → ℕ) (t : V) (taken : List α) :
    Counted net (s.runTask net totalLen t taken).1 := by
  cases ht : net.isQueue t with
  | true =>
    rw [runTask_eq ht]
    exact (h.replace (by rw [QueueModule.module_runTask]) _ _).setOverload ht _
  | false =>
    simp only [PipelineState.runTask, ht, Bool.false_eq_true, if_false]
    split_ifs <;> exact h

omit [Inhabited α] in
theorem Counted.command (h : Counted net s) {q : V} {r : Except CommandError (QueueModule α)}
    (hr : ∀ m, r = .ok m → m.overload = (s.queues q).overload) : Counted net (s.command q r) := by
  unfold PipelineState.command
  split
  · exact h
  · exact h.replace (hr _ rfl) _ _

theorem counted_step (totalLen : α → ℕ) (s : PipelineState V α) (e : Event V α)
    (s' : PipelineState V α) (h : Counted net s) (he : addresses net e = true)
    (hstep : step net totalLen s e = .ok s') : Counted net s' := by
  cases e with
  | run t taken deliveries =>
    cases hstep
    rw [addresses, List.all_eq_true] at he
    exact Counted.foldl_processBatch deliveries (h.runTask totalLen t taken) he
  | setBurst q burst =>
    cases hstep
    exact h.command fun m => QueueModule.overload_setBurst
  | setSize q size allocs =>
    cases hstep
    exact h.command fun m => QueueModule.overload_setSize
  | setRuntimeConfig q arg allocs =>
    cases hstep
    exact h.command fun m => QueueModule.overload_setRuntimeConfig

omit [Inhabited α] in
theorem counted_start {queues : V → QueueModule α}
    (h : ∀ q, net.isQueue q = true → (queues q).overload = false) :
    Counted net (start queues) := by
  have hflags : (start queues).flags net = fun _ => false := by
    funext q
    rw [flags, Bool.and_eq_false_imp]
    exact h q
  intro t
  rw [hflags]
  simp [overloaded, start]

omit [Inhabited α] in
theorem Counted.stopped_iff_exists (h : Counted net s) (t : V) :
    0 < s.childrenOverload t ↔
      ∃ q, net.isQueue q = true ∧ (s.queues q).overload = true ∧ t ∈ net.parents q := by
  rw [h t, ← not_le, overloaded_le_zero_iff]
  simp [flags]

variable {queues : V → QueueModule α} {totalLen : α → ℕ}

/-- **A task is stopped exactly while a queue behind it is overloaded**, on one worker and with
fixed connections.  The size and the settings of the queues do not matter. -/
theorem stopped_iff (hqueues : ∀ q, net.isQueue q = true → (queues q).overload = false)
    (hreach : Run.ReachIf (step net totalLen) (fun _ => addresses net) (start queues) s) (t : V) :
    0 ≤ s.childrenOverload t ∧
      (0 < s.childrenOverload t ↔
        ∃ q, net.isQueue q = true ∧ (s.queues q).overload = true ∧ t ∈ net.parents q) := by
  have hcounted : Counted net s :=
    hreach.invariant (counted_start hqueues) fun s e s' => counted_step totalLen s e s'
  refine ⟨?_, hcounted.stopped_iff_exists t⟩
  rw [hcounted t]
  exact overloaded_nonneg _ _ _

/-- A source, and a queue behind it. -/
def sourceAndQueue : TaskNet (Fin 2) :=
  ⟨fun q => q.val = 1, fun q => (List.finRange 2).filter fun t => t.val + 1 = q.val⟩

/-- The settings of a queue with 512 slots. -/
def smallQueue (backpressure : Bool) : QueueArg := ⟨512, false, backpressure⟩

/-- The source is stopped after fifteen full batches. -/
theorem stopped_iff_sourceAndQueue :
    ∃ (m : QueueModule ℕ) (s : PipelineState (Fin 2) ℕ),
      (QueueModule.init (smallQueue true) true true).toOption = some m ∧
      (s.queues 1).overload = true ∧ 0 < s.childrenOverload 0 := by
  have hrun : ∃ (m : QueueModule ℕ) (s : PipelineState (Fin 2) ℕ),
      (QueueModule.init (smallQueue true) true true).toOption = some m ∧
      Run.ReachIf (step sourceAndQueue id) (fun _ => addresses sourceAndQueue)
        (start fun _ => m) s ∧
      decide ((s.queues 1).overload = true) = true :=
    Run.exists_init_reachIf
      (List.replicate 15 (.run 0 (List.replicate 32 7) [(1, List.replicate 32 7)]))
      (by decide +kernel)
  obtain ⟨m, s, hm, hreach, hfull⟩ := hrun
  have hinit := QueueModule.overload_of_init (Run.toOption_eq_some.mp hm)
  exact ⟨m, s, hm, of_decide_eq_true hfull, (stopped_iff (fun _ _ => hinit) hreach 0).2.mpr
    ⟨1, rfl, of_decide_eq_true hfull, by decide⟩⟩

/-! ### A queue that never gives the signal -/

/-- The queue is overloaded, and will not say that it is not any more. -/
def Mute (m : QueueModule α) : Prop :=
  m.overload = true ∧ (m.backpressure = false ∨ m.lowWater = 0)

omit [Fintype V] [Inhabited α] in
theorem mute_processBatch {q : V} (h : Mute (s.queues q)) (d : V × List α) :
    Mute ((s.processBatch net d).queues q) := by
  rw [processBatch_eq]
  by_cases hq : q = d.1
  · subst hq
    simp only [setOverload, Function.update_self]
    exact ⟨by simp [h.1], h.2⟩
  · simpa [setOverload, Function.update_of_ne hq] using h

omit [Fintype V] in
theorem mute_runTask {q : V} (h : Mute (s.queues q)) (t : V) (taken : List α) :
    Mute ((s.runTask net totalLen t taken).1.queues q) := by
  cases ht : net.isQueue t with
  | true =>
    rw [runTask_eq ht]
    by_cases hq : q = t
    · subst hq
      have hsignal : ((s.queues q).runTask (s.childrenOverload q) totalLen).signalUnderload =
          false := by
        by_contra hne
        obtain ⟨hon, hpos⟩ := QueueModule.of_signalUnderload (by simpa using hne)
        rcases h.2 with hoff | hzero
        · simp [hon] at hoff
        · omega
      simp only [setOverload, Function.update_self, Mute, hsignal, Bool.not_false, Bool.and_true]
      rw [QueueModule.module_runTask]
      exact h
    · simpa [setOverload, Function.update_of_ne hq] using h
  | false =>
    simp only [runTask, ht, Bool.false_eq_true, if_false]
    split_ifs <;> exact h

omit [Fintype V] [Inhabited α] in
theorem mute_foldl_processBatch {q : V} : ∀ (deliveries : List (V × List α))
    {s : PipelineState V α}, Mute (s.queues q) →
    Mute ((deliveries.foldl (processBatch net) s).queues q)
  | [], _, h => h
  | d :: deliveries, _, h => mute_foldl_processBatch deliveries (mute_processBatch h d)

omit [Fintype V] [Inhabited α] in
theorem mute_command {q r : V} (h : Mute (s.queues q)) {c : Except CommandError (QueueModule α)}
    (hc : ∀ m, c = .ok m → r = q → Mute m) : Mute ((s.command r c).queues q) := by
  unfold command
  split
  · exact h
  · rename_i m
    by_cases hq : q = r
    · subst hq
      simpa using hc m rfl rfl
    · simpa [Function.update_of_ne hq] using h

omit [Fintype V] in
theorem mute_step (totalLen : α → ℕ) {q : V} (s : PipelineState V α) (e : Event V α)
    (s' : PipelineState V α) (h : Mute (s.queues q)) (he : leaves q e = true)
    (hstep : step net totalLen s e = .ok s') : Mute (s'.queues q) := by
  cases e with
  | run t taken deliveries =>
    cases hstep
    exact mute_foldl_processBatch deliveries (mute_runTask h t taken)
  | setBurst r burst =>
    cases hstep
    refine mute_command h fun m hm hr => ?_
    subst hr
    unfold QueueModule.setBurst at hm
    split_ifs at hm
    cases hm
    exact h
  | setSize r size allocs =>
    cases hstep
    exact mute_command h fun m _ hr => absurd hr (of_decide_eq_true he)
  | setRuntimeConfig r arg allocs =>
    cases hstep
    exact mute_command h fun m _ hr => absurd hr (of_decide_eq_true he)

/-- **A queue that stops its parents for ever.**  When an overloaded queue has the low water mark
zero, as after `set_runtime_config` has turned backpressure on without a new size, or when
backpressure was turned off, then its parent tasks stay stopped whatever the worker runs, until a
command changes the queue again. -/
theorem stays_stopped (hqueues : ∀ q, net.isQueue q = true → (queues q).overload = false)
    (hreach : Run.ReachIf (step net totalLen) (fun _ => addresses net) (start queues) s) {q : V}
    (hq : net.isQueue q = true) (hmute : Mute (s.queues q)) {s' : PipelineState V α}
    (hlater : Run.ReachIf (step net totalLen) (fun _ e => addresses net e && leaves q e) s s')
    {t : V} (ht : t ∈ net.parents q) :
    0 < s'.childrenOverload t ∧ ∀ taken, s'.runTask net totalLen t taken = (s', []) := by
  have hcounted : Counted net s :=
    hreach.invariant (counted_start hqueues) fun s e s' => counted_step totalLen s e s'
  have hboth : Counted net s' ∧ Mute (s'.queues q) := by
    refine Run.ReachIf.invariant (P := fun s => Counted net s ∧ Mute (s.queues q)) hlater
      ⟨hcounted, hmute⟩ fun u e v hu he hstep => ?_
    rw [Bool.and_eq_true] at he
    exact ⟨counted_step totalLen u e v hu.1 he.1 hstep, mute_step totalLen u e v hu.2 he.2 hstep⟩
  have hstopped : 0 < s'.childrenOverload t :=
    (hboth.1.stopped_iff_exists t).mpr ⟨q, hq, hboth.2.1, ht⟩
  exact ⟨hstopped, fun taken => runTask_of_stopped hstopped taken⟩

/-- Backpressure is turned on, one packet comes to the queue and is handed on: the ring is empty,
and the source is still stopped. -/
theorem stays_stopped_sourceAndQueue :
    ∃ (m : QueueModule ℕ) (s' : PipelineState (Fin 2) ℕ),
      (QueueModule.init (smallQueue false) true true).toOption = some m ∧
      (s'.queues 1).queue.contents = [] ∧ s'.handedOn 1 = [7] ∧ 0 < s'.childrenOverload 0 := by
  have hrun : ∃ (m : QueueModule ℕ) (s : PipelineState (Fin 2) ℕ),
      (QueueModule.init (smallQueue false) true true).toOption = some m ∧
      Run.ReachIf (step sourceAndQueue id) (fun _ => addresses sourceAndQueue)
        (start fun _ => m) s ∧
      decide ((s.queues 1).overload = true ∧ (s.queues 1).lowWater = 0 ∧
        ((Run.exec (step sourceAndQueue id)
          (fun _ e => addresses sourceAndQueue e && leaves 1 e) s [.run 1 [] []]).map fun s' =>
            decide ((s'.queues 1).queue.contents = [] ∧ s'.handedOn 1 = [7])) = some true) = true :=
    Run.exists_init_reachIf
      [.setRuntimeConfig 1 ⟨0, false, true⟩ true, .run 0 [7] [(1, [7])]] (by decide +kernel)
  obtain ⟨m, s, hm, hreach, htest⟩ := hrun
  obtain ⟨hloaded, hlow, hexec⟩ := of_decide_eq_true htest
  obtain ⟨s', hlater, hempty⟩ := Run.exists_reachIf _ hexec
  have hinit := QueueModule.overload_of_init (Run.toOption_eq_some.mp hm)
  have hstopped : 0 < s'.childrenOverload 0 :=
    (stays_stopped (fun _ _ => hinit) hreach (q := 1) rfl ⟨hloaded, .inr hlow⟩ hlater
      (by decide)).1
  obtain ⟨hnil, hhanded⟩ := of_decide_eq_true hempty
  exact ⟨m, s', hm, hnil, hhanded, hstopped⟩

end PipelineState

end Backdraft

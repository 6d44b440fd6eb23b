import Backdraft.Lib.DepthFirst
import Backdraft.Pipeline.Wiring

/-!
# Parent tasks

`UpdateTaskGraph` of `core/module_graph.cc` finds, for each module that is a task, the tasks whose
packets may come to it: from each task the search follows the output gates until it meets a task.
These are the modules that `SignalOverload` stops.

* `TaskGraph`: the modules behind the output gates, and which modules are tasks;
* `updateParentsAs`, `updateSingleTaskGraph`, `cleanTaskGraph`, `updateTaskGraph`;
* `Leads`: packets of one module may come to another one without passing a task;
* `exists_updateTaskGraph`: the search ends with these tasks, each once;
* `Gates.exists_parentTasks`: the same for the pipeline that the controller has made.

`SetIGatePriority`, `SetUniqueGateIdx` and `ConfigureTasks`, which `UpdateTaskGraph` also calls, do
not touch the parent tasks and are left out, so that "ends" is said of the search for parents only.
-/

namespace Backdraft

/-- The modules behind the output gates of a module, in the order of the gates, and `is_task_`. -/
structure TaskGraph (V : Type*) where
  children : V → List V
  isTask : V → Bool

namespace TaskGraph

variable {V : Type*} [DecidableEq V]

/-- `AddParentTask`. -/
def addParentTask (parents : V → List V) (module task : V) : V → List V :=
  Function.update parents module (parents module ++ [task])

/-- What `UpdateParentsAs` does at a module, before it looks at the output gates. -/
def visit (g : TaskGraph V) (task : V) (parents : V → List V) (module : V) : V → List V :=
  if g.isTask module then addParentTask parents module task else parents

/-- `UpdateParentsAs`, with the modules visited and `parent_tasks_` of all modules. -/
def updateParentsAs (g : TaskGraph V) (task : V) (fuel : ℕ) (module : V)
    (s : List V × (V → List V)) : Option (List V × (V → List V)) :=
  DepthFirst.search g.children g.isTask (g.visit task) fuel module s

/-- `UpdateSingleTaskGraph`. -/
def updateSingleTaskGraph [Fintype V] (g : TaskGraph V) (parents : V → List V) (task : V) :
    Option (V → List V) :=
  (DepthFirst.forUnseen (g.updateParentsAs task (Fintype.card V)) (g.children task)
    ([task], parents)).map Prod.snd

/-- `CleanTaskGraph`. -/
def cleanTaskGraph (tasks : List V) (parents : V → List V) : V → List V :=
  fun m => if m ∈ tasks then [] else parents m

/-- The part of `UpdateTaskGraph` that finds the parent tasks, when `changes_made_` is set; else it
returns at once and leaves them as they are. -/
def updateTaskGraph [Fintype V] (g : TaskGraph V) (tasks : List V) (parents : V → List V) :
    Option (V → List V) :=
  tasks.foldlM g.updateSingleTaskGraph (cleanTaskGraph tasks parents)

omit [DecidableEq V] in
/-- Packets of `t` may come to `q` without passing a task. -/
def Leads (g : TaskGraph V) (t q : V) : Prop :=
  ∃ c ∈ g.children t, Relation.ReflTransGen (DepthFirst.Edge g.children g.isTask) c q

variable {g : TaskGraph V}

theorem foldl_visit (task : V) : ∀ (new : List V) (parents : V → List V) (q : V), new.Nodup →
    new.foldl (g.visit task) parents q =
      if q ∈ new ∧ g.isTask q = true then parents q ++ [task] else parents q
  | [], parents, q, _ => by simp
  | m :: new, parents, q, hnd => by
    obtain ⟨hm, hnd⟩ := List.nodup_cons.mp hnd
    rw [List.foldl_cons, foldl_visit task new _ q hnd]
    by_cases hq : q = m
    · subst hq
      by_cases htask : g.isTask q = true
      · simp [hm, htask, visit, addParentTask]
      · simp [htask, visit]
    · have hsame : g.visit task parents m q = parents q := by
        unfold visit addParentTask
        split
        · exact Function.update_of_ne hq _ _
        · rfl
      simp only [hsame, List.mem_cons, hq, false_or]

open Classical in
/-- One search adds the task to the tasks its packets may come to, itself excepted. -/
theorem exists_updateSingleTaskGraph [Fintype V] (parents : V → List V) {t : V}
    (ht : g.isTask t = true) :
    ∃ parents', g.updateSingleTaskGraph parents t = some parents' ∧ ∀ q, parents' q =
      if g.isTask q = true ∧ t ≠ q ∧ g.Leads t q then parents q ++ [t] else parents q := by
  have hfuel : Fintype.card V < [t].length + Fintype.card V := by simp
  obtain ⟨new, hnew, hexp⟩ := DepthFirst.searchAll_spec g.children g.isTask (g.visit t)
    (g.children t) [t] parents (List.nodup_singleton t) hfuel
  refine ⟨new.foldl (g.visit t) parents, ?_, fun q => ?_⟩
  · exact congrArg (Option.map Prod.snd) hnew
  · have hnd := hexp.nodup
    rw [List.singleton_append, List.nodup_cons] at hnd
    rw [foldl_visit t new parents q hnd.2]
    refine if_congr ?_ rfl rfl
    by_cases hq : t = q
    · subst hq
      simp [hnd.1]
    · have := hexp.mem_iff (fun v hv => List.mem_singleton.mp hv ▸ ht)
        (v := q) (by simpa using Ne.symm hq)
      rw [this]
      simp [Leads, hq, and_comm]

open Classical in
/-- The loop of `UpdateTaskGraph`. -/
theorem exists_updateTaskGraph_loop [Fintype V] :
    ∀ (tasks : List V), (∀ t ∈ tasks, g.isTask t = true) → ∀ parents : V → List V,
      ∃ parents', tasks.foldlM g.updateSingleTaskGraph parents = some parents' ∧
        ∀ q, parents' q = parents q ++
          tasks.filter fun t => g.isTask q = true ∧ t ≠ q ∧ g.Leads t q
  | [], _, parents => ⟨parents, rfl, by simp⟩
  | t :: tasks, htasks, parents => by
    obtain ⟨parents₁, h₁, hspec₁⟩ :=
      exists_updateSingleTaskGraph (g := g) parents (htasks t List.mem_cons_self)
    obtain ⟨parents₂, h₂, hspec₂⟩ := exists_updateTaskGraph_loop tasks
      (fun t' ht' => htasks t' (List.mem_cons_of_mem _ ht')) parents₁
    refine ⟨parents₂, by simpa [h₁] using h₂, fun q => ?_⟩
    rw [hspec₂ q, hspec₁ q, List.filter_cons]
    by_cases hq : g.isTask q = true ∧ t ≠ q ∧ g.Leads t q
    · simp [hq]
    · rw [if_neg hq, if_neg (by simpa using hq)]

open Classical in
/-- **The parent tasks.**  Whatever the modules had as parent tasks, the search of `UpdateTaskGraph`
ends, and gives to each task the other tasks whose packets may come to it, each once. -/
theorem exists_updateTaskGraph [Fintype V] {tasks : List V}
    (htasks : ∀ m, m ∈ tasks ↔ g.isTask m = true) (parents : V → List V) :
    ∃ parents', g.updateTaskGraph tasks parents = some parents' ∧
      ∀ q ∈ tasks, parents' q = tasks.filter fun t => t ≠ q ∧ g.Leads t q := by
  obtain ⟨parents', h, hspec⟩ := exists_updateTaskGraph_loop (g := g) tasks
    (fun t ht => (htasks t).mp ht) (cleanTaskGraph tasks parents)
  refine ⟨parents', h, fun q hq => ?_⟩
  rw [hspec q, cleanTaskGraph, if_pos hq, List.nil_append]
  refine List.filter_congr fun t _ => ?_
  simp [(htasks q).mp hq]

end TaskGraph

/-! ### The pipeline of the controller -/

namespace Gates

variable {V : Type*} [DecidableEq V] {lim : GateLimits V} {s : Gates V}

/-- The module of the input gate that each output gate leads to. -/
def childModules (s : Gates V) (m : V) : List V :=
  (List.range (s.ogatesSize m)).filterMap fun i => (s.ogates m i).bind fun p =>
    (s.ogate p).bind fun og => (s.igate og.igate).map IGate.module

/-- The graph that `UpdateTaskGraph` searches. -/
def toTaskGraph (s : Gates V) (isTask : V → Bool) : TaskGraph V := ⟨s.childModules, isTask⟩

omit [DecidableEq V] in
theorem WF.mem_childModules_iff (h : WF lim s) {m c : V} :
    c ∈ s.childModules m ↔ ∃ i j, s.edge m i = some (c, j) := by
  simp only [childModules, List.mem_filterMap, List.mem_range, Option.bind_eq_some_iff,
    Option.map_eq_some_iff, edge_eq_some_iff]
  constructor
  · rintro ⟨i, -, p, hp, og, hog, ig, hig, rfl⟩
    obtain ⟨ig', hig', -, hmod, -⟩ := h.leads hog
    obtain rfl : ig = ig' := by simpa [hig] using hig'
    exact ⟨i, og.igateIdx, p, og, hp, hog, by rw [hmod]⟩
  · rintro ⟨i, j, p, og, hp, hog, heq⟩
    obtain ⟨ig, hig, -, hmod, -⟩ := h.leads hog
    rw [Prod.mk.injEq] at heq
    exact ⟨i, h.outs.lt_size hp, p, hp, og, hog, ig, hig, hmod.trans heq.1⟩

/-- An output gate leads from `u` to `v`. -/
def Wiring.Next (w : Wiring V) (u v : V) : Prop := ∃ i j, w u i = some (v, j)

/-- Packets of `t` may come to `q` without passing a task. -/
def Wiring.Leads (w : Wiring V) (isTask : V → Bool) (t q : V) : Prop :=
  ∃ c, w.Next t c ∧ Relation.ReflTransGen (fun u v => isTask u = false ∧ w.Next u v) c q

omit [DecidableEq V] in
theorem WF.leads_toTaskGraph (h : WF lim s) (isTask : V → Bool) (t q : V) :
    (s.toTaskGraph isTask).Leads t q ↔ Wiring.Leads s.edge isTask t q := by
  have hedge : DepthFirst.Edge s.childModules isTask =
      fun u v => isTask u = false ∧ Wiring.Next s.edge u v := by
    funext u v
    rw [DepthFirst.Edge, h.mem_childModules_iff, Wiring.Next]
  simp only [TaskGraph.Leads, toTaskGraph, Wiring.Leads, hedge, h.mem_childModules_iff, Wiring.Next]

open Classical in
/-- **The parent tasks of a pipeline.**  Whatever the controller has connected, disconnected and
destroyed, the search of `UpdateTaskGraph` ends and gives to each task the other tasks from which
the connections lead to it without passing a task, each once. -/
theorem exists_parentTasks [Fintype V] (lim : GateLimits V) (calls : List (Call V))
    (isTask : V → Bool) (tasks : List V) (htasks : ∀ m, m ∈ tasks ↔ isTask m = true)
    (parents : V → List V) :
    ∃ s parents', (empty : Gates V).run lim calls = some s ∧
      (s.toTaskGraph isTask).updateTaskGraph tasks parents = some parents' ∧
      ∀ q ∈ tasks, parents' q = tasks.filter fun t => t ≠ q ∧
        Wiring.Leads (calls.foldl (Wiring.step lim) fun _ _ => none) isTask t q := by
  have hempty : WF lim (empty : Gates V) := wf_empty
  obtain ⟨s, hrun, hwf, hedge⟩ := hempty.exists_run calls
  obtain ⟨parents', hupdate, hspec⟩ :=
    TaskGraph.exists_updateTaskGraph (g := s.toTaskGraph isTask) htasks parents
  refine ⟨s, parents', hrun, hupdate, fun q hq => ?_⟩
  rw [hspec q hq]
  refine List.filter_congr fun t _ => ?_
  rw [hwf.leads_toTaskGraph isTask t q, hedge]
  rfl

/-- Module `0` feeds the task `2` through module `1`, which is no task. -/
theorem exists_parentTasks_chain :
    ∃ s parents', (empty : Gates (Fin 3)).run ⟨fun _ => 1, fun _ => 1⟩
        [.connect 0 0 1 0, .connect 1 0 2 0] = some s ∧
      (s.toTaskGraph (· ≠ 1)).updateTaskGraph [0, 2] (fun _ => []) = some parents' ∧
      0 ∈ parents' 2 := by
  obtain ⟨s, parents', hrun, hupdate, hspec⟩ := exists_parentTasks ⟨fun _ => 1, fun _ => 1⟩
    [.connect 0 0 1 0, .connect 1 0 2 0] (· ≠ 1) [0, 2] (by decide) (fun _ : Fin 3 => [])
  refine ⟨s, parents', hrun, hupdate, ?_⟩
  classical
  rw [hspec 2 (by decide), List.mem_filter, decide_eq_true_eq]
  have hleads : Wiring.Leads ([Call.connect 0 0 1 0, Call.connect 1 0 2 0].foldl
      (Wiring.step ⟨fun _ => 1, fun _ => 1⟩) fun _ _ => none) (· ≠ 1) (0 : Fin 3) 2 :=
    ⟨1, ⟨0, 0, by decide⟩, .single ⟨by decide, 0, 0, by decide⟩⟩
  exact ⟨by decide, by decide, hleads⟩

end Gates

end Backdraft

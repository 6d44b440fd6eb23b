import Backdraft.QueueOut.Moves

/-!
# The flows that lose their block

`GetFlowState` takes the block of a flow away when its buffer is empty and `last_used` is long ago.
But `last_used` is written when the block is allocated, and not when a batch of the flow finds it.
What a batch writes is the `last_visit` of the queue of its block.

* `Gives`: what happens to the table when a block is given to a new flow, whether or not the hash
  map takes the flow;
* `reclaimed`: the block that a call takes from a flow;
* `Watched`: the module with a log of the batches it looked up, and the clock;
* `idle_flows_only`: in runs in which a block is taken only if the queues of its flow were visited
  long ago, a flow that loses a block was idle;
* `active_flow_loses_block`: a flow whose last batch came a nanosecond before.
-/

namespace Backdraft

open Word FlowTable

/-! ### Blocks given to new flows -/

namespace FlowTable

variable {cfg : QueueOutConfig} {t t' : FlowTable} {now i j : ℕ} {flow : Flow} {f : FlowTuple}

/-- A flow is mapped to a block that is in use by it.  The converse holds only if no flow was
refused. -/
def Linked (t : FlowTable) : Prop :=
  ∀ f i, t.flowBufferMapping.lookup f = some i → i < maxAvailabeFlows ∧
    (t.flowStatePool i).inUse = true ∧ (t.flowStateFlowId i).toFlowTuple = f

/-- The block `i` is not in use by the flow. -/
def Apart (t : FlowTable) (i : ℕ) (f : FlowTuple) : Prop :=
  (t.flowStatePool i).inUse = true → f ≠ (t.flowStateFlowId i).toFlowTuple

/-- The block `i` is given to a new flow.  If it was in use, its flow may lose another block, the
one that it is mapped to; all other flows keep theirs. -/
structure Gives (cfg : QueueOutConfig) (t t' : FlowTable) (now : ℕ) (flow : Flow) (i : ℕ) :
    Prop where
  lt : i < maxAvailabeFlows
  new : t.flowBufferMapping.lookup flow.toFlowTuple = none
  found : t.findBlock cfg now maxAvailabeFlows (wadd 32 t.fspTop 1 % maxAvailabeFlows) = .ok i
  inUse : (t'.flowStatePool i).inUse = true
  flow_eq : t'.flowStateFlowId = Function.update t.flowStateFlowId i flow
  kept : ∀ j, j ≠ i → t.Apart i (t.flowStateFlowId j).toFlowTuple →
    t'.flowStatePool j = t.flowStatePool j
  lookup_of : ∀ f j, t'.flowBufferMapping.lookup f = some j →
    f = flow.toFlowTuple ∧ j = i ∨ t.flowBufferMapping.lookup f = some j ∧ t.Apart i f
  lookup_kept : ∀ f j, t.flowBufferMapping.lookup f = some j → t.Apart i f →
    t'.flowBufferMapping.lookup f = some j

theorem Linked.deallocate_kept (h : t.Linked)
    (hj : (t.flowStateFlowId j).toFlowTuple ≠ flow.toFlowTuple) :
    (t.deallocateFlowState cfg flow).flowStatePool j = t.flowStatePool j := by
  unfold deallocateFlowState
  split
  · rfl
  · rename_i k hlook
    -- the block that is freed is in use by the flow
    have hne : j ≠ k := by
      rintro rfl
      exact hj (h _ j hlook).2.2
    exact Function.update_of_ne hne _ _

theorem lookup_deallocate (cfg : QueueOutConfig) (t : FlowTable) (flow : Flow) (f : FlowTuple) :
    (t.deallocateFlowState cfg flow).flowBufferMapping.lookup f =
      if f = flow.toFlowTuple then none else t.flowBufferMapping.lookup f := by
  unfold deallocateFlowState
  split
  · rename_i hlook
    split_ifs with hf
    · rw [hf, hlook]
    · rfl
  · change (t.flowBufferMapping.erase flow.toFlowTuple).lookup f = _
    split_ifs with hf
    · rw [hf]
      exact HashTable.lookup_erase _ _
    · exact HashTable.lookup_erase_ne hf

theorem flowStateFlowId_deallocate (cfg : QueueOutConfig) (t : FlowTable) (flow : Flow) :
    (t.deallocateFlowState cfg flow).flowStateFlowId = t.flowStateFlowId := by
  unfold deallocateFlowState
  split <;> rfl

/-- A lookup of a flow that is not mapped. -/
theorem Linked.gives (h : t.Linked) (hnone : t.flowBufferMapping.lookup flow.toFlowTuple = none)
    (hget : t.getFlowState cfg now flow = .ok (t', i)) : Gives cfg t t' now flow i := by
  obtain ⟨hsome, -⟩ | ⟨-, u, qid, -, rfl, hfind, rfl⟩ := getFlowState_eq_ok hget
  · exact absurd (hnone.symm.trans hsome) (by simp)
  obtain ⟨hi, -⟩ := of_findBlock (Nat.mod_lt _ (by decide)) hfind
  rw [findBlock_visit] at hfind
  set u : FlowTable := { t with lastVisit := Function.update t.lastVisit qid now }
  have hu : u.Linked := h
  unfold allocate
  split_ifs with hin
  · -- the mapping of the flow of the block is removed first
    refine ⟨hi, hnone, hfind, by simp [assign], ?_, fun j hj hapart => ?_, fun f j hf => ?_,
      fun f j hf hapart => ?_⟩
    · simp only [assign, flowStateFlowId_deallocate]
      rfl
    · simp only [assign, Function.update_of_ne hj]
      exact hu.deallocate_kept (hapart hin)
    · obtain ⟨hf, hj⟩ | ⟨-, hold⟩ := HashTable.lookup_of_insert hf
      · exact .inl ⟨hf, hj⟩
      · rw [lookup_deallocate] at hold
        split_ifs at hold with hg
        exact .inr ⟨hold, fun _ => hg⟩
    · have hne : f ≠ flow.toFlowTuple := by
        rintro rfl
        exact absurd (hnone.symm.trans hf) (by simp)
      simp only [assign]
      rw [HashTable.lookup_insert_ne hne, lookup_deallocate, if_neg (hapart hin)]
      exact hf
  · refine ⟨hi, hnone, hfind, by simp [assign], rfl, fun j hj _ => ?_, fun f j hf => ?_,
      fun f j hf _ => ?_⟩
    · exact Function.update_of_ne hj _ _
    · obtain ⟨hf, hj⟩ | ⟨-, hold⟩ := HashTable.lookup_of_insert hf
      · exact .inl ⟨hf, hj⟩
      · exact .inr ⟨hold, fun hin' => absurd hin' hin⟩
    · have hne : f ≠ flow.toFlowTuple := by
        rintro rfl
        exact absurd (hnone.symm.trans hf) (by simp)
      exact (HashTable.lookup_insert_ne hne).trans hf

/-- The blocks of the other flows stay with them. -/
theorem Gives.inUse_kept (h : Gives cfg t t' now flow i) (hin : (t.flowStatePool j).inUse = true)
    (hapart : t.Apart i (t.flowStateFlowId j).toFlowTuple) :
    t'.flowStatePool j = t.flowStatePool j ∧ t'.flowStateFlowId j = t.flowStateFlowId j := by
  have hji : j ≠ i := by
    rintro rfl
    exact hapart hin rfl
  exact ⟨h.kept j hji hapart, by rw [h.flow_eq, Function.update_of_ne hji]⟩

theorem Gives.linked (h : Gives cfg t t' now flow i) (ht : t.Linked) : t'.Linked := by
  intro f j hf
  obtain ⟨rfl, rfl⟩ | ⟨hold, hapart⟩ := h.lookup_of f j hf
  · exact ⟨h.lt, h.inUse, by rw [h.flow_eq, Function.update_self]⟩
  · obtain ⟨hj, hin, rfl⟩ := ht f j hold
    obtain ⟨hpool, hflow⟩ := h.inUse_kept hin hapart
    exact ⟨hj, by rw [hpool, hin], by rw [hflow]⟩

theorem Linked.setup (h : setup cfg = some t) (refuses : ℕ → Bool) :
    (t.answering refuses).Linked := by
  obtain ⟨b, rfl⟩ := setup_eq_some h
  intro f i hf
  cases hf

theorem Linked.touched (h : t.Linked) (htouch : Touched t t') : t'.Linked := by
  intro f i hf
  rw [htouch.mapping_eq] at hf
  rw [htouch.inUse_eq, htouch.flow_eq]
  exact h f i hf

end FlowTable

/-- A batch that was given to `GetFlowState`: when, and of which flow. -/
structure Arrival where
  time : ℕ
  flow : FlowTuple
  deriving DecidableEq

namespace QueueOut

variable {cfg : QueueOutConfig} {s s' s₀ : QueueOut} {op : Op} {i j n : ℕ}
  {refuses refuses' : ℕ → Bool}

/-- The flow that a call looks up, with per-flow buffers. -/
def lookedUp (cfg : QueueOutConfig) (s : QueueOut) : Op → Option Flow
  | .processBatch _ adminUp batch _ _ =>
    if s.Admits cfg adminUp batch then some (batch.headD default).flow else none
  | _ => none

/-- The block that a call takes from its flow: the flow of the batch is not mapped, and the search
ends at a block that is in use. -/
def reclaimed (cfg : QueueOutConfig) (s : QueueOut) (op : Op) : Option ℕ :=
  (s.lookedUp cfg op).bind fun flow =>
    if (s.flowBufferMapping.lookup flow.toFlowTuple).isSome then none
    else (s.findBlock cfg op.time maxAvailabeFlows
        (wadd 32 s.fspTop 1 % maxAvailabeFlows)).toOption.filter
      fun i => (s.flowStatePool i).inUse

theorem reclaimed_eq_some {flow : Flow} (hflow : s.lookedUp cfg op = some flow)
    (hnone : s.flowBufferMapping.lookup flow.toFlowTuple = none)
    (hfind : s.findBlock cfg op.time maxAvailabeFlows (wadd 32 s.fspTop 1 % maxAvailabeFlows) =
      .ok i) (hin : (s.flowStatePool i).inUse = true) : s.reclaimed cfg op = some i := by
  simp [reclaimed, hflow, hnone, hfind, Except.toOption, hin]

/-- With per-flow buffers a call makes one lookup or none. -/
theorem call_lookedUp (hper : cfg.perFlowBuffering = true) (h : s.call cfg op = .ok s') :
    (s.lookedUp cfg op = none ∧ Touched s.toFlowTable s'.toFlowTable) ∨
    ∃ flow t i, s.lookedUp cfg op = some flow ∧
      s.toFlowTable.getFlowState cfg op.time flow = .ok (t, i) ∧ Touched t s'.toFlowTable := by
  cases op with
  | processBatch now adminUp batch accept duration =>
    have hcall := Run.mapError_eq_ok.1 h
    by_cases hadmits : s.Admits cfg adminUp batch
    · obtain ⟨t, i, hget, htouch⟩ := processBatch_of_admits hadmits hcall
      exact .inr ⟨_, t, i, if_pos hadmits, hget, htouch⟩
    · refine .inl ⟨if_neg hadmits, ?_⟩
      rw [processBatch_of_not_admits hadmits hcall]
      exact Touched.refl _
  | runTask now ctrlAccept accepts =>
    simp only [call, if_pos hper] at h
    exact .inl ⟨rfl, runTask_touched (Run.mapError_eq_ok.1 h)⟩
  | setOverlayThreshold lowWater highWater =>
    simp only [call, step, Except.mapError, Except.ok.injEq] at h
    exact .inl ⟨rfl, h ▸ Touched.refl _⟩
  | setBackpressureThreshold threshold =>
    simp only [call, step, Except.mapError, Except.ok.injEq] at h
    exact .inl ⟨rfl, h ▸ Touched.refl _⟩

/-- The module, the batches it looked up so far, newest first, and the time of the last call. -/
structure Watched where
  state : QueueOut
  arrivals : List Arrival
  clock : ℕ

namespace Watched

variable {w w' : Watched}

/-- What a call adds to the log. -/
def arrivalsOf (cfg : QueueOutConfig) (s : QueueOut) (op : Op) : List Arrival :=
  ((s.lookedUp cfg op).map fun flow => ⟨op.time, flow.toFlowTuple⟩).toList

/-- One call, observed. -/
def step (cfg : QueueOutConfig) (w : Watched) (op : Op) : Except Fault Watched :=
  match w.state.call cfg op with
  | .error e => .error e
  | .ok s => .ok ⟨s, arrivalsOf cfg w.state op ++ w.arrivals, max w.clock op.time⟩

/-- The clock does not go back; the commands are not timed. -/
def onTime (w : Watched) : Op → Bool
  | .processBatch now _ _ _ _ => decide (w.clock ≤ now ∧ now < 2 ^ 64)
  | .runTask now _ _ => decide (w.clock ≤ now ∧ now < 2 ^ 64)
  | _ => true

/-- If the call takes a block from a flow, then the queues of all blocks of the flow were last
visited more than `flow_dealloc_limit` ago. -/
def visitedLongAgo (cfg : QueueOutConfig) (w : Watched) (op : Op) : Bool :=
  (w.state.reclaimed cfg op).all fun i => decide (∀ j < maxAvailabeFlows,
    (w.state.flowStatePool j).inUse = true →
    (w.state.flowStateFlowId j).toFlowTuple = (w.state.flowStateFlowId i).toFlowTuple →
      w.state.lastVisit (w.state.flowStatePool j).qid + flowDeallocLimit < op.time)

/-- The runs in which blocks are taken only so. -/
def sparing (cfg : QueueOutConfig) (w : Watched) (op : Op) : Bool :=
  w.onTime op && w.visitedLongAgo cfg op

/-- The batch is long ago, or a block of its flow has a queue that was visited since. -/
def Remembered (w : Watched) (e : Arrival) : Prop :=
  e.time + flowDeallocLimit < w.clock ∨
    ∃ j < maxAvailabeFlows, (w.state.flowStatePool j).inUse = true ∧
      (w.state.flowStateFlowId j).toFlowTuple = e.flow ∧
      e.time ≤ w.state.lastVisit (w.state.flowStatePool j).qid

/-- A batch is still remembered when a new flow has got a block: if it was taken from the flow of
the batch, then the batch is long ago. -/
theorem Remembered.gives {t : FlowTable} {now : ℕ} {flow : Flow} {e : Arrival}
    (h : w.Remembered e) (hget : w.state.toFlowTable.getFlowState cfg now flow = .ok (t, i))
    (hgives : Gives cfg w.state.toFlowTable t now flow i) (hclock : w.clock ≤ now)
    (he : e.time ≤ now)
    (hidle : (w.state.flowStatePool i).inUse = true → ∀ j < maxAvailabeFlows,
      (w.state.flowStatePool j).inUse = true →
        (w.state.flowStateFlowId j).toFlowTuple = (w.state.flowStateFlowId i).toFlowTuple →
          w.state.lastVisit (w.state.flowStatePool j).qid + flowDeallocLimit < now)
    (log : List Arrival) :
    Remembered ⟨{ w.state with toFlowTable := t }, log, now⟩ e := by
  obtain hlt | ⟨j, hj, hin, hflow, hle⟩ := h
  · exact .inl (lt_of_lt_of_le hlt hclock)
  by_cases hapart : w.state.Apart i (w.state.flowStateFlowId j).toFlowTuple
  · obtain ⟨hpool, hsame⟩ := hgives.inUse_kept hin hapart
    refine .inr ⟨j, hj, ?_, ?_, ?_⟩
    · rw [hpool, hin]
    · rw [hsame, hflow]
    · rw [hpool]
      exact le_lastVisit_getFlowState hget he hle
  · obtain ⟨hused, hsame⟩ : (w.state.flowStatePool i).inUse = true ∧
        (w.state.flowStateFlowId j).toFlowTuple = (w.state.flowStateFlowId i).toFlowTuple := by
      simpa [Apart] using hapart
    exact .inl (lt_of_le_of_lt (Nat.add_le_add_right hle _) (hidle hused j hj hin hsame))

/-- What the log says about the table. -/
structure Inv (w : Watched) : Prop where
  linked : w.state.Linked
  visit_le : ∀ q, w.state.lastVisit q ≤ w.clock
  arrival_le : ∀ e ∈ w.arrivals, e.time ≤ w.clock
  remembered : ∀ e ∈ w.arrivals, w.Remembered e

theorem step_eq_ok (h : w.step cfg op = .ok w') :
    ∃ s, w.state.call cfg op = .ok s ∧
      w' = ⟨s, arrivalsOf cfg w.state op ++ w.arrivals, max w.clock op.time⟩ := by
  unfold step at h
  split at h
  · cases h
  · rename_i s hcall
    exact ⟨s, hcall, (Except.ok.inj h).symm⟩

theorem clock_le_of_lookedUp {flow : Flow} (hop : w.onTime op = true)
    (hflow : w.state.lookedUp cfg op = some flow) : w.clock ≤ op.time := by
  cases op with
  | processBatch now adminUp batch accept duration => exact (of_decide_eq_true hop).1
  | runTask now ctrlAccept accepts => cases hflow
  | setOverlayThreshold lowWater highWater => cases hflow
  | setBackpressureThreshold threshold => cases hflow

theorem visitedLongAgo_iff : w.visitedLongAgo cfg op = true ↔
    ∀ i, w.state.reclaimed cfg op = some i → ∀ j < maxAvailabeFlows,
      (w.state.flowStatePool j).inUse = true →
      (w.state.flowStateFlowId j).toFlowTuple = (w.state.flowStateFlowId i).toFlowTuple →
        w.state.lastVisit (w.state.flowStatePool j).qid + flowDeallocLimit < op.time := by
  unfold visitedLongAgo
  cases w.state.reclaimed cfg op with
  | none => simp
  | some i => simp

namespace Inv

theorem init (h₀ : QueueOut.init cfg = some s₀) :
    Inv ⟨s₀.answering refuses refuses', [], 0⟩ := by
  obtain ⟨t, ht, rfl⟩ := Option.map_eq_some_iff.1 h₀
  refine ⟨.setup ht refuses, fun q => ?_, by simp, by simp⟩
  obtain ⟨b, rfl⟩ := setup_eq_some ht
  exact le_rfl

/-- Only the table of the module matters, and of that only what a touch keeps. -/
theorem touched (h : Inv w) (htouch : Touched w.state.toFlowTable s'.toFlowTable) :
    Inv { w with state := s' } where
  linked := h.linked.touched htouch
  visit_le := fun q => by
    rw [htouch.lastVisit_eq]
    exact h.visit_le q
  arrival_le := h.arrival_le
  remembered := fun e he => by
    refine (h.remembered e he).imp_right ?_
    rintro ⟨j, hj, hin, hflow, hle⟩
    refine ⟨j, hj, (htouch.inUse_eq j).trans hin, ?_, ?_⟩
    · rw [htouch.flow_eq]
      exact hflow
    · rw [htouch.lastVisit_eq, htouch.qid_eq]
      exact hle

/-- A later clock. -/
theorem later (h : Inv w) {clock : ℕ} (hle : w.clock ≤ clock) : Inv { w with clock := clock } :=
  ⟨h.linked, fun q => (h.visit_le q).trans hle, fun e he => (h.arrival_le e he).trans hle,
    fun e he => (h.remembered e he).imp_left fun hlt => lt_of_lt_of_le hlt hle⟩

/-- A lookup, with its entry in the log. -/
theorem lookup {t : FlowTable} {now : ℕ} {flow : Flow} (h : Inv w) (hclock : w.clock ≤ now)
    (hget : w.state.toFlowTable.getFlowState cfg now flow = .ok (t, i))
    (hidle : Gives cfg w.state.toFlowTable t now flow i → (w.state.flowStatePool i).inUse = true →
      ∀ j < maxAvailabeFlows, (w.state.flowStatePool j).inUse = true →
        (w.state.flowStateFlowId j).toFlowTuple = (w.state.flowStateFlowId i).toFlowTuple →
          w.state.lastVisit (w.state.flowStatePool j).qid + flowDeallocLimit < now) :
    Inv ⟨{ w.state with toFlowTable := t }, ⟨now, flow.toFlowTuple⟩ :: w.arrivals, now⟩ := by
  have harrival : ∀ e ∈ w.arrivals, e.time ≤ now := fun e he => (h.arrival_le e he).trans hclock
  have hvisit : ∀ q, t.lastVisit q ≤ now :=
    lastVisit_getFlowState_le hget fun q => (h.visit_le q).trans hclock
  have hself : now ≤ t.lastVisit (t.flowStatePool i).qid := by
    rw [lastVisit_getFlowState hget, Function.update_self]
  cases hlook : w.state.flowBufferMapping.lookup flow.toFlowTuple with
  | some k =>
    have hmono : ∀ {a q : ℕ}, a ≤ now → a ≤ w.state.lastVisit q → a ≤ t.lastVisit q :=
      le_lastVisit_getFlowState hget
    rw [getFlowState_of_lookup hlook] at hget
    cases hget
    obtain ⟨hi, hin, hflow⟩ := h.linked _ _ hlook
    refine ⟨h.linked, hvisit, List.forall_mem_cons.2 ⟨le_rfl, harrival⟩,
      List.forall_mem_cons.2 ⟨.inr ⟨i, hi, hin, hflow, hself⟩, fun e he => ?_⟩⟩
    refine (h.remembered e he).imp (fun hlt => lt_of_lt_of_le hlt hclock) ?_
    rintro ⟨j, hj, hjin, hjflow, hle⟩
    exact ⟨j, hj, hjin, hjflow, hmono (harrival e he) hle⟩
  | none =>
    have hgives := h.linked.gives hlook hget
    refine ⟨hgives.linked h.linked, hvisit, List.forall_mem_cons.2 ⟨le_rfl, harrival⟩,
      List.forall_mem_cons.2 ⟨.inr ⟨i, hgives.lt, hgives.inUse, ?_, hself⟩, fun e he => ?_⟩⟩
    · change (t.flowStateFlowId i).toFlowTuple = flow.toFlowTuple
      rw [hgives.flow_eq, Function.update_self]
    · exact (h.remembered e he).gives hget hgives hclock (harrival e he) (hidle hgives) _

theorem step (h : Inv w) (hper : cfg.perFlowBuffering = true) (hop : w.sparing cfg op = true)
    (hok : w.step cfg op = .ok w') : Inv w' := by
  obtain ⟨s, hcall, rfl⟩ := step_eq_ok hok
  obtain ⟨htime, hlong⟩ := Bool.and_eq_true_iff.1 hop
  rw [visitedLongAgo_iff] at hlong
  obtain ⟨hnone, htouch⟩ | ⟨flow, t, i, hflow, hget, htouch⟩ := call_lookedUp hper hcall
  · have hlog : arrivalsOf cfg w.state op = [] := by rw [arrivalsOf, hnone]; rfl
    rw [hlog]
    exact (h.later (le_max_left _ _)).touched htouch
  · have hclock := clock_le_of_lookedUp htime hflow
    have hlog : arrivalsOf cfg w.state op = [⟨op.time, flow.toFlowTuple⟩] := by
      rw [arrivalsOf, hflow]
      rfl
    rw [hlog, max_eq_right hclock]
    refine (h.lookup hclock hget fun hgives hin => hlong i ?_).touched htouch
    exact reclaimed_eq_some hflow hgives.new hgives.found hin

end Inv

theorem inv_of_reach (hper : cfg.perFlowBuffering = true) (h₀ : QueueOut.init cfg = some s₀)
    (hw : Run.ReachIf (step cfg) (sparing cfg) ⟨s₀.answering refuses refuses', [], 0⟩ w) : Inv w :=
  hw.invariant (P := Inv) (.init h₀) fun _ _ _ h hop hok => h.step hper hop hok

/-- If no flow is refused, every block in use is that of its flow. -/
theorem owned_of_reach {G : Watched → Op → Bool} (hper : cfg.perFlowBuffering = true)
    (h₀ : QueueOut.init cfg = some s₀) (hw : Run.ReachIf (step cfg) G ⟨s₀, [], 0⟩ w) :
    w.state.Owned := by
  refine hw.invariant (P := fun w => w.state.Owned) ?_ fun u op v hu _ hok => ?_
  · obtain ⟨t, ht, rfl⟩ := Option.map_eq_some_iff.1 h₀
    exact .setup ht
  · obtain ⟨s, hcall, rfl⟩ := step_eq_ok hok
    obtain ⟨-, htouch⟩ | ⟨flow, t, i, -, hget, htouch⟩ := call_lookedUp hper hcall
    · exact hu.touched htouch
    · exact (hu.getFlowState hget).1.touched htouch

/-- The batches of a flow that loses a block are long ago. -/
theorem Inv.idle_of_reclaimed (h : Inv w) (hop : w.sparing cfg op = true)
    (hi : w.state.reclaimed cfg op = some i) {e : Arrival} (he : e ∈ w.arrivals)
    (hflow : e.flow = (w.state.flowStateFlowId i).toFlowTuple) :
    e.time + flowDeallocLimit < op.time := by
  obtain ⟨htime, hlong⟩ := Bool.and_eq_true_iff.1 hop
  obtain ⟨flow, hlooked, -⟩ := Option.bind_eq_some_iff.1 hi
  obtain hlt | ⟨j, hj, hin, hsame, hle⟩ := h.remembered e he
  · exact lt_of_lt_of_le hlt (clock_le_of_lookedUp htime hlooked)
  · have hvisit := visitedLongAgo_iff.1 hlong i hi j hj hin (hsame.trans hflow)
    omega

/-- A mapping is lost only with a block that is taken from the flow. -/
theorem Inv.reclaimed_of_lost {g : FlowTuple} (h : Inv w) (hper : cfg.perFlowBuffering = true)
    (hok : w.step cfg op = .ok w') (hg : w.state.flowBufferMapping.lookup g = some j)
    (hg' : w'.state.flowBufferMapping.lookup g ≠ some j) :
    ∃ i, w.state.reclaimed cfg op = some i ∧ (w.state.flowStateFlowId i).toFlowTuple = g := by
  obtain ⟨s, hcall, rfl⟩ := step_eq_ok hok
  obtain ⟨-, htouch⟩ | ⟨flow, t, i, hflow, hget, htouch⟩ := call_lookedUp hper hcall
  · exact absurd (htouch.mapping_eq ▸ hg) hg'
  rw [htouch.mapping_eq] at hg'
  cases hlook : w.state.flowBufferMapping.lookup flow.toFlowTuple with
  | some k =>
    rw [getFlowState_of_lookup hlook] at hget
    cases hget
    exact absurd hg hg'
  | none =>
    have hgives := h.linked.gives hlook hget
    obtain ⟨hin, hsame⟩ : (w.state.flowStatePool i).inUse = true ∧
        g = (w.state.flowStateFlowId i).toFlowTuple := by
      by_contra hnot
      exact hg' (hgives.lookup_kept g j hg fun hin hsame => hnot ⟨hin, hsame⟩)
    exact ⟨i, reclaimed_eq_some hflow hlook hgives.found hin, hsame.symm⟩

/-- **Only idle flows lose a block, if blocks are taken only when the queues of their flow were
visited long ago.**  In every run of such calls, whatever flows the hash maps refuse, a flow from
which a call takes a block, and a flow that loses its mapping, had no batch in the last
`flow_dealloc_limit`. -/
theorem idle_flows_only (hper : cfg.perFlowBuffering = true) (h₀ : QueueOut.init cfg = some s₀)
    (hw : Run.ReachIf (step cfg) (sparing cfg) ⟨s₀.answering refuses refuses', [], 0⟩ w)
    (hop : w.sparing cfg op = true) (hok : w.step cfg op = .ok w') :
    (∀ i, w.state.reclaimed cfg op = some i → ∀ e ∈ w.arrivals,
      e.flow = (w.state.flowStateFlowId i).toFlowTuple → e.time + flowDeallocLimit < op.time) ∧
    ∀ g j, w.state.flowBufferMapping.lookup g = some j →
      w'.state.flowBufferMapping.lookup g ≠ some j →
        ∀ e ∈ w.arrivals, e.flow = g → e.time + flowDeallocLimit < op.time := by
  have hinv := inv_of_reach hper h₀ hw
  refine ⟨fun i hi e he hflow => hinv.idle_of_reclaimed hop hi he hflow,
    fun g j hg hg' e he hflow => ?_⟩
  obtain ⟨i, hi, hsame⟩ := hinv.reclaimed_of_lost hper hok hg hg'
  exact hinv.idle_of_reclaimed hop hi he (hflow.trans hsame.symm)

/-! ### A pool that comes round -/

/-- Per-flow buffers of four slots, without pauses and overlay messages. -/
def plainConfig : QueueOutConfig := ⟨4, [0], true, false, false, true, false⟩

/-- A batch of one packet of the `n`-th flow. -/
def batchOf (now n : ℕ) : Op := .processBatch now true [⟨n, udpTo n⟩] (0, 0) 0

theorem call_batchOf {t : FlowTable} {now : ℕ}
    (hget : s.toFlowTable.getFlowState plainConfig now (udpTo n) = .ok (t, i)) :
    ∃ s' b, s.call plainConfig (batchOf now n) = .ok s' ∧
      s'.toFlowTable = { t with
        buffers := Function.update t.buffers (t.flowStatePool i).buffer b } := by
  let u : QueueOut := { s with
    toFlowTable := t
    received := s.received ++ [⟨n, udpTo n⟩]
    ctrl := { s.ctrl with currentNs := now } }
  refine ⟨u.bufferBatch i [⟨n, udpTo n⟩], _, ?_, rfl⟩
  simp only [batchOf, call, QueueOut.step, processBatch, processBatchWithBuffer, List.headD_cons,
    hget]
  rfl

/-- The first flow has the first block, allocated at time 0 and empty, the blocks below `n` have
been allocated, nothing has come after `time`, and `log` has the batches of the first flow. -/
structure Filled (time : ℕ) (log : List Arrival) (w : Watched) (n : ℕ) : Prop where
  owned : w.state.Owned
  packed : w.state.Packed n
  buffer_eq : ∀ i < maxAvailabeFlows, (w.state.flowStatePool i).buffer = i
  mapped : w.state.flowBufferMapping.lookup (udpTo 0).toFlowTuple = some 0
  flow_eq : w.state.flowStateFlowId 0 = udpTo 0
  inUse : (w.state.flowStatePool 0).inUse = true
  lastUsed : (w.state.flowStatePool 0).lastUsed = 0
  empty : (w.state.buffers 0).pktbufferCount = 0
  visited : ∀ q, w.state.lastVisit q ≤ time
  clock_le : w.clock ≤ time
  log_eq : w.arrivals.filter (fun e => e.flow = (udpTo 0).toFlowTuple) = log

section Filled

variable {log : List Arrival} {time : ℕ}

theorem tuple_ne (h : 0 < n) : (udpTo n).toFlowTuple ≠ (udpTo 0).toFlowTuple := by
  intro heq
  have hport : n = 0 := congrArg FlowTuple.portDst heq
  omega

theorem lookedUp_batchOf (s : QueueOut) (now n : ℕ) :
    s.lookedUp plainConfig (batchOf now n) = some (udpTo n) := by
  have hadmits : s.Admits plainConfig true [⟨n, udpTo n⟩] :=
    ⟨rfl, fun h => absurd h.1 (by decide), le_rfl⟩
  simp only [batchOf, lookedUp, if_pos hadmits, List.headD_cons]

theorem arrivalsOf_batchOf (s : QueueOut) (now n : ℕ) :
    arrivalsOf plainConfig s (batchOf now n) = [⟨now, (udpTo n).toFlowTuple⟩] := by
  rw [arrivalsOf, lookedUp_batchOf]
  rfl

/-- The search of a new flow that returned a block ended there. -/
theorem findBlock_of_getFlowState {t t' : FlowTable} {flow : Flow} {now : ℕ}
    (hnone : t.flowBufferMapping.lookup flow.toFlowTuple = none)
    (hget : t.getFlowState cfg now flow = .ok (t', i)) :
    t.findBlock cfg now maxAvailabeFlows (wadd 32 t.fspTop 1 % maxAvailabeFlows) = .ok i := by
  obtain ⟨hsome, -⟩ | ⟨-, u, qid, -, rfl, hfind, -⟩ := getFlowState_eq_ok hget
  · exact absurd (hnone.symm.trans hsome) (by simp)
  · rwa [findBlock_visit] at hfind

/-- A block that is free is not taken from a flow. -/
theorem visitedLongAgo_of_free {t : FlowTable} {now : ℕ}
    (hnone : w.state.flowBufferMapping.lookup (udpTo n).toFlowTuple = none)
    (hget : w.state.toFlowTable.getFlowState plainConfig now (udpTo n) = .ok (t, i))
    (hfree : (w.state.flowStatePool i).inUse = false) :
    w.visitedLongAgo plainConfig (batchOf now n) = true := by
  have hnot : w.state.reclaimed plainConfig (batchOf now n) = none := by
    simp only [reclaimed, lookedUp_batchOf, Option.bind_some, hnone, Option.isSome_none,
      Bool.false_eq_true, if_false]
    change (w.state.findBlock plainConfig now maxAvailabeFlows
      (wadd 32 w.state.fspTop 1 % maxAvailabeFlows)).toOption.filter _ = none
    rw [findBlock_of_getFlowState hnone hget]
    simp [Except.toOption, hfree]
  rw [visitedLongAgo, hnot]
  rfl

/-- One more flow comes. -/
theorem Filled.next (h : Filled time log w n) (htime : time ≤ flowDeallocLimit) (hpos : 0 < n)
    (hn : n < maxAvailabeFlows) :
    ∃ w', Run.ReachIf (step plainConfig) (sparing plainConfig) w w' ∧
      Filled time log w' (n + 1) := by
  obtain ⟨t, hget, halloc, hpacked⟩ :=
    h.packed.getFlowState (show plainConfig.buffering = true from rfl) h.owned hn time
  obtain ⟨s, b, hcall, htable⟩ := call_batchOf hget
  have hfree := h.packed.free n hn le_rfl
  have hbuffer : (t.flowStatePool n).buffer = n := (halloc.buffer_eq rfl).trans (h.buffer_eq n hn)
  have hblock : t.flowStatePool 0 = w.state.flowStatePool 0 := halloc.pool_eq 0 hpos.ne
  have hstep : w.step plainConfig (batchOf time n) =
      .ok ⟨s, arrivalsOf plainConfig w.state (batchOf time n) ++ w.arrivals, max w.clock time⟩ := by
    simp only [step, hcall]
    rfl
  have hontime : w.onTime (batchOf time n) = true :=
    decide_eq_true ⟨h.clock_le, lt_of_le_of_lt htime (by decide)⟩
  have hspare := visitedLongAgo_of_free (h.packed.new n hn.le le_rfl) hget hfree
  refine ⟨_, .single ⟨_, Bool.and_eq_true_iff.2 ⟨hontime, hspare⟩, hstep⟩, ?_⟩
  have hown : t.Owned := (h.owned.getFlowState hget).1
  constructor <;> simp only [htable]
  · exact ⟨hown.mapped, hown.accepts⟩
  · exact ⟨hpacked.next_eq, hpacked.free, hpacked.new⟩
  · intro i hi
    by_cases heq : i = n
    · rw [heq, hbuffer]
    · rw [halloc.pool_eq i heq, h.buffer_eq i hi]
  · rw [halloc.lookup_eq, if_neg (tuple_ne hpos).symm, if_neg (by simp [hfree]), h.mapped]
  · rw [halloc.flow_eq, Function.update_of_ne hpos.ne, h.flow_eq]
  · rw [hblock, h.inUse]
  · rw [hblock, h.lastUsed]
  · rw [hbuffer, Function.update_of_ne hpos.ne, halloc.buffers_eq hfree, h.empty]
  · intro q
    rw [halloc.lastVisit_eq, Function.update_apply]
    split_ifs
    · exact le_rfl
    · exact h.visited q
  · exact max_le h.clock_le le_rfl
  · rw [arrivalsOf_batchOf, List.singleton_append, List.filter_cons_of_neg, h.log_eq]
    simpa using tuple_ne hpos

theorem Filled.all (h : Filled time log w 1) (htime : time ≤ flowDeallocLimit)
    (hn : n < maxAvailabeFlows) :
    ∃ w', Run.ReachIf (step plainConfig) (sparing plainConfig) w w' ∧
      Filled time log w' (n + 1) := by
  induction n with
  | zero => exact ⟨w, .refl, h⟩
  | succ n ih =>
    obtain ⟨w₁, hw₁, hfilled⟩ := ih (by omega)
    obtain ⟨w₂, hw₂, hfilled₂⟩ := hfilled.next htime (by omega) hn
    exact ⟨w₂, hw₁.trans hw₂, hfilled₂⟩

/-- The next flow takes the block of the first. -/
theorem Filled.lost (h : Filled time log w maxAvailabeFlows) (htime : time ≤ flowDeallocLimit) :
    ∃ w', w.onTime (batchOf (flowDeallocLimit + 1) maxAvailabeFlows) = true ∧
      w.step plainConfig (batchOf (flowDeallocLimit + 1) maxAvailabeFlows) = .ok w' ∧
      w.state.reclaimed plainConfig (batchOf (flowDeallocLimit + 1) maxAvailabeFlows) = some 0 ∧
      w'.state.flowBufferMapping.lookup (udpTo 0).toFlowTuple = none := by
  have hnone := h.packed.new maxAvailabeFlows le_rfl le_rfl
  have hne : 0 ≠ w.state.fspTop := by
    intro heq
    have hnext := h.packed.next_eq
    rw [← heq] at hnext
    exact absurd hnext (by unfold wadd; decide)
  have husable : w.state.Usable (flowDeallocLimit + 1) 0 := by
    refine .inr ⟨?_, ?_⟩
    · rw [bufferOf, h.buffer_eq 0 (by decide), h.empty]
    · rw [h.lastUsed]
      unfold wsub
      decide
  obtain ⟨t, hget⟩ := exists_getFlowState_of_usable (show plainConfig.buffering = true from rfl)
    hnone (by rw [h.packed.next_eq, Nat.mod_self]) hne husable
  have halloc := h.owned.allocates hnone hget
  obtain ⟨s, b, hcall, htable⟩ := call_batchOf hget
  refine ⟨_, decide_eq_true ⟨(h.clock_le.trans htime).trans (by decide), by decide⟩,
    show w.step plainConfig (batchOf (flowDeallocLimit + 1) maxAvailabeFlows) = .ok ⟨s, _, _⟩ by
      simp only [step, hcall]; rfl,
    reclaimed_eq_some (lookedUp_batchOf ..) hnone (findBlock_of_getFlowState hnone hget) h.inUse,
    ?_⟩
  simp only [htable]
  rw [halloc.lookup_eq, if_neg (tuple_ne (by decide)).symm, if_pos ⟨h.inUse, by rw [h.flow_eq]⟩]

/-- If all other flows came with the first, the queue was visited long ago. -/
theorem Filled.visitedLongAgo (h : Filled 0 log w maxAvailabeFlows) (now : ℕ)
    (hnow : flowDeallocLimit < now) (n : ℕ) :
    w.visitedLongAgo plainConfig (batchOf now n) = true := by
  refine visitedLongAgo_iff.2 fun i _ j _ _ _ => ?_
  have hle := h.visited (w.state.flowStatePool j).qid
  change _ < now
  omega

/-- Only the first flow has come, with the batches of `log`, and its packets have been sent. -/
def FirstOnly (time : ℕ) (log : List Arrival) (w : Watched) : Prop :=
  wadd 32 w.state.fspTop 1 = 1 ∧
  (∀ i < maxAvailabeFlows, 1 ≤ i → (w.state.flowStatePool i).inUse = false) ∧
  (∀ m ≤ maxAvailabeFlows, 1 ≤ m →
    w.state.flowBufferMapping.lookup (udpTo m).toFlowTuple = none) ∧
  (∀ i < maxAvailabeFlows, (w.state.flowStatePool i).buffer = i) ∧
  w.state.flowBufferMapping.lookup (udpTo 0).toFlowTuple = some 0 ∧
  w.state.flowStateFlowId 0 = udpTo 0 ∧
  (w.state.flowStatePool 0).inUse = true ∧
  (w.state.flowStatePool 0).lastUsed = 0 ∧
  (w.state.buffers 0).pktbufferCount = 0 ∧
  w.clock ≤ time ∧
  w.arrivals.filter (fun e => e.flow = (udpTo 0).toFlowTuple) = log

instance : Decidable (FirstOnly time log w) := inferInstanceAs (Decidable (_ ∧ _))

/-- After such a run, 255 other flows come at the given time. -/
theorem exists_filled (log : List Arrival) (htime : time ≤ flowDeallocLimit) (ops : List Op)
    (hrun : ((QueueOut.init plainConfig).bind fun s₀ =>
      (Run.exec (step plainConfig) (sparing plainConfig) ⟨s₀, [], 0⟩ ops).map fun w =>
        decide (FirstOnly time log w)) = some true) :
    ∃ s₀ w, QueueOut.init plainConfig = some s₀ ∧
      Run.ReachIf (step plainConfig) (sparing plainConfig) ⟨s₀, [], 0⟩ w ∧
      Filled time log w maxAvailabeFlows := by
  obtain ⟨s₀, w₁, h₀, hw₁, hdec⟩ := Run.exists_init_reachIf _ hrun
  obtain ⟨hnext, hfree, hnew, hbuffer, hmapped, hflow, hin, hused, hempty, hclock, hlog⟩ :=
    of_decide_eq_true hdec
  have hinv : Inv w₁ := inv_of_reach rfl h₀ (by rwa [answering_accepting h₀])
  have hone : Filled time log w₁ 1 :=
    ⟨owned_of_reach rfl h₀ hw₁, ⟨hnext, hfree, hnew⟩, hbuffer, hmapped, hflow, hin, hused, hempty,
      fun q => (hinv.visit_le q).trans hclock, hclock, hlog⟩
  obtain ⟨w, hw, hall⟩ := hone.all htime (show 255 < maxAvailabeFlows by decide)
  exact ⟨s₀, w, h₀, hw₁.trans hw, hall⟩

end Filled

/-- All flows had their batches at the time 0; the first loses its block when another comes,
`flow_dealloc_limit` and a nanosecond later. -/
theorem idle_flow_loses_block :
    ∃ s₀ w op w', QueueOut.init plainConfig = some s₀ ∧
      Run.ReachIf (step plainConfig) (sparing plainConfig)
        ⟨s₀.answering (fun _ => false) fun _ => false, [], 0⟩ w ∧
      w.sparing plainConfig op = true ∧ w.step plainConfig op = .ok w' ∧
      w.state.reclaimed plainConfig op = some 0 ∧
      w.state.flowBufferMapping.lookup (udpTo 0).toFlowTuple = some 0 ∧
      w'.state.flowBufferMapping.lookup (udpTo 0).toFlowTuple = none ∧
      ∀ e ∈ w.arrivals, e.flow = (udpTo 0).toFlowTuple → e.time + flowDeallocLimit < op.time := by
  obtain ⟨s₀, w, h₀, hw, hall⟩ := exists_filled [⟨0, (udpTo 0).toFlowTuple⟩]
    (Nat.zero_le _) [batchOf 0 0, .runTask 0 0 [(1, 0)]] (by decide +kernel)
  rw [← answering_accepting h₀] at hw
  obtain ⟨w', htime, hstep, hreclaimed, hlost⟩ := hall.lost (Nat.zero_le _)
  have hop : w.sparing plainConfig (batchOf (flowDeallocLimit + 1) maxAvailabeFlows) = true :=
    Bool.and_eq_true_iff.2 ⟨htime, hall.visitedLongAgo _ (Nat.lt_succ_self _) _⟩
  exact ⟨s₀, w, _, w', h₀, hw, hop, hstep, hreclaimed, hall.mapped, hlost,
    (idle_flows_only rfl h₀ hw hop hstep).2 _ 0 hall.mapped (by rw [hlost]; simp)⟩

/-- **An active flow loses its block.**  Its last batch came a nanosecond before, and found it
mapped. -/
theorem active_flow_loses_block :
    ∃ s₀ w op w', QueueOut.init plainConfig = some s₀ ∧
      Run.ReachIf (step plainConfig) onTime ⟨s₀, [], 0⟩ w ∧ w.onTime op = true ∧
      w.step plainConfig op = .ok w' ∧
      w.state.flowBufferMapping.lookup (udpTo 0).toFlowTuple = some 0 ∧
      w'.state.flowBufferMapping.lookup (udpTo 0).toFlowTuple = none ∧
      ∃ e ∈ w.arrivals, e.flow = (udpTo 0).toFlowTuple ∧ e.time + 1 = op.time := by
  obtain ⟨s₀, w, h₀, hw, hall⟩ := exists_filled
    [⟨flowDeallocLimit, (udpTo 0).toFlowTuple⟩, ⟨0, (udpTo 0).toFlowTuple⟩] le_rfl
    [batchOf 0 0, batchOf flowDeallocLimit 0, .runTask flowDeallocLimit 0 [(2, 0)]]
    (by decide +kernel)
  obtain ⟨w', htime, hstep, -, hlost⟩ := hall.lost le_rfl
  have hmem : (⟨flowDeallocLimit, (udpTo 0).toFlowTuple⟩ : Arrival) ∈
      w.arrivals.filter fun e => e.flow = (udpTo 0).toFlowTuple := by
    rw [hall.log_eq]
    exact List.mem_cons_self
  exact ⟨s₀, w, _, w', h₀, hw.mono fun _ _ hop => (Bool.and_eq_true_iff.1 hop).1, htime, hstep,
    hall.mapped, hlost, _, (List.mem_filter.1 hmem).1, rfl, rfl⟩

end Watched

end QueueOut

end Backdraft

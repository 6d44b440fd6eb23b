import Backdraft.FlowHash
import Backdraft.OverlayCtrl.Store
import Backdraft.QueueOut.Blocks
import Backdraft.SwDpCtrl

/-!
# The maps of flows

Three components keep a map from flows: `BKDRFTSwDpCtrl` the pauses, `BKDRFTOverlayCtrl` the book,
and `BKDRFTQueueOut` the blocks.  All three maps are cuckoo maps with `flowHash`; in the models they
are hash tables that may refuse a flow.  What the cuckoo maps do is among what the hash tables do.

* `SwDpCtrl.owner`, `OverlayCtrl.owner`, `FlowTable.owner`: the components, with the calls they make
  on their maps;
* `SwDpCtrl.exists_answers`, `OverlayCtrl.exists_answers`, `FlowTable.exists_answers`: for every run
  there are answers with which the table has, after each step, what the map finds.

A write through the pointer that `Find` returns is an insertion of a flow that is there.  The values
are plain data, so a move leaves them as they were.
-/

namespace Backdraft

open CuckooMap

/-! ### The shared table of pauses -/

namespace SwDpCtrl

/-- `PauseFlow`, for an end, a rate and a flow. -/
def owner : Owner flowHash DpTblEntry SwDpCtrl (ℕ × ℕ × Flow) where
  table := flowBook
  setTable _ T := ⟨T⟩
  step c w := some (c.pauseFlow w.1 w.2.1 w.2.2)
  calls _ w := [.insert w.2.2 ⟨w.1, w.2.1⟩]
  table_setTable _ _ := rfl
  setTable_setTable _ _ _ := rfl
  calls_setTable _ _ _ _ := rfl
  step_setTable _ _ _ _ := rfl

/-- **The table of pauses can be a cuckoo map.** -/
theorem exists_answers (ws : List (ℕ × ℕ × Flow)) :
    ∃ refuses, ∀ pre, pre <+: ws → ∀ c,
      pre.foldlM owner.step (owner.answering init refuses) = some c →
      ∃ m rs, run flowHash id (new initNumBucket initNumEntries)
          (owner.callsAlong (owner.answering init refuses) pre) = some (m, rs) ∧
        ∀ flow, ((m.find flowHash flow).map Prod.snd).getD ⟨0, 0⟩ = c.getFlowStatus flow := by
  obtain ⟨refuses, hall⟩ := owner.exists_answers (fun v => rfl : ∀ v, id v = v)
    (s := init) (stands_new flowHash) ws
  refine ⟨refuses, fun pre hpre c hc => ?_⟩
  obtain ⟨m, rs, hrun, hstands⟩ := hall pre hpre c hc
  exact ⟨m, rs, hrun, fun flow => congrArg (Option.getD · _) (hstands.find_eq flow)⟩

end SwDpCtrl

/-! ### The book of the overlay -/

namespace OverlayCtrl

open Bess

/-- The calls on the book. -/
def bookCalls (c : OverlayCtrl) : BookOp → List (Call Flow OverlayEntry)
  | .fillBook port qid f =>
    [.find f, .insert f (((c.flowBook.lookup f.toFlowTuple).map fun entry =>
      { entry with port := port, qid := qid }).getD (newEntry port qid))]
  | .apply f pps pauseDuration now flow =>
    let m := overlayMsg f pps pauseDuration
    let flow := (extractInto m flow).1
    .find flow :: ((c.flowBook.lookup flow.toFlowTuple).map fun entry =>
      Call.insert flow { entry with pauseUntilTs := Word.wadd 64 m.pauseDuration now }).toList

theorem step_setTable (c : OverlayCtrl) (op : BookOp) (T : HashTable FlowTuple OverlayEntry)
    (hT : T.table = c.flowBook.table) :
    ({ c with flowBook := T } : OverlayCtrl).step op =
      { c.step op with flowBook := (c.bookCalls op).foldl (Call.apply flowHash) T } := by
  have hlook : ∀ k, T.lookup k = c.flowBook.lookup k := fun k => by
    rw [HashTable.lookup, hT, HashTable.lookup]
  cases op with
  | fillBook port qid f =>
    simp only [step, fillBook, bookCalls, hlook]
    cases c.flowBook.lookup f.toFlowTuple <;> rfl
  | apply f pps pauseDuration now flow =>
    simp only [step, applyOverlayMessage, bookCalls, hlook]
    cases c.flowBook.lookup _ <;> rfl

/-- `FillBook` and `ApplyOverlayMessage`. -/
def owner : Owner flowHash OverlayEntry OverlayCtrl BookOp where
  table := flowBook
  setTable c T := { c with flowBook := T }
  step c op := some (c.step op)
  calls := bookCalls
  table_setTable _ _ := rfl
  setTable_setTable _ _ _ := rfl
  calls_setTable c op T hT := by
    cases op <;> simp only [bookCalls, HashTable.lookup, hT]
  step_setTable c op T hT := congrArg some (step_setTable c op T hT)

/-- **The book can be a cuckoo map.** -/
theorem exists_answers (ports : ℕ → OverlayPort) (ops : List BookOp) :
    ∃ refuses, ∀ pre, pre <+: ops → ∀ c,
      pre.foldlM owner.step (owner.answering (init ports) refuses) = some c →
      ∃ m rs, run flowHash id (new initNumBucket initNumEntries)
          (owner.callsAlong (owner.answering (init ports) refuses) pre) = some (m, rs) ∧
        ∀ flow, (m.find flowHash flow).map Prod.snd = c.getOverlayEntry flow := by
  obtain ⟨refuses, hall⟩ := owner.exists_answers (fun v => rfl : ∀ v, id v = v)
    (s := init ports) (stands_new flowHash) ops
  refine ⟨refuses, fun pre hpre c hc => ?_⟩
  obtain ⟨m, rs, hrun, hstands⟩ := hall pre hpre c hc
  exact ⟨m, rs, hrun, hstands.find_eq⟩

end OverlayCtrl

/-! ### The table of blocks -/

namespace FlowTable

open Word

/-- The calls of `DeallocateFlowState`. -/
def deallocateCalls (t : FlowTable) (flow : Flow) : List (Call Flow ℕ) :=
  .find flow :: if (t.flowBufferMapping.lookup flow.toFlowTuple).isSome then [.remove flow] else []

/-- The calls of `GetFlowState` when it has found a block for a new flow. -/
def allocateCalls (t : FlowTable) (flow : Flow) (index : ℕ) : List (Call Flow ℕ) :=
  (if (t.flowStatePool index).inUse then t.deallocateCalls (t.flowStateFlowId index) else []) ++
    [.insert flow index]

/-- The calls on `flow_buffer_mapping_`. -/
def mappingCalls (cfg : QueueOutConfig) (t : FlowTable) : Op → List (Call Flow ℕ)
  | .getFlowState now flow =>
    .find flow :: if (t.flowBufferMapping.lookup flow.toFlowTuple).isSome then []
    else match t.findBlock cfg now maxAvailabeFlows (wadd 32 t.fspTop 1 % maxAvailabeFlows) with
      | .error _ => []
      | .ok index => t.allocateCalls flow index
  | _ => []

variable {cfg : QueueOutConfig} {t : FlowTable} {T : HashTable FlowTuple ℕ}

theorem lookup_of_table_eq (hT : T.table = t.flowBufferMapping.table) (k : FlowTuple) :
    T.lookup k = t.flowBufferMapping.lookup k := by
  rw [HashTable.lookup, hT, HashTable.lookup]

theorem deallocateFlowState_setTable (hT : T.table = t.flowBufferMapping.table) (flow : Flow) :
    FlowTable.deallocateFlowState cfg { t with flowBufferMapping := T } flow =
      { t.deallocateFlowState cfg flow with
        flowBufferMapping := (t.deallocateCalls flow).foldl (Call.apply flowHash) T } := by
  unfold deallocateFlowState deallocateCalls
  simp only [lookup_of_table_eq hT]
  cases t.flowBufferMapping.lookup flow.toFlowTuple <;> rfl

theorem allocate_setTable (hT : T.table = t.flowBufferMapping.table) (now : ℕ) (flow : Flow)
    (qid index : ℕ) :
    FlowTable.allocate cfg { t with flowBufferMapping := T } now flow qid index =
      { t.allocate cfg now flow qid index with
        flowBufferMapping := (t.allocateCalls flow index).foldl (Call.apply flowHash) T } := by
  unfold allocate allocateCalls
  rw [List.foldl_append]
  cases hin : (t.flowStatePool index).inUse with
  | true =>
    simp only [if_true]
    rw [deallocateFlowState_setTable hT]
    rfl
  | false =>
    simp only [Bool.false_eq_true, if_false]
    rfl

theorem step_setTable (hT : T.table = t.flowBufferMapping.table) (op : Op) :
    FlowTable.step cfg { t with flowBufferMapping := T } op =
      (t.step cfg op).map fun t' =>
        { t' with flowBufferMapping := (t.mappingCalls cfg op).foldl (Call.apply flowHash) T } := by
  cases op with
  | getFlowState now flow =>
    simp only [step, getFlowState, mappingCalls, lookup_of_table_eq hT, findBlock_mapping_visit]
    cases hlook : t.flowBufferMapping.lookup flow.toFlowTuple with
    | some i => rfl
    | none =>
      cases hfind : t.findBlock cfg now maxAvailabeFlows
          (wadd 32 t.fspTop 1 % maxAvailabeFlows) with
      | error e => rfl
      | ok index =>
        let u : FlowTable :=
          { t with lastVisit := Function.update t.lastVisit (t.chooseQueue cfg) now }
        exact congrArg Except.ok
          (allocate_setTable (t := u) hT now flow (t.chooseQueue cfg) index)
  | enqueue i pkts => rfl
  | drain i n =>
    have hbuffer : bufferOf { t with flowBufferMapping := T } i = t.bufferOf i := rfl
    simp only [step, hbuffer]
    cases (t.bufferOf i).pktbufferPrime with
    | error e => rfl
    | ok r =>
      obtain ⟨b, k⟩ := r
      simp only
      cases b.pktbufferFlush (min n k) <;> rfl

/-- The lookups, with the buffers filled and drained in between. -/
def owner (cfg : QueueOutConfig) : Owner flowHash ℕ FlowTable Op where
  table := flowBufferMapping
  setTable t T := { t with flowBufferMapping := T }
  step t op := (t.step cfg op).toOption
  calls := mappingCalls cfg
  table_setTable _ _ := rfl
  setTable_setTable _ _ _ := rfl
  calls_setTable t op T hT := by
    cases op with
    | getFlowState now flow =>
      simp only [mappingCalls, allocateCalls, deallocateCalls, lookup_of_table_eq hT]
      rw [findBlock_mapping_visit]
    | enqueue i pkts => rfl
    | drain i n => rfl
  step_setTable t op T hT := by
    rw [step_setTable hT]
    cases t.step cfg op <;> rfl

/-- **The mapping of the flows can be a cuckoo map.** -/
theorem exists_answers (ht : setup cfg = some t) (ops : List Op) :
    ∃ refuses, ∀ pre, pre <+: ops → ∀ t',
      pre.foldlM (owner cfg).step (t.answering refuses) = some t' →
      ∃ m rs, run flowHash id (new initNumBucket initNumEntries)
          ((owner cfg).callsAlong (t.answering refuses) pre) = some (m, rs) ∧
        ∀ flow : Flow, (m.find flowHash flow).map Prod.snd =
          t'.flowBufferMapping.lookup flow.toFlowTuple := by
  obtain ⟨b, rfl⟩ := setup_eq_some ht
  obtain ⟨refuses, hall⟩ := (owner cfg).exists_answers (fun v => rfl : ∀ v, id v = v)
    (s := withBuffers b) (stands_new flowHash) ops
  refine ⟨refuses, fun pre hpre t' ht' => ?_⟩
  obtain ⟨m, rs, hrun, hstands⟩ := hall pre hpre t' ht'
  exact ⟨m, rs, hrun, hstands.find_eq⟩

end FlowTable

end Backdraft

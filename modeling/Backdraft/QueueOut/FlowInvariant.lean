import Backdraft.Lib.Run
import Backdraft.QueueOut.FlowTable

/-!
# Flows and blocks

The invariant of the flow table in per-flow mode.

* `TableInv`: a flow is mapped to a block exactly if the block is in use by it, and blocks that
  are not in use have empty buffers, for a hash map that refuses no flow;
* `Looked`: what a lookup leaves as it was, and that it gives a block to another flow only when
  the buffer of the block is empty;
* `TableInv.getFlowState`: a lookup keeps the invariant;
* `flows_blocks_bijection`: the correspondence holds in every run of lookups, with buffers filled
  and drained in between.
-/

namespace Backdraft

namespace FlowTable

/-- The invariant of the flow table. -/
structure TableInv (cfg : QueueOutConfig) (t : FlowTable) : Prop where
  buffer_eq : ∀ i < maxAvailabeFlows, (t.flowStatePool i).buffer = i
  flowId_eq : ∀ i < maxAvailabeFlows, (t.flowStatePool i).flowId = i
  map_iff : ∀ f i, t.flowBufferMapping.lookup f = some i ↔
    i < maxAvailabeFlows ∧ (t.flowStatePool i).inUse = true ∧
      (t.flowStateFlowId i).toFlowTuple = f
  wf : ∀ i < maxAvailabeFlows, (t.buffers i).WF cfg.maxBufferSize
  empty : ∀ i < maxAvailabeFlows, (t.flowStatePool i).inUse = false → (t.buffers i).contents = []
  prio_lt : ∀ p, ∀ i ∈ t.prioQueue p, i < maxAvailabeFlows
  accepts : t.flowBufferMapping.Accepts

variable {cfg : QueueOutConfig} {t t' : FlowTable} {now i : ℕ} {flow : Flow}

/-- The table after `Init`. -/
theorem TableInv.setup (hbuf : cfg.buffering = true) (hpow : Llring.PowTwo cfg.maxBufferSize)
    (h : setup cfg = some t) : t.TableInv cfg := by
  obtain ⟨b, hb, hwf, hcont⟩ := PktBuffer.newPktbuffer_spec (α := Packet) hpow
  rw [FlowTable.setup, if_pos hbuf, hb, Option.map_some, Option.some.injEq] at h
  subst h
  refine ⟨fun _ _ => rfl, fun _ _ => rfl, fun f i => ?_, fun _ _ => hwf, fun _ _ _ => hcont,
    fun _ _ hi => (nomatch hi), HashTable.accepts_empty⟩
  simp [withBuffers]

theorem TableInv.bufferOf_eq (h : t.TableInv cfg) (hi : i < maxAvailabeFlows) :
    t.bufferOf i = t.buffers i := by
  rw [bufferOf, h.buffer_eq i hi]

/-- Only `lastVisit` changes. -/
theorem TableInv.visit (h : t.TableInv cfg) (v : ℕ → ℕ) :
    { t with lastVisit := v }.TableInv cfg :=
  ⟨h.buffer_eq, h.flowId_eq, h.map_iff, h.wf, h.empty, h.prio_lt, h.accepts⟩

/-- The table after the block `i`, which is in use, is reclaimed. -/
theorem TableInv.deallocate_eq (h : t.TableInv cfg) (hper : cfg.perFlowBuffering = true)
    (hi : i < maxAvailabeFlows) (hin : (t.flowStatePool i).inUse = true) :
    t.deallocateFlowState cfg (t.flowStateFlowId i) =
      { t with
        prioQueue := Function.update t.prioQueue (t.flowStatePool i).prio
          ((t.prioQueue (t.flowStatePool i).prio).erase (t.flowStatePool i).prio)
        buffers := Function.update t.buffers i ((t.buffers i).reset cfg.maxBufferSize)
        flowBufferMapping := t.flowBufferMapping.erase (t.flowStateFlowId i).toFlowTuple
        flowStatePool :=
          Function.update t.flowStatePool i { t.flowStatePool i with inUse := false } } := by
  have hlook := (h.map_iff (t.flowStateFlowId i).toFlowTuple i).2 ⟨hi, hin, rfl⟩
  simp only [deallocateFlowState, hlook, hper, if_true, h.buffer_eq i hi]

/-- The blocks of the flows when that of one block is forgotten. -/
theorem TableInv.lookup_erase_iff (h : t.TableInv cfg) (hi : i < maxAvailabeFlows)
    (hin : (t.flowStatePool i).inUse = true) (f : FlowTuple) (j : ℕ) :
    (t.flowBufferMapping.erase (t.flowStateFlowId i).toFlowTuple).lookup f = some j ↔
      j ≠ i ∧ j < maxAvailabeFlows ∧ (t.flowStatePool j).inUse = true ∧
        (t.flowStateFlowId j).toFlowTuple = f := by
  have hlook := (h.map_iff _ i).2 ⟨hi, hin, rfl⟩
  by_cases hf : f = (t.flowStateFlowId i).toFlowTuple
  · -- the flow of the block: no other block is in use by it
    subst hf
    simp only [HashTable.lookup_erase, reduceCtorEq, false_iff]
    rintro ⟨hji, hj⟩
    exact hji (Option.some.inj (((h.map_iff _ j).2 hj).symm.trans hlook))
  · rw [HashTable.lookup_erase_ne hf, h.map_iff]
    refine ⟨fun hj => ⟨?_, hj⟩, fun hj => hj.2⟩
    rintro rfl
    exact hf hj.2.2.symm

/-- The blocks of the flows when a free one is given to a flow that has none. -/
theorem TableInv.lookup_insert_iff (h : t.TableInv cfg) (hfree : (t.flowStatePool i).inUse = false)
    (hnone : t.flowBufferMapping.lookup flow.toFlowTuple = none) (f : FlowTuple) (j : ℕ) :
    (t.flowBufferMapping.insert flow.toFlowTuple i).lookup f = some j ↔
      if j = i then flow.toFlowTuple = f
      else j < maxAvailabeFlows ∧ (t.flowStatePool j).inUse = true ∧
        (t.flowStateFlowId j).toFlowTuple = f := by
  by_cases hf : f = flow.toFlowTuple
  · subst hf
    rw [h.accepts.lookup_insert]
    split_ifs with hji
    · simp [hji]
    · simp only [Option.some.injEq, Ne.symm hji, false_iff]
      intro hj
      have := (h.map_iff _ j).2 hj
      rw [hnone] at this
      exact absurd this (by simp)
  · rw [HashTable.lookup_insert_ne hf, h.map_iff]
    split_ifs with hji
    · subst hji
      simp [hfree, Ne.symm hf]
    · rfl

/-- Reclaiming a block keeps the invariant. -/
theorem TableInv.deallocate (h : t.TableInv cfg) (hper : cfg.perFlowBuffering = true)
    (hi : i < maxAvailabeFlows) (hin : (t.flowStatePool i).inUse = true) :
    (t.deallocateFlowState cfg (t.flowStateFlowId i)).TableInv cfg := by
  rw [h.deallocate_eq hper hi hin]
  constructor
  · intro j hj
    exact (field_update FlowState.buffer (by rfl) j).trans (h.buffer_eq j hj)
  · intro j hj
    exact (field_update FlowState.flowId (by rfl) j).trans (h.flowId_eq j hj)
  · intro f j
    rw [h.lookup_erase_iff hi hin]
    by_cases hji : j = i
    · subst hji; simp
    · simp [hji]
  · intro j hj
    by_cases hji : j = i
    · subst hji; simpa using (h.wf j hj).reset.1
    · simpa [hji] using h.wf j hj
  · intro j hj hfree
    by_cases hji : j = i
    · subst hji; simpa using (h.wf j hj).reset.2
    · simp only [Function.update_of_ne hji] at hfree ⊢
      exact h.empty j hj hfree
  · intro p j hj
    by_cases hp : p = (t.flowStatePool i).prio
    · subst hp
      simp only [Function.update_self] at hj
      exact h.prio_lt _ j (List.mem_of_mem_erase hj)
    · simp only [Function.update_of_ne hp] at hj
      exact h.prio_lt p j hj
  · exact h.accepts.erase _

/-- Giving a free block to a flow that has none keeps the invariant. -/
theorem TableInv.assign (h : t.TableInv cfg) (hper : cfg.perFlowBuffering = true)
    (hi : i < maxAvailabeFlows) (hfree : (t.flowStatePool i).inUse = false)
    (hnone : t.flowBufferMapping.lookup flow.toFlowTuple = none) (qid : ℕ) :
    (t.assign cfg now flow qid i).TableInv cfg := by
  simp only [FlowTable.assign, hper, if_true]
  constructor
  · intro j hj
    exact (field_update FlowState.buffer (by rfl) j).trans (h.buffer_eq j hj)
  · intro j hj
    exact (field_update FlowState.flowId (by rfl) j).trans (h.flowId_eq j hj)
  · intro f j
    rw [h.lookup_insert_iff hfree hnone]
    by_cases hji : j = i
    · subst hji; simp [hi]
    · simp [hji]
  · exact h.wf
  · intro j hj hfree'
    by_cases hji : j = i
    · subst hji; simp at hfree'
    · simp only [Function.update_of_ne hji] at hfree'
      exact h.empty j hj hfree'
  · intro p j hj
    by_cases hp : p = prioOf flow
    · subst hp
      simp only [Function.update_self, List.mem_append, List.mem_singleton, h.flowId_eq i hi] at hj
      rcases hj with hj | rfl
      · exact h.prio_lt _ j hj
      · exact hi
    · simp only [Function.update_of_ne hp] at hj
      exact h.prio_lt p j hj
  · exact h.accepts.insert _ _

/-! ### Lookups -/

/-- What a lookup of a flow leaves as it was.  It gives a block to the flow only if the buffer of
the block is empty. -/
structure Looked (t t' : FlowTable) (flow : Flow) (i : ℕ) : Prop where
  lt : i < maxAvailabeFlows
  found : t'.flowBufferMapping.lookup flow.toFlowTuple = some i
  contents_eq : ∀ j < maxAvailabeFlows, (t'.buffers j).contents = (t.buffers j).contents
  paused_eq : ∀ j, (t'.flowStatePool j).isPaused = (t.flowStatePool j).isPaused
  inUse_eq : ∀ j, j ≠ i → (t'.flowStatePool j).inUse = (t.flowStatePool j).inUse
  flow_eq : ∀ j, j ≠ i → t'.flowStateFlowId j = t.flowStateFlowId j
  empty : t.flowBufferMapping.lookup flow.toFlowTuple ≠ some i → (t.buffers i).contents = []

/-- Giving a free block to a flow. -/
theorem TableInv.looked_assign (h : t.TableInv cfg) (hi : i < maxAvailabeFlows)
    (hfree : (t.flowStatePool i).inUse = false) (qid : ℕ) :
    Looked t (t.assign cfg now flow qid i) flow i := by
  refine ⟨hi, h.accepts.lookup_insert _ _, fun _ _ => rfl, field_update FlowState.isPaused (by rfl),
    fun j hj => ?_, fun j hj => ?_, fun _ => h.empty i hi hfree⟩
  · simp [FlowTable.assign, hj]
  · simp [FlowTable.assign, hj]

/-- Reclaiming a block with an empty buffer, and giving it to a flow. -/
theorem TableInv.looked_reclaim (h : t.TableInv cfg) (hper : cfg.perFlowBuffering = true)
    (hi : i < maxAvailabeFlows) (hin : (t.flowStatePool i).inUse = true)
    (hempty : (t.buffers i).contents = []) (qid : ℕ) :
    Looked t
      ((t.deallocateFlowState cfg (t.flowStateFlowId i)).assign cfg now flow qid i) flow i := by
  have hinv := h.deallocate hper hi hin
  have heq := h.deallocate_eq hper hi hin
  have hassign : Looked (t.deallocateFlowState cfg (t.flowStateFlowId i))
      ((t.deallocateFlowState cfg (t.flowStateFlowId i)).assign cfg now flow qid i) flow i :=
    hinv.looked_assign hi (by rw [heq]; simp) qid
  refine ⟨hi, hassign.found, fun j hj => ?_, fun j => ?_, fun j hj => ?_, fun j hj => ?_,
    fun _ => hempty⟩
  · rw [hassign.contents_eq j hj, heq]
    by_cases hji : j = i
    · subst hji; simp [(h.wf j hj).reset.2, hempty]
    · simp [hji]
  · rw [hassign.paused_eq j, heq]
    exact field_update FlowState.isPaused (by rfl) j
  · rw [hassign.inUse_eq j hj, heq]
    simp [hj]
  · rw [hassign.flow_eq j hj, heq]

/-- **A lookup keeps the invariant.** -/
theorem TableInv.getFlowState (h : t.TableInv cfg) (hper : cfg.perFlowBuffering = true)
    (hok : t.getFlowState cfg now flow = .ok (t', i)) : t'.TableInv cfg ∧ Looked t t' flow i := by
  obtain ⟨hlook, rfl⟩ | ⟨hnone, u, qid, -, hu, hfind, rfl⟩ := getFlowState_eq_ok hok
  · obtain ⟨hi, -, -⟩ := (h.map_iff _ i).1 hlook
    exact ⟨h.visit _, hi, hlook, fun _ _ => rfl, fun _ => rfl, fun _ _ => rfl, fun _ _ => rfl,
      fun hne => absurd hlook hne⟩
  · obtain ⟨hi, hcase⟩ := of_findBlock (Nat.mod_lt _ (by decide)) hfind
    have huinv : u.TableInv cfg := hu ▸ h.visit _
    have hunone : u.flowBufferMapping.lookup flow.toFlowTuple = none := by rw [hu]; exact hnone
    -- the lookup started from a table that differs in `lastVisit` only
    have hstart : ∀ {v : FlowTable}, Looked u v flow i → Looked t v flow i := by
      intro v hv
      subst hu
      exact ⟨hv.lt, hv.found, hv.contents_eq, hv.paused_eq, hv.inUse_eq, hv.flow_eq, hv.empty⟩
    rcases hcase with hfree | ⟨hin, hcount, -⟩
    · rw [allocate, if_neg (by simp [hfree])]
      exact ⟨huinv.assign hper hi hfree hunone qid, hstart (huinv.looked_assign hi hfree qid)⟩
    · rw [allocate, if_pos hin]
      have hempty : (u.buffers i).contents = [] := by
        rw [huinv.bufferOf_eq hi, (huinv.wf i hi).count_eq] at hcount
        exact List.eq_nil_of_length_eq_zero hcount
      refine ⟨(huinv.deallocate hper hi hin).assign hper hi ?_ ?_ qid,
        hstart (huinv.looked_reclaim hper hi hin hempty qid)⟩
      · rw [huinv.deallocate_eq hper hi hin]; simp
      · rw [huinv.deallocate_eq hper hi hin]
        by_cases hf : flow.toFlowTuple = (u.flowStateFlowId i).toFlowTuple
        · rw [hf]; exact HashTable.lookup_erase _ _
        · exact (HashTable.lookup_erase_ne hf).trans hunone

/-- A flow has the same block after a lookup, as far as blocks that hold packets are concerned. -/
theorem Looked.lookup_iff {f : FlowTuple} {j : ℕ} (hl : Looked t t' flow i) (h : t.TableInv cfg)
    (h' : t'.TableInv cfg) (hne : (t.buffers j).contents ≠ []) :
    t'.flowBufferMapping.lookup f = some j ↔ t.flowBufferMapping.lookup f = some j := by
  by_cases hji : j = i
  · subst hji
    -- a block with packets that the lookup returns was the block of the flow before
    have hold : t.flowBufferMapping.lookup flow.toFlowTuple = some j := by
      by_contra hnot
      exact hne (hl.empty hnot)
    constructor
    · intro hf
      rw [← ((h'.map_iff f j).1 hf).2.2, ((h'.map_iff _ j).1 hl.found).2.2]
      exact hold
    · intro hf
      rw [← ((h.map_iff f j).1 hf).2.2, ((h.map_iff _ j).1 hold).2.2]
      exact hl.found
  · rw [h'.map_iff, h.map_iff, hl.inUse_eq j hji, hl.flow_eq j hji]

/-! ### Runs -/

/-- A lookup, packets that enter the buffer of a block, or packets that leave it. -/
inductive Op
  | getFlowState (now : ℕ) (flow : Flow)
  | enqueue (i : ℕ) (pkts : List Packet)
  | drain (i n : ℕ)

/-- One operation.  Packets leave a buffer when it is primed and flushed. -/
def step (cfg : QueueOutConfig) (t : FlowTable) : Op → Except Fatal FlowTable
  | .getFlowState now flow => (t.getFlowState cfg now flow).map Prod.fst
  | .enqueue i pkts => .ok { t with
      buffers := Function.update t.buffers (t.flowStatePool i).buffer
        ((t.bufferOf i).pktbufferEnqueue pkts).1 }
  | .drain i n =>
    match (t.bufferOf i).pktbufferPrime with
    | .error e => .error (.buffer e)
    | .ok (b, k) =>
      match b.pktbufferFlush (min n k) with
      | .error e => .error (.buffer e)
      | .ok b => .ok { t with buffers := Function.update t.buffers (t.flowStatePool i).buffer b }

/-- Packets enter only the buffers of blocks that are in use. -/
def usesBlocks (t : FlowTable) : Op → Bool
  | .getFlowState _ _ => true
  | .enqueue i _ => decide (i < maxAvailabeFlows) && (t.flowStatePool i).inUse
  | .drain i _ => decide (i < maxAvailabeFlows)

theorem step_getFlowState_eq_ok {now : ℕ} {flow : Flow} :
    t.step cfg (.getFlowState now flow) = .ok t' ↔
      ∃ i, t.getFlowState cfg now flow = .ok (t', i) := by
  rw [FlowTable.step]
  cases t.getFlowState cfg now flow <;> simp [Except.map, Prod.ext_iff]

/-- Packets that leave change buffers only. -/
theorem buffers_of_step_drain {n : ℕ} (h : t.step cfg (.drain i n) = .ok t') :
    ∃ b, t' = { t with buffers := b } := by
  simp only [FlowTable.step] at h
  split at h
  · cases h
  · split at h
    · cases h
    · cases h
      exact ⟨_, rfl⟩

/-- A change of the contents of one buffer. -/
theorem TableInv.setBuffer {b : PktBuffer Packet} (h : t.TableInv cfg)
    (hb : b.WF cfg.maxBufferSize)
    (hempty : (t.flowStatePool i).inUse = false → b.contents = []) :
    { t with buffers := Function.update t.buffers i b }.TableInv cfg := by
  refine ⟨h.buffer_eq, h.flowId_eq, h.map_iff, fun j hj => ?_, fun j hj hfree => ?_, h.prio_lt,
    h.accepts⟩
  · by_cases hji : j = i
    · subst hji; simpa using hb
    · simpa [hji] using h.wf j hj
  · by_cases hji : j = i
    · subst hji; simpa using hempty hfree
    · simpa [hji] using h.empty j hj hfree

/-- Every operation keeps the invariant. -/
theorem TableInv.step {op : Op} (h : t.TableInv cfg) (hper : cfg.perFlowBuffering = true)
    (hop : t.usesBlocks op = true) (hok : t.step cfg op = .ok t') : t'.TableInv cfg := by
  cases op with
  | getFlowState now flow =>
    obtain ⟨i, hget⟩ := step_getFlowState_eq_ok.1 hok
    exact (h.getFlowState hper hget).1
  | enqueue i pkts =>
    obtain ⟨hi, hin⟩ := Bool.and_eq_true_iff.1 hop
    have hi := of_decide_eq_true hi
    cases hok
    rw [h.bufferOf_eq hi, h.buffer_eq i hi]
    exact h.setBuffer ((h.wf i hi).enqueue_spec pkts).1 fun hfree => by simp [hin] at hfree
  | drain i n =>
    have hi : i < maxAvailabeFlows := of_decide_eq_true hop
    obtain ⟨b, hprime, hbwf, hbcont, htail⟩ := (h.wf i hi).prime_spec
    obtain ⟨b', hflush, hbwf', hbcont'⟩ :=
      hbwf.flush_spec (n := min n (min peekSize (t.buffers i).contents.length)) (by omega)
    simp only [FlowTable.step, h.bufferOf_eq hi, hprime, hflush, h.buffer_eq i hi] at hok
    cases hok
    refine h.setBuffer hbwf' fun hfree => ?_
    rw [hbcont', hbcont, h.empty i hi hfree, List.drop_nil]

/-- **Flows and blocks correspond.**  In every run of lookups, with buffers filled and drained in
between, a flow is mapped to a block exactly if the block is in use by it; so no two flows share a
block and no flow has two.  The next lookup leaves every block whose buffer holds packets to its
flow. -/
theorem flows_blocks_bijection {t₀ : FlowTable} (hbuf : cfg.buffering = true)
    (hper : cfg.perFlowBuffering = true) (hpow : Llring.PowTwo cfg.maxBufferSize)
    (h₀ : setup cfg = some t₀) (ht : Run.ReachIf (step cfg) usesBlocks t₀ t) :
    (∀ (f : Flow) (i : ℕ), t.flowBufferMapping.lookup f.toFlowTuple = some i ↔
      i < maxAvailabeFlows ∧ (t.flowStatePool i).inUse = true ∧
        (t.flowStateFlowId i).equalTo f = true) ∧
    (∀ (f g : Flow) (i : ℕ), t.flowBufferMapping.lookup f.toFlowTuple = some i →
      t.flowBufferMapping.lookup g.toFlowTuple = some i → f.equalTo g = true) ∧
    (∀ i < maxAvailabeFlows, ∀ j < maxAvailabeFlows, (t.flowStatePool i).inUse = true →
      (t.flowStatePool j).inUse = true →
        (t.flowStateFlowId i).equalTo (t.flowStateFlowId j) = true → i = j) ∧
    ∀ now flow t' i, t.getFlowState cfg now flow = .ok (t', i) → ∀ j < maxAvailabeFlows,
      (t.buffers j).contents ≠ [] → (t'.flowStatePool j).inUse = true ∧
        (t'.flowStateFlowId j).equalTo (t.flowStateFlowId j) = true := by
  have h : t.TableInv cfg :=
    ht.invariant (P := TableInv cfg) (TableInv.setup hbuf hpow h₀)
      fun _ _ _ hu hop hstep => hu.step hper hop hstep
  simp only [Flow.equalTo_iff]
  refine ⟨fun f i => h.map_iff _ i, fun f g i hf hg => ?_, fun i hi j hj hini hinj hflow => ?_,
    fun now flow t' i hget j hj hne => ?_⟩
  · exact ((h.map_iff _ i).1 hf).2.2.symm.trans ((h.map_iff _ i).1 hg).2.2
  · have h1 := (h.map_iff _ i).2 ⟨hi, hini, hflow⟩
    have h2 := (h.map_iff _ j).2 ⟨hj, hinj, rfl⟩
    exact Option.some.inj (h1.symm.trans h2)
  · obtain ⟨hinv, hlooked⟩ := h.getFlowState hper hget
    by_cases hji : j = i
    · subst hji
      have hmapped : t.flowBufferMapping.lookup flow.toFlowTuple = some j := by
        by_contra hne'
        exact hne (hlooked.empty hne')
      obtain ⟨-, hin, hflow⟩ := (hinv.map_iff _ j).1 hlooked.found
      exact ⟨hin, hflow.trans ((h.map_iff _ j).1 hmapped).2.2.symm⟩
    · have hin : (t.flowStatePool j).inUse = true := by
        by_contra hfree
        exact hne (h.empty j hj (by simpa using hfree))
      exact ⟨(hlooked.inUse_eq j hji).trans hin, by rw [hlooked.flow_eq j hji]⟩

/-- The settings of a module with one queue, backpressure and per-flow buffers. -/
def perFlowConfig (maxBufferSize : ℕ) : QueueOutConfig :=
  ⟨maxBufferSize, [0], true, true, false, true, false⟩

/-- The UDP flow to a port. -/
def udpTo (portDst : ℕ) : Flow := ⟨⟨1, 2, 1000, portDst, 17⟩, 0, 0⟩

/-- Two flows, the first of which has a packet in its buffer. -/
theorem flows_blocks_bijection_two_flows :
    ∃ t₀ t, setup (perFlowConfig 4) = some t₀ ∧
      Run.ReachIf (step (perFlowConfig 4)) usesBlocks t₀ t ∧
      (t.flowBufferMapping.lookup (udpTo 80).toFlowTuple = some 0 ∧
        t.flowBufferMapping.lookup (udpTo 50).toFlowTuple = some 1 ∧
        (t.buffers 0).contents = [⟨7, udpTo 80⟩]) ∧
      ∀ (f : Flow) (i : ℕ), t.flowBufferMapping.lookup f.toFlowTuple = some i ↔
        i < maxAvailabeFlows ∧ (t.flowStatePool i).inUse = true ∧
          (t.flowStateFlowId i).equalTo f = true := by
  have hrun : ((setup (perFlowConfig 4)).bind fun t₀ =>
      (Run.exec (step (perFlowConfig 4)) usesBlocks t₀
        [.getFlowState 5 (udpTo 80), .enqueue 0 [⟨6, udpTo 80⟩, ⟨7, udpTo 80⟩],
          .getFlowState 6 (udpTo 50), .drain 0 1, .getFlowState 7 (udpTo 80)]).map fun t =>
      decide (t.flowBufferMapping.lookup (udpTo 80).toFlowTuple = some 0 ∧
        t.flowBufferMapping.lookup (udpTo 50).toFlowTuple = some 1 ∧
        (t.buffers 0).contents = [⟨7, udpTo 80⟩])) = some true := by
    decide +kernel
  obtain ⟨t₀, t, h₀, hreach, hdec⟩ := Run.exists_init_reachIf _ hrun
  exact ⟨t₀, t, h₀, hreach, of_decide_eq_true hdec,
    (flows_blocks_bijection rfl rfl ⟨2, by decide, rfl⟩ h₀ hreach).1⟩

end FlowTable

end Backdraft

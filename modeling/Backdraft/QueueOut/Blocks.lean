import Backdraft.Lib.CyclicSearch
import Backdraft.QueueOut.FlowInvariant

/-!
# The search for a block

`GetFlowState` gives a new flow the next block, in cyclic order, that is free or idle.  The search
begins behind `fsp_top_`, the block allocated last, and stops when it comes back to it.

* `Owned.getFlowState`: what a lookup does to the blocks and to the map, in all modes;
* `getFlowState_finds_iff`: when a new flow gets a block;
* `pool_overflows_idle`: a pool whose one idle block is the one allocated last.
-/

namespace Backdraft

namespace FlowTable

open Word CyclicSearch

variable {cfg : QueueOutConfig} {t t' t₀ : FlowTable} {now i n : ℕ} {flow : Flow}

/-- The block can be given to a new flow: it is free, or its buffer is empty and it was allocated
more than `flow_dealloc_limit` ago. -/
def Usable (t : FlowTable) (now i : ℕ) : Prop :=
  (t.flowStatePool i).inUse = false ∨
    (t.bufferOf i).pktbufferCount = 0 ∧ flowDeallocLimit < wsub 64 now (t.flowStatePool i).lastUsed

instance (t : FlowTable) (now i : ℕ) : Decidable (t.Usable now i) :=
  inferInstanceAs (Decidable (_ ∨ _))

/-! ### What a lookup does -/

/-- The flow of a block in use is mapped to it, and no flow is refused. -/
structure Owned (t : FlowTable) : Prop where
  mapped : ∀ i, (t.flowStatePool i).inUse = true →
    t.flowBufferMapping.lookup (t.flowStateFlowId i).toFlowTuple = some i
  accepts : t.flowBufferMapping.Accepts

/-- The block `i` is given to a new flow.  If it was in use, its flow loses it. -/
structure Allocates (cfg : QueueOutConfig) (t t' : FlowTable) (now : ℕ) (flow : Flow) (i : ℕ) :
    Prop where
  lt : i < maxAvailabeFlows
  usable : t.Usable now i
  top_eq : t'.fspTop = i
  inUse : (t'.flowStatePool i).inUse = true
  qid_eq : (t'.flowStatePool i).qid = t.chooseQueue cfg
  lastUsed_eq : (t'.flowStatePool i).lastUsed = now
  flowId_eq : (t'.flowStatePool i).flowId = (t.flowStatePool i).flowId
  buffer_eq : cfg.perFlowBuffering = true →
    (t'.flowStatePool i).buffer = (t.flowStatePool i).buffer
  buffers_eq : (t.flowStatePool i).inUse = false → t'.buffers = t.buffers
  pool_eq : ∀ j, j ≠ i → t'.flowStatePool j = t.flowStatePool j
  mem_prioQueue : ∀ p, ∀ j ∈ t'.prioQueue p, j ∈ t.prioQueue p ∨ j = (t.flowStatePool i).flowId
  flow_eq : t'.flowStateFlowId = Function.update t.flowStateFlowId i flow
  lastVisit_eq : t'.lastVisit = Function.update t.lastVisit (t.chooseQueue cfg) now
  lookup_eq : ∀ f, t'.flowBufferMapping.lookup f =
    if f = flow.toFlowTuple then some i
    else if (t.flowStatePool i).inUse = true ∧ f = (t.flowStateFlowId i).toFlowTuple then none
    else t.flowBufferMapping.lookup f
  accepts : t'.flowBufferMapping.Accepts

theorem Owned.setup (h : setup cfg = some t) : t.Owned := by
  obtain ⟨b, rfl⟩ := setup_eq_some h
  exact ⟨fun i hin => Bool.noConfusion hin, HashTable.accepts_empty⟩

theorem Owned.deallocate_eq (h : t.Owned) (hin : (t.flowStatePool i).inUse = true) :
    t.deallocateFlowState cfg (t.flowStateFlowId i) = { t with
      prioQueue := Function.update t.prioQueue (t.flowStatePool i).prio
        ((t.prioQueue (t.flowStatePool i).prio).erase (t.flowStatePool i).prio)
      buffers :=
        if cfg.perFlowBuffering then
          Function.update t.buffers (t.flowStatePool i).buffer
            ((t.buffers (t.flowStatePool i).buffer).reset cfg.maxBufferSize)
        else t.buffers
      flowBufferMapping := t.flowBufferMapping.erase (t.flowStateFlowId i).toFlowTuple
      flowStatePool :=
        Function.update t.flowStatePool i { t.flowStatePool i with inUse := false } } := by
  simp only [deallocateFlowState, h.mapped i hin]

/-- The block is free, or its flow has been removed from the table. -/
theorem allocates_assign {u : FlowTable} (hi : i < maxAvailabeFlows) (husable : t.Usable now i)
    (hpool : ∀ j, j ≠ i → u.flowStatePool j = t.flowStatePool j)
    (hid : (u.flowStatePool i).flowId = (t.flowStatePool i).flowId)
    (hbuffer : (u.flowStatePool i).buffer = (t.flowStatePool i).buffer)
    (hbuffers : (t.flowStatePool i).inUse = false → u.buffers = t.buffers)
    (hprio : ∀ p, ∀ j ∈ u.prioQueue p, j ∈ t.prioQueue p)
    (hflow : u.flowStateFlowId = t.flowStateFlowId)
    (hvisit : u.lastVisit = Function.update t.lastVisit (t.chooseQueue cfg) now)
    (hlook : ∀ f, u.flowBufferMapping.lookup f =
      if (t.flowStatePool i).inUse = true ∧ f = (t.flowStateFlowId i).toFlowTuple then none
      else t.flowBufferMapping.lookup f)
    (haccepts : u.flowBufferMapping.Accepts) :
    Allocates cfg t (u.assign cfg now flow (t.chooseQueue cfg) i) now flow i where
  lt := hi
  usable := husable
  top_eq := rfl
  inUse := by simp [assign]
  qid_eq := by simp [assign]
  lastUsed_eq := by simp [assign]
  flowId_eq := by simp [assign, hid]
  buffer_eq := fun hper => by simp [assign, hper, hbuffer]
  buffers_eq := hbuffers
  pool_eq := fun j hj => by simp [assign, Function.update_of_ne hj, hpool j hj]
  mem_prioQueue := by
    intro p j hj
    simp only [assign, Function.update_apply, hid] at hj
    split_ifs at hj with hp
    · rcases List.mem_append.1 hj with hmem | hmem
      · exact .inl (hp ▸ hprio _ j hmem)
      · exact .inr (List.mem_singleton.1 hmem)
    · exact .inl (hprio p j hj)
  flow_eq := by simp [assign, hflow]
  lastVisit_eq := hvisit
  lookup_eq := by
    intro f
    simp only [assign]
    split_ifs with hf hold
    · rw [hf, haccepts.lookup_insert]
    · rw [HashTable.lookup_insert_ne hf, hlook, if_pos hold]
    · rw [HashTable.lookup_insert_ne hf, hlook, if_neg hold]
  accepts := haccepts.insert _ _

/-- A new flow gets a block. -/
theorem Owned.allocates (h : t.Owned) (hnone : t.flowBufferMapping.lookup flow.toFlowTuple = none)
    (hget : t.getFlowState cfg now flow = .ok (t', i)) : Allocates cfg t t' now flow i := by
  obtain ⟨hsome, -⟩ | ⟨-, u, qid, rfl, hu, hfind, rfl⟩ := getFlowState_eq_ok hget
  · exact absurd (hnone.symm.trans hsome) (by simp)
  obtain ⟨hi, hfound⟩ := of_findBlock (Nat.mod_lt _ (by decide)) hfind
  have husable : t.Usable now i := by
    subst hu
    exact hfound.imp_right fun hidle => hidle.2
  have hown : u.Owned := hu ▸ ⟨h.mapped, h.accepts⟩
  unfold allocate
  split_ifs with hin
  · rw [hown.deallocate_eq hin]
    subst hu
    refine allocates_assign hi husable (fun j hj => ?_) ?_ ?_ (fun hfree => ?_)
      (fun p j hj => ?_) rfl rfl (fun f => ?_) (h.accepts.erase _)
    · exact Function.update_of_ne hj _ _
    · simp
    · simp
    · exact absurd (hfree.symm.trans hin) (by decide)
    · simp only [Function.update_apply] at hj
      split_ifs at hj with hp
      · exact hp ▸ List.mem_of_mem_erase hj
      · exact hj
    · change (t.flowBufferMapping.erase (t.flowStateFlowId i).toFlowTuple).lookup f = _
      split_ifs with hold
      · rw [hold.2, HashTable.lookup_erase]
      · rw [HashTable.lookup_erase_ne fun heq => hold ⟨hin, heq⟩]
  · subst hu
    refine allocates_assign hi husable (fun j _ => rfl) rfl rfl (fun _ => rfl)
      (fun p j hj => hj) rfl rfl (fun f => ?_) h.accepts
    rw [if_neg fun hold => hin hold.1]

/-- The lookup of a flow finds its block or gives it one, and keeps the blocks owned. -/
theorem Owned.getFlowState (h : t.Owned) (hget : t.getFlowState cfg now flow = .ok (t', i)) :
    t'.Owned ∧
      (t.flowBufferMapping.lookup flow.toFlowTuple = some i ∧
          t' = { t with lastVisit := Function.update t.lastVisit (t.flowStatePool i).qid now } ∨
        t.flowBufferMapping.lookup flow.toFlowTuple = none ∧ Allocates cfg t t' now flow i) := by
  cases hlook : t.flowBufferMapping.lookup flow.toFlowTuple with
  | some j =>
    rw [getFlowState_of_lookup hlook] at hget
    cases hget
    exact ⟨⟨h.mapped, h.accepts⟩, .inl ⟨rfl, rfl⟩⟩
  | none =>
    have halloc := h.allocates hlook hget
    refine ⟨⟨fun j hin => ?_, halloc.accepts⟩, .inr ⟨rfl, halloc⟩⟩
    rw [halloc.flow_eq, halloc.lookup_eq]
    by_cases hj : j = i
    · rw [hj, Function.update_self, if_pos rfl]
    · rw [halloc.pool_eq j hj] at hin
      have hown := h.mapped j hin
      rw [Function.update_of_ne hj, if_neg, if_neg, hown]
      · -- two blocks do not have one flow
        rintro ⟨hused, heq⟩
        exact hj (Option.some.inj (hown.symm.trans (heq ▸ h.mapped i hused)))
      · intro heq
        rw [heq, hlook] at hown
        cases hown

/-- After a lookup the flow has the block. -/
theorem Owned.lookup_getFlowState (h : t.Owned) (hget : t.getFlowState cfg now flow = .ok (t', i)) :
    t'.flowBufferMapping.lookup flow.toFlowTuple = some i := by
  obtain ⟨-, ⟨hlook, rfl⟩ | ⟨-, halloc⟩⟩ := h.getFlowState hget
  · exact hlook
  · rw [halloc.lookup_eq, if_pos rfl]

/-! ### When a block is found -/

theorem findBlock_eq_search (hbuf : cfg.buffering = true) (rounds start : ℕ) :
    t.findBlock cfg now rounds start =
      (search maxAvailabeFlows t.fspTop (fun i => decide (t.Usable now i)) rounds start).elim
        (.error .poolOverflow) .ok := by
  induction rounds generalizing start with
  | zero => rfl
  | succ rounds ih =>
    rw [findBlock, search]
    by_cases htop : start = t.fspTop
    · rw [if_pos htop, if_pos htop]
      rfl
    rw [if_neg htop, if_neg htop]
    by_cases hfree : (t.flowStatePool start).inUse = false
    · rw [if_pos hfree, if_pos (decide_eq_true (.inl hfree))]
      rfl
    rw [if_neg hfree, if_neg (by simp [hbuf])]
    by_cases hidle : (t.bufferOf start).pktbufferCount = 0 ∧
        flowDeallocLimit < wsub 64 now (t.flowStatePool start).lastUsed
    · rw [if_pos hidle, if_pos (decide_eq_true (.inr hidle))]
      rfl
    · rw [if_neg hidle, if_neg fun h => (of_decide_eq_true h).elim hfree hidle, ih]

/-- `fsp_top_` is a block, or it has its first value and all blocks are free. -/
def CursorInv (t : FlowTable) : Prop :=
  t.fspTop < maxAvailabeFlows ∨
    t.fspTop = 2 ^ 32 - 1 ∧ ∀ i, (t.flowStatePool i).inUse = false

theorem CursorInv.setup (h : setup cfg = some t) : t.CursorInv := by
  obtain ⟨b, rfl⟩ := setup_eq_some h
  exact .inr ⟨rfl, fun _ => rfl⟩

theorem CursorInv.getFlowState (h : t.CursorInv) (hown : t.Owned)
    (hget : t.getFlowState cfg now flow = .ok (t', i)) : t'.CursorInv := by
  obtain ⟨-, ⟨-, rfl⟩ | ⟨-, halloc⟩⟩ := hown.getFlowState hget
  · exact h
  · exact .inl (halloc.top_eq ▸ halloc.lt)

/-- The search of a new flow sees every block but the one allocated last. -/
theorem CursorInv.exists_findBlock_iff (h : t.CursorInv) (hbuf : cfg.buffering = true) :
    (∃ i, t.findBlock cfg now maxAvailabeFlows (wadd 32 t.fspTop 1 % maxAvailabeFlows) = .ok i) ↔
      ∃ i < maxAvailabeFlows, i ≠ t.fspTop ∧ t.Usable now i := by
  have hok : ∀ o : Option ℕ, (∃ i, o.elim (.error .poolOverflow) .ok =
      (.ok i : Except Fatal ℕ)) ↔ o.isSome = true := by
    rintro (- | j) <;> simp
  rw [findBlock_eq_search hbuf, hok]
  obtain hlt | ⟨htop, hfree⟩ := h
  · rw [wadd_of_lt (lt_trans (Nat.succ_lt_succ hlt) (by decide)), isSome_search_iff hlt]
    simp only [decide_eq_true_eq]
  · have hstart : wadd 32 t.fspTop 1 % maxAvailabeFlows = 0 := by
      rw [htop]
      unfold wadd
      decide
    have hne : 0 ≠ t.fspTop := by
      rw [htop]
      decide
    rw [hstart, search_of_pos (by decide) hne (decide_eq_true (.inl (hfree 0)))]
    exact iff_of_true rfl ⟨0, by decide, hne, .inl (hfree 0)⟩

/-- The search looks neither at the mapping nor at the visits. -/
theorem findBlock_mapping_visit (mapping : HashTable FlowTuple ℕ) (v : ℕ → ℕ) (rounds start : ℕ) :
    FlowTable.findBlock cfg { t with flowBufferMapping := mapping, lastVisit := v } now rounds
      start = t.findBlock cfg now rounds start := by
  induction rounds generalizing start with
  | zero => rfl
  | succ rounds ih =>
    simp only [findBlock, ih]
    rfl

theorem findBlock_visit (v : ℕ → ℕ) (rounds start : ℕ) :
    FlowTable.findBlock cfg { t with lastVisit := v } now rounds start =
      t.findBlock cfg now rounds start :=
  findBlock_mapping_visit t.flowBufferMapping v rounds start

/-- A lookup of a new flow fails if the search does. -/
theorem exists_getFlowState_iff (hnone : t.flowBufferMapping.lookup flow.toFlowTuple = none) :
    (∃ r, t.getFlowState cfg now flow = .ok r) ↔
      ∃ i, t.findBlock cfg now maxAvailabeFlows (wadd 32 t.fspTop 1 % maxAvailabeFlows) =
        .ok i := by
  simp only [getFlowState, hnone, findBlock_visit]
  cases t.findBlock cfg now maxAvailabeFlows (wadd 32 t.fspTop 1 % maxAvailabeFlows) with
  | error e => simp
  | ok i => simp

/-- A new flow gets the block behind the one allocated last, if that can be had. -/
theorem exists_getFlowState_of_usable (hbuf : cfg.buffering = true)
    (hnone : t.flowBufferMapping.lookup flow.toFlowTuple = none)
    (hnext : wadd 32 t.fspTop 1 % maxAvailabeFlows = i) (hne : i ≠ t.fspTop)
    (husable : t.Usable now i) : ∃ t', t.getFlowState cfg now flow = .ok (t', i) := by
  have hfind : t.findBlock cfg now maxAvailabeFlows i = .ok i := by
    rw [findBlock_eq_search hbuf, search_of_pos (by decide) hne (decide_eq_true husable)]
    rfl
  simp only [getFlowState, hnone, findBlock_visit, hnext, hfind]
  exact ⟨_, rfl⟩

theorem eq_poolOverflow_of_getFlowState {e : Fatal} (hbuf : cfg.buffering = true)
    (h : t.getFlowState cfg now flow = .error e) : e = .poolOverflow := by
  cases hlook : t.flowBufferMapping.lookup flow.toFlowTuple with
  | some i =>
    rw [getFlowState_of_lookup hlook] at h
    cases h
  | none =>
    simp only [FlowTable.getFlowState, hlook, findBlock_eq_search hbuf] at h
    split at h
    · rename_i e' hsearch
      cases h
      generalize search _ _ _ _ _ = found at hsearch
      cases found with
      | none => exact (Except.error.inj hsearch).symm
      | some i => cases hsearch
    · cases h

/-- A new flow that finds no block ends the program. -/
theorem CursorInv.getFlowState_eq_error (h : t.CursorInv) (hbuf : cfg.buffering = true)
    (hnone : t.flowBufferMapping.lookup flow.toFlowTuple = none)
    (hfull : ∀ i < maxAvailabeFlows, i ≠ t.fspTop → ¬t.Usable now i) :
    t.getFlowState cfg now flow = .error .poolOverflow := by
  cases hget : t.getFlowState cfg now flow with
  | error e => rw [eq_poolOverflow_of_getFlowState hbuf hget]
  | ok r =>
    obtain ⟨i, hi, hne, husable⟩ := (h.exists_findBlock_iff hbuf).1
      ((exists_getFlowState_iff hnone).1 ⟨r, hget⟩)
    exact absurd husable (hfull i hi hne)

theorem owned_cursorInv_of_reach (h₀ : setup cfg = some t₀)
    (ht : Run.ReachIf (step cfg) usesBlocks t₀ t) : t.Owned ∧ t.CursorInv := by
  refine ht.invariant (P := fun t => t.Owned ∧ t.CursorInv) ⟨.setup h₀, .setup h₀⟩ ?_
  rintro u op v ⟨hown, hcur⟩ - hstep
  cases op with
  | getFlowState now flow =>
    obtain ⟨i, hget⟩ := step_getFlowState_eq_ok.1 hstep
    exact ⟨(hown.getFlowState hget).1, hcur.getFlowState hown hget⟩
  | enqueue i pkts =>
    cases hstep
    exact ⟨⟨hown.mapped, hown.accepts⟩, hcur⟩
  | drain i n =>
    obtain ⟨b, rfl⟩ := buffers_of_step_drain hstep
    exact ⟨⟨hown.mapped, hown.accepts⟩, hcur⟩

/-- **A new flow gets a block exactly if one other than the block allocated last is free or idle.**
The search stops at `fsp_top_` without looking at it. -/
theorem getFlowState_finds_iff (hbuf : cfg.buffering = true) (h₀ : setup cfg = some t₀)
    (ht : Run.ReachIf (step cfg) usesBlocks t₀ t)
    (hnone : t.flowBufferMapping.lookup flow.toFlowTuple = none) :
    (∃ r, t.getFlowState cfg now flow = .ok r) ↔
      ∃ i < maxAvailabeFlows, i ≠ t.fspTop ∧ t.Usable now i := by
  rw [exists_getFlowState_iff hnone]
  exact (owned_cursorInv_of_reach h₀ ht).2.exists_findBlock_iff hbuf

/-- A second flow gets a block. -/
theorem getFlowState_finds_second :
    ∃ t₀ t, setup (perFlowConfig 4) = some t₀ ∧
      Run.ReachIf (step (perFlowConfig 4)) usesBlocks t₀ t ∧
      t.fspTop = 0 ∧ ∃ r, t.getFlowState (perFlowConfig 4) 6 (udpTo 50) = .ok r := by
  have hrun : ((setup (perFlowConfig 4)).bind fun t₀ =>
      (Run.exec (step (perFlowConfig 4)) usesBlocks t₀ [.getFlowState 5 (udpTo 80)]).map fun t =>
      decide (t.fspTop = 0 ∧ t.flowBufferMapping.lookup (udpTo 50).toFlowTuple = none ∧
        t.Usable 6 1)) = some true := by
    decide +kernel
  obtain ⟨t₀, t, h₀, hreach, hdec⟩ := Run.exists_init_reachIf _ hrun
  obtain ⟨htop, hnone, husable⟩ := of_decide_eq_true hdec
  refine ⟨t₀, t, h₀, hreach, htop, (getFlowState_finds_iff rfl h₀ hreach hnone).2 ?_⟩
  exact ⟨1, by decide, by rw [htop]; decide, husable⟩

/-! ### A full pool -/

/-- The blocks below `n` have been allocated one after the other, and the flows from `udpTo n` on
are still to come. -/
structure Packed (t : FlowTable) (n : ℕ) : Prop where
  next_eq : wadd 32 t.fspTop 1 = n
  free : ∀ i < maxAvailabeFlows, n ≤ i → (t.flowStatePool i).inUse = false
  new : ∀ m ≤ maxAvailabeFlows, n ≤ m → t.flowBufferMapping.lookup (udpTo m).toFlowTuple = none

theorem Packed.setup (h : setup cfg = some t) : t.Packed 0 := by
  obtain ⟨b, rfl⟩ := setup_eq_some h
  refine ⟨?_, fun _ _ _ => rfl, fun _ _ _ => rfl⟩
  change wadd 32 (2 ^ 32 - 1) 1 = 0
  unfold wadd
  decide

theorem Packed.top_eq (h : t.Packed n) (hcur : t.CursorInv) (hpos : 0 < n) : t.fspTop + 1 = n := by
  have hnext := h.next_eq
  obtain hlt | ⟨htop, -⟩ := hcur
  · rwa [wadd_of_lt (lt_trans (Nat.succ_lt_succ hlt) (by decide))] at hnext
  · have hzero : wadd 32 (2 ^ 32 - 1) 1 = 0 := by
      unfold wadd
      decide
    rw [htop, hzero] at hnext
    omega

/-- The next flow gets the next block. -/
theorem Packed.getFlowState (h : t.Packed n) (hbuf : cfg.buffering = true) (hown : t.Owned)
    (hn : n < maxAvailabeFlows) (now : ℕ) :
    ∃ t', t.getFlowState cfg now (udpTo n) = .ok (t', n) ∧
      Allocates cfg t t' now (udpTo n) n ∧ t'.Packed (n + 1) := by
  have hnone := h.new n hn.le le_rfl
  have hfree := h.free n hn le_rfl
  have hsucc : wadd 32 n 1 = n + 1 := wadd_of_lt (lt_trans (Nat.succ_lt_succ hn) (by decide))
  have hne : n ≠ t.fspTop := by
    intro heq
    have hnext := h.next_eq
    rw [← heq, hsucc] at hnext
    omega
  obtain ⟨t', hget⟩ := exists_getFlowState_of_usable hbuf hnone
    (by rw [h.next_eq, Nat.mod_eq_of_lt hn]) hne (.inl hfree : t.Usable now n)
  have halloc := hown.allocates hnone hget
  refine ⟨t', hget, halloc, ?_, fun i hi hle => ?_, fun m hm hle => ?_⟩
  · rw [halloc.top_eq, hsucc]
  · rw [halloc.pool_eq i (by omega)]
    exact h.free i hi (by omega)
  · have hdiff : (udpTo m).toFlowTuple ≠ (udpTo n).toFlowTuple := by
      intro heq
      have hport : m = n := congrArg FlowTuple.portDst heq
      omega
    rw [halloc.lookup_eq, if_neg hdiff, if_neg (by simp [hfree])]
    exact h.new m hm (by omega)

/-- Each of the first `n` blocks was allocated at time 0 and holds one packet. -/
structure Held (cfg : QueueOutConfig) (t : FlowTable) (n : ℕ) : Prop extends Packed t n where
  table : t.TableInv cfg
  inUse : ∀ i < n, (t.flowStatePool i).inUse = true
  lastUsed : ∀ i < n, (t.flowStatePool i).lastUsed = 0
  stored : ∀ i < n, (t.buffers i).contents.length = 1

/-- One more flow comes and sends a packet. -/
theorem Held.next (h : Held cfg t n) (hbuf : cfg.buffering = true)
    (hper : cfg.perFlowBuffering = true) (hsize : 2 ≤ cfg.maxBufferSize)
    (hn : n < maxAvailabeFlows) (hown : t.Owned) :
    ∃ t', Run.ReachIf (step cfg) usesBlocks t t' ∧ Held cfg t' (n + 1) := by
  obtain ⟨t₁, hget, halloc, hpacked⟩ := h.toPacked.getFlowState hbuf hown hn 0
  obtain ⟨htable, hlooked⟩ := h.table.getFlowState hper hget
  have hwf := htable.wf n hn
  have hempty : (t₁.buffers n).contents = [] := by
    rw [hlooked.contents_eq n hn]
    exact h.table.empty n hn (h.free n hn le_rfl)
  have hbuffer := htable.buffer_eq n hn
  have hop : t₁.usesBlocks (.enqueue n [default]) = true := by
    simp [usesBlocks, hn, halloc.inUse]
  refine ⟨_, (Relation.ReflTransGen.single ⟨.getFlowState 0 (udpTo n), rfl,
    step_getFlowState_eq_ok.2 ⟨n, hget⟩⟩).tail ⟨.enqueue n [default], hop, rfl⟩,
    ⟨hpacked.next_eq, hpacked.free, hpacked.new⟩, htable.step hper hop rfl,
    fun i hi => ?_, fun i hi => ?_, fun i hi => ?_⟩
  · rcases Nat.lt_succ_iff_lt_or_eq.1 hi with hlt | rfl
    · exact (halloc.pool_eq i hlt.ne).symm ▸ h.inUse i hlt
    · exact halloc.inUse
  · rcases Nat.lt_succ_iff_lt_or_eq.1 hi with hlt | rfl
    · exact (halloc.pool_eq i hlt.ne).symm ▸ h.lastUsed i hlt
    · exact halloc.lastUsed_eq
  · simp only [hbuffer, htable.bufferOf_eq hn]
    rcases Nat.lt_succ_iff_lt_or_eq.1 hi with hlt | rfl
    · rw [Function.update_of_ne hlt.ne, hlooked.contents_eq i (by omega), h.stored i hlt]
    · have hlen := hwf.length_contents
      rw [hempty] at hlen
      rw [Function.update_self, (hwf.enqueue_spec _).2.2, hempty, List.nil_append,
        hwf.enqueue_count]
      simp only [List.length_nil, List.length_cons, List.length_take] at hlen ⊢
      omega

theorem exists_held (hbuf : cfg.buffering = true) (hper : cfg.perFlowBuffering = true)
    (hpow : Llring.PowTwo cfg.maxBufferSize) (hsize : 2 ≤ cfg.maxBufferSize)
    (h₀ : setup cfg = some t₀) (hn : n ≤ maxAvailabeFlows) :
    ∃ t, Run.ReachIf (step cfg) usesBlocks t₀ t ∧ Held cfg t n := by
  induction n with
  | zero =>
    exact ⟨t₀, .refl, .setup h₀, .setup hbuf hpow h₀, fun i hi => absurd hi (by omega),
      fun i hi => absurd hi (by omega), fun i hi => absurd hi (by omega)⟩
  | succ n ih =>
    obtain ⟨t, hreach, hheld⟩ := ih (by omega)
    obtain ⟨t', hnext, hheld'⟩ :=
      hheld.next hbuf hper hsize hn (owned_cursorInv_of_reach h₀ hreach).1
    exact ⟨t', hreach.trans hnext, hheld'⟩

/-- The packet of a block is sent. -/
theorem Held.drain (h : Held cfg t maxAvailabeFlows) (hper : cfg.perFlowBuffering = true)
    (hi : i < maxAvailabeFlows) :
    ∃ t', t.step cfg (.drain i 1) = .ok t' ∧ t'.Packed maxAvailabeFlows ∧
      t'.flowStatePool = t.flowStatePool ∧
      ∀ j < maxAvailabeFlows, (t'.bufferOf j).pktbufferCount = if j = i then 0 else 1 := by
  have hwf := h.table.wf i hi
  obtain ⟨b, hprime, hbwf, hbcont, htail⟩ := hwf.prime_spec
  rw [h.stored i hi, show min peekSize 1 = 1 from rfl] at hprime htail
  obtain ⟨b', hflush, hbwf', hbcont'⟩ := hbwf.flush_spec (n := 1) htail.ge
  have hdrain : t.step cfg (.drain i 1) =
      .ok { t with buffers := Function.update t.buffers i b' } := by
    simp only [FlowTable.step, h.table.bufferOf_eq hi, hprime, Nat.min_self, hflush,
      h.table.buffer_eq i hi]
  have hop : t.usesBlocks (.drain i 1) = true := decide_eq_true hi
  have htable := h.table.step hper hop hdrain
  refine ⟨_, hdrain, ⟨h.next_eq, h.free, h.new⟩, rfl, fun j hj => ?_⟩
  rw [htable.bufferOf_eq hj, (htable.wf j hj).count_eq]
  by_cases heq : j = i
  · subst heq
    simp [hbcont', hbcont, h.stored j hj]
  · simp [Function.update_of_ne heq, if_neg heq, h.stored j hj]

/-- **The idle block that the search does not see.**  All blocks but the last hold a packet, the
last one was drained a long time ago, and a new flow ends the program. -/
theorem pool_overflows_idle :
    ∃ t₀ t, setup (perFlowConfig 4) = some t₀ ∧
      Run.ReachIf (step (perFlowConfig 4)) usesBlocks t₀ t ∧
      t.flowBufferMapping.lookup (udpTo 256).toFlowTuple = none ∧ t.Usable 200000000 255 ∧
      t.getFlowState (perFlowConfig 4) 200000000 (udpTo 256) = .error .poolOverflow := by
  obtain ⟨t₀, h₀⟩ := Option.isSome_iff_exists.1
    (show (setup (perFlowConfig 4)).isSome = true by decide +kernel)
  obtain ⟨t, hreach, hheld⟩ := exists_held rfl rfl ⟨2, by decide, rfl⟩ (by decide) h₀ le_rfl
  have hlast : 255 < maxAvailabeFlows := by decide
  obtain ⟨t', hdrain, hpacked, hpool, hcount⟩ := hheld.drain rfl hlast
  have hreach' := hreach.tail ⟨.drain 255 1, rfl, hdrain⟩
  have hnone := hpacked.new 256 le_rfl le_rfl
  have hcur := (owned_cursorInv_of_reach h₀ hreach').2
  have htop := hpacked.top_eq hcur (by decide)
  refine ⟨t₀, t', h₀, hreach', hnone, .inr ⟨?_, ?_⟩, hcur.getFlowState_eq_error rfl hnone ?_⟩
  · rw [hcount 255 hlast, if_pos rfl]
  · rw [hpool, hheld.lastUsed 255 hlast]
    unfold wsub
    decide
  · rintro i hi hne (hfree | ⟨hempty, -⟩)
    · rw [hpool, hheld.inUse i hi] at hfree
      cases hfree
    · have hi255 : i ≠ 255 := by
        rintro rfl
        exact hne (Nat.succ.inj htop).symm
      rw [hcount i hi, if_neg hi255] at hempty
      cases hempty

end FlowTable

end Backdraft

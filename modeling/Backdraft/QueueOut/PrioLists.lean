import Backdraft.QueueOut.FlowInvariant

/-!
# The priority lists

`TrySendBufferPFQ` visits the blocks in the two lists `prio_queue_`.  `GetFlowState` appends to a
list without looking at its length, though the arrays have `PRIORITY_QUEUE_LEN` places and there
are more blocks than that.

* `PrioExact`: the lists hold the blocks in use, each once, and fit the arrays;
* `roomInList`: a lookup that allocates a block finds a place in the list of the flow's priority;
* `prioQueues_exact`: `PrioExact` holds in every run of such lookups, and any other lookup that
  allocates breaks it.

In such a run the blocks are allocated in order and at most 128 of them, so none is ever
reclaimed.
-/

namespace Backdraft

open Word

/-- `COUNT_PRIORITY`. -/
def countPriority : ℕ := 2

/-- `PRIORITY_QUEUE_LEN`. -/
def priorityQueueLen : ℕ := 64

namespace FlowTable

/-- For each priority, the list holds the blocks in use of that priority, each once, and its
length is within the array. -/
structure PrioExact (t : FlowTable) : Prop where
  nodup : ∀ p < countPriority, (t.prioQueue p).Nodup
  mem_iff : ∀ p < countPriority, ∀ x, x ∈ t.prioQueue p ↔
    ∃ i < maxAvailabeFlows, (t.flowStatePool i).inUse = true ∧ (t.flowStatePool i).prio = p ∧
      (t.flowStatePool i).flowId = x
  length_le : ∀ p < countPriority, (t.prioQueue p).length ≤ priorityQueueLen

/-- A lookup of a flow without a block finds a place in the list of its priority. -/
def roomInList (t : FlowTable) : Op → Bool
  | .getFlowState _ flow =>
    (t.flowBufferMapping.lookup flow.toFlowTuple).isSome ||
      decide ((t.prioQueue (prioOf flow)).length < priorityQueueLen)
  | _ => true

/-- The first `n` blocks are in use, and the lists hold them. -/
structure PrioInv (t : FlowTable) (n : ℕ) : Prop where
  next_eq : wadd 32 t.fspTop 1 = n
  top_ne : n ≠ t.fspTop
  inUse_iff : ∀ i < maxAvailabeFlows, (t.flowStatePool i).inUse = true ↔ i < n
  flowId_eq : ∀ i < maxAvailabeFlows, (t.flowStatePool i).flowId = i
  prio_lt : ∀ i, (t.flowStatePool i).prio < countPriority
  nodup : ∀ p < countPriority, (t.prioQueue p).Nodup
  mem_iff : ∀ p < countPriority, ∀ i, i ∈ t.prioQueue p ↔ i < n ∧ (t.flowStatePool i).prio = p
  length_le : ∀ p < countPriority, (t.prioQueue p).length ≤ priorityQueueLen
  length_sum : (t.prioQueue 0).length + (t.prioQueue 1).length = n

variable {cfg : QueueOutConfig} {t t' : FlowTable} {n now i : ℕ} {flow : Flow}

theorem prioOf_lt (flow : Flow) : prioOf flow < countPriority := by
  unfold prioOf countPriority
  split <;> omega

theorem PrioInv.le (h : t.PrioInv n) : n ≤ 128 := by
  have h0 : (t.prioQueue 0).length ≤ 64 := h.length_le 0 (by decide)
  have h1 : (t.prioQueue 1).length ≤ 64 := h.length_le 1 (by decide)
  have := h.length_sum
  omega

theorem PrioInv.exact (h : t.PrioInv n) : t.PrioExact := by
  have hn := h.le
  refine ⟨h.nodup, fun p hp x => ?_, h.length_le⟩
  rw [h.mem_iff p hp]
  constructor
  · rintro ⟨hx, hprio⟩
    have hx' : x < maxAvailabeFlows := lt_of_lt_of_le hx (hn.trans (by decide))
    exact ⟨x, hx', (h.inUse_iff x hx').2 hx, hprio, h.flowId_eq x hx'⟩
  · rintro ⟨i, hi, hin, hprio, rfl⟩
    rw [h.flowId_eq i hi]
    exact ⟨(h.inUse_iff i hi).1 hin, hprio⟩

theorem PrioInv.setup (h : setup cfg = some t) : t.PrioInv 0 := by
  have hwrap : wadd 32 (2 ^ 32 - 1) 1 = 0 := by decide +kernel
  have htop : (0 : ℕ) ≠ 2 ^ 32 - 1 := by norm_num
  have hnew : ∀ b, (withBuffers b).PrioInv 0 := fun b => by
    refine ⟨hwrap, htop, fun i _ => ?_, fun _ _ => rfl, fun _ => Nat.zero_lt_two,
      fun _ _ => List.nodup_nil, fun _ _ i => ?_, fun _ _ => Nat.zero_le _, rfl⟩
    · simp [withBuffers]
    · simp [withBuffers]
  unfold FlowTable.setup at h
  split_ifs at h
  · obtain ⟨b, -, rfl⟩ := Option.map_eq_some_iff.1 h
    exact hnew b
  · cases h
    exact hnew _

/-- The next block is free, so it is the one that is found. -/
theorem PrioInv.findBlock (h : t.PrioInv n)
    (hfind : t.findBlock cfg now maxAvailabeFlows (wadd 32 t.fspTop 1 % maxAvailabeFlows) =
      .ok i) : i = n := by
  have hn := h.le
  have hlt : n < maxAvailabeFlows := lt_of_le_of_lt hn (by decide)
  have hfree : (t.flowStatePool n).inUse = false := by
    rw [← Bool.not_eq_true, h.inUse_iff n hlt]; omega
  rw [h.next_eq, Nat.mod_eq_of_lt hlt] at hfind
  change t.findBlock cfg now (255 + 1) n = .ok i at hfind
  rw [FlowTable.findBlock, if_neg h.top_ne, if_pos hfree] at hfind
  exact (Except.ok.inj hfind).symm

/-- The list of a flow's priority gets the next block at its end. -/
theorem PrioInv.prioQueue_assign (h : t.PrioInv n) (qid : ℕ) (p : ℕ) :
    (t.assign cfg now flow qid n).prioQueue p =
      if p = prioOf flow then t.prioQueue p ++ [n] else t.prioQueue p := by
  have hlt : n < maxAvailabeFlows := lt_of_le_of_lt h.le (by decide)
  by_cases hp : p = prioOf flow
  · subst hp
    simp [FlowTable.assign, h.flowId_eq n hlt]
  · simp [FlowTable.assign, hp]

/-- The next block gets the flow's priority. -/
theorem prio_assign (qid i : ℕ) :
    ((t.assign cfg now flow qid n).flowStatePool i).prio =
      if i = n then prioOf flow else (t.flowStatePool i).prio := by
  by_cases hin : i = n
  · subst hin
    simp [FlowTable.assign]
  · simp [FlowTable.assign, hin]

theorem PrioInv.notMem (h : t.PrioInv n) {p : ℕ} (hp : p < countPriority) :
    n ∉ t.prioQueue p := by
  rw [h.mem_iff p hp]
  omega

/-- The lists hold the next block too. -/
theorem PrioInv.mem_assign_iff (h : t.PrioInv n) (qid : ℕ) {p : ℕ} (hp : p < countPriority) :
    i ∈ (t.assign cfg now flow qid n).prioQueue p ↔
      i < n + 1 ∧ ((t.assign cfg now flow qid n).flowStatePool i).prio = p := by
  have hmem := h.mem_iff p hp i
  rw [h.prioQueue_assign, prio_assign]
  by_cases hin : i = n
  · subst hin
    by_cases hpf : p = prioOf flow
    · simp [hpf]
    · simp [hpf, h.notMem hp, Ne.symm hpf]
  · split_ifs <;> simp only [List.mem_append, List.mem_singleton, hin, or_false, hmem] <;> omega

/-- One of the two lists gets longer by one. -/
theorem PrioInv.length_sum_assign (h : t.PrioInv n) (qid : ℕ) :
    ((t.assign cfg now flow qid n).prioQueue 0).length +
      ((t.assign cfg now flow qid n).prioQueue 1).length = n + 1 := by
  have hsum := h.length_sum
  have hprio : prioOf flow < 2 := prioOf_lt flow
  rw [h.prioQueue_assign, h.prioQueue_assign]
  split_ifs
  · omega
  · rw [List.length_append, List.length_singleton]
    omega
  · rw [List.length_append, List.length_singleton]
    omega
  · omega

/-- Giving the next block to a flow, if there is room in the list of its priority. -/
theorem PrioInv.assign (h : t.PrioInv n)
    (hroom : (t.prioQueue (prioOf flow)).length < priorityQueueLen) (qid : ℕ) :
    (t.assign cfg now flow qid n).PrioInv (n + 1) := by
  have hn := h.le
  constructor
  · change wadd 32 n 1 = n + 1
    exact wadd_of_lt (by omega)
  · exact Nat.succ_ne_self n
  · intro i hi
    by_cases hin : i = n
    · subst hin; simp [FlowTable.assign]
    · simp only [FlowTable.assign, Function.update_of_ne hin, h.inUse_iff i hi]
      omega
  · intro i hi
    exact (field_update FlowState.flowId (by rfl) i).trans (h.flowId_eq i hi)
  · intro i
    rw [prio_assign]
    split_ifs
    · exact prioOf_lt flow
    · exact h.prio_lt i
  · intro p hp
    rw [h.prioQueue_assign]
    split_ifs
    · simpa using (h.nodup p hp).concat (h.notMem hp)
    · exact h.nodup p hp
  · exact fun p hp i => h.mem_assign_iff qid hp
  · intro p hp
    rw [h.prioQueue_assign]
    split_ifs with hpf
    · subst hpf
      simpa using hroom
    · exact h.length_le p hp
  · exact h.length_sum_assign qid

/-- The invariant is about the pool and the lists only. -/
theorem PrioInv.congr (h : t.PrioInv n) (htop : t'.fspTop = t.fspTop)
    (hpool : t'.flowStatePool = t.flowStatePool) (hqueue : t'.prioQueue = t.prioQueue) :
    t'.PrioInv n := by
  constructor
  · rw [htop]; exact h.next_eq
  · rw [htop]; exact h.top_ne
  · rw [hpool]; exact h.inUse_iff
  · rw [hpool]; exact h.flowId_eq
  · rw [hpool]; exact h.prio_lt
  · rw [hqueue]; exact h.nodup
  · rw [hqueue, hpool]; exact h.mem_iff
  · rw [hqueue]; exact h.length_le
  · rw [hqueue]; exact h.length_sum

/-- A lookup that allocates appends to the list of the priority, whatever its length. -/
theorem PrioInv.getFlowState (h : t.PrioInv n)
    (hget : t.getFlowState cfg now flow = .ok (t', i)) :
    (t.roomInList (.getFlowState now flow) = true ∧ ∃ m, t'.PrioInv m) ∨
      t.roomInList (.getFlowState now flow) = false ∧
        priorityQueueLen < (t'.prioQueue (prioOf flow)).length := by
  obtain ⟨hlook, rfl⟩ | ⟨hnone, u, qid, -, hu, hfind, rfl⟩ := getFlowState_eq_ok hget
  · exact .inl ⟨by simp [roomInList, hlook], n, h.congr rfl rfl rfl⟩
  · have huinv : u.PrioInv n := h.congr (by rw [hu]) (by rw [hu]) (by rw [hu])
    have hqueue : u.prioQueue = t.prioQueue := by rw [hu]
    have hi : i = n := huinv.findBlock (by rw [hu] at hfind ⊢; exact hfind)
    have hfree : (u.flowStatePool i).inUse = false := by
      have hn := huinv.le
      rw [hi, ← Bool.not_eq_true, huinv.inUse_iff n (lt_of_le_of_lt hn (by decide))]
      omega
    rw [allocate, if_neg (by simp [hfree])]
    by_cases hroom : (t.prioQueue (prioOf flow)).length < priorityQueueLen
    · refine .inl ⟨by simp [roomInList, hroom], n + 1, ?_⟩
      rw [hi]
      exact huinv.assign (by rw [hqueue]; exact hroom) qid
    · refine .inr ⟨by simp [roomInList, hnone, hroom], ?_⟩
      simp only [FlowTable.assign, hqueue, Function.update_self, List.length_append,
        List.length_singleton]
      omega

/-- An operation keeps the lists exact if a lookup that allocates finds room; otherwise it makes
one of them too long. -/
theorem PrioInv.step {op : Op} (h : t.PrioInv n) (hok : t.step cfg op = .ok t') :
    (t.roomInList op = true ∧ ∃ m, t'.PrioInv m) ∨
      t.roomInList op = false ∧
        ∃ p < countPriority, priorityQueueLen < (t'.prioQueue p).length := by
  cases op with
  | enqueue i pkts =>
    cases hok
    exact .inl ⟨rfl, n, h.congr rfl rfl rfl⟩
  | drain i k =>
    obtain ⟨b, rfl⟩ := buffers_of_step_drain hok
    exact .inl ⟨rfl, n, h.congr rfl rfl rfl⟩
  | getFlowState now flow =>
    obtain ⟨i, hget⟩ := step_getFlowState_eq_ok.1 hok
    rcases h.getFlowState hget with hkeep | ⟨hroom, hlong⟩
    · exact .inl hkeep
    · exact .inr ⟨hroom, prioOf flow, prioOf_lt flow, hlong⟩

/-! ### Runs -/

/-- Packets enter blocks in use, and lookups that allocate find room. -/
def fitsLists (t : FlowTable) (op : Op) : Bool := t.usesBlocks op && t.roomInList op

/-- **The priority lists hold exactly the blocks in use.**  This is so in every run in which a
lookup that allocates a block finds a place in the list; so `TrySendBufferPFQ` visits every block
with packets.  From any state of such a run, the next operation keeps the lists exact if and only
if it meets the condition. -/
theorem prioQueues_exact {t₀ : FlowTable} (h₀ : setup cfg = some t₀)
    (ht : Run.ReachIf (step cfg) fitsLists t₀ t) :
    t.PrioExact ∧
      (cfg.buffering = true → cfg.perFlowBuffering = true → Llring.PowTwo cfg.maxBufferSize →
        ∀ i < maxAvailabeFlows, (t.buffers i).contents ≠ [] →
          ∃ p < countPriority, i ∈ t.prioQueue p) ∧
      ∀ op t', t.step cfg op = .ok t' → (t'.PrioExact ↔ t.roomInList op = true) := by
  obtain ⟨n, h⟩ : ∃ n, t.PrioInv n := by
    refine ht.invariant (P := fun t => ∃ n, t.PrioInv n) ⟨0, PrioInv.setup h₀⟩ ?_
    rintro u op v ⟨n, hu⟩ hop hstep
    rcases hu.step hstep with ⟨-, hm⟩ | ⟨hroom, -⟩
    · exact hm
    · simp [fitsLists, hroom] at hop
  refine ⟨h.exact, fun hbuf hper hpow i hi hne => ?_, fun op t' hstep => ?_⟩
  · have hinv : t.TableInv cfg :=
      ht.invariant (P := TableInv cfg) (TableInv.setup hbuf hpow h₀)
        fun _ _ _ hu hop hstep => hu.step hper (Bool.and_eq_true_iff.1 hop).1 hstep
    have hin : (t.flowStatePool i).inUse = true := by
      by_contra hfree
      exact hne (hinv.empty i hi (by simpa using hfree))
    exact ⟨_, h.prio_lt i, (h.mem_iff _ (h.prio_lt i) i).2 ⟨(h.inUse_iff i hi).1 hin, rfl⟩⟩
  · rcases h.step hstep with ⟨hroom, m, hm⟩ | ⟨hroom, p, hp, hlong⟩
    · exact ⟨fun _ => hroom, fun _ => hm.exact⟩
    · constructor
      · intro hexact
        exact absurd (hexact.length_le p hp) (by omega)
      · intro hroom'
        simp [hroom] at hroom'

/-- Three flows, one of them with high priority. -/
theorem prioQueues_exact_three_flows :
    ∃ t₀ t, setup (perFlowConfig 4) = some t₀ ∧
      Run.ReachIf (step (perFlowConfig 4)) fitsLists t₀ t ∧
      t.prioQueue 0 = [1] ∧ t.prioQueue 1 = [0, 2] ∧ t.PrioExact := by
  have hrun : ((setup (perFlowConfig 4)).bind fun t₀ =>
      (Run.exec (step (perFlowConfig 4)) fitsLists t₀
        [.getFlowState 5 (udpTo 80), .getFlowState 6 (udpTo 50), .getFlowState 7 (udpTo 80),
          .getFlowState 8 (udpTo 81)]).map fun t =>
      decide (t.prioQueue 0 = [1] ∧ t.prioQueue 1 = [0, 2])) = some true := by
    decide +kernel
  obtain ⟨t₀, t, h₀, hreach, hdec⟩ := Run.exists_init_reachIf _ hrun
  obtain ⟨hhigh, hlow⟩ := of_decide_eq_true hdec
  exact ⟨t₀, t, h₀, hreach, hhigh, hlow, (prioQueues_exact h₀ hreach).1⟩

/-- Sixty-five flows of low priority: the last one is written past the end of the array. -/
theorem prioQueue_overflows :
    ∃ t₀ t, setup (perFlowConfig 4) = some t₀ ∧
      Run.ReachIf (step (perFlowConfig 4)) usesBlocks t₀ t ∧
      (t.prioQueue 1).length = priorityQueueLen + 1 ∧ ¬ t.PrioExact := by
  have hrun : ((setup (perFlowConfig 4)).bind fun t₀ =>
      (Run.exec (step (perFlowConfig 4)) usesBlocks t₀
        ((List.range 65).map fun k => .getFlowState 0 (udpTo (1000 + k)))).map fun t =>
      decide ((t.prioQueue 1).length = priorityQueueLen + 1)) = some true := by
    decide +kernel
  obtain ⟨t₀, t, h₀, hreach, hdec⟩ := Run.exists_init_reachIf _ hrun
  have hlen := of_decide_eq_true hdec
  refine ⟨t₀, t, h₀, hreach, hlen, fun hexact => ?_⟩
  have hle := hexact.length_le 1 (by decide)
  omega

end FlowTable

end Backdraft

import Backdraft.Vport.Segments

/-!
# The invariant of a vport

* `QueueInv`: a queue's handler agrees with its segments; in particular the difference of the two
  packet counters is the number of stored packets;
* `BarInv`: this for every queue, and no two queues or the pool share a segment;
* `BarInv.update`: a call that rewrites one queue, perhaps with segments taken from the pool,
  keeps the invariant if it keeps that queue's;
* `newVport_inv`: it holds of a new vport.
-/

namespace Backdraft

open Word Cycle

/-! ### Tables indexed by queues -/

section Tables

variable {β : Type} (f : QueueDirection → ℕ → β) (d d' : QueueDirection) (i i' : ℕ) (v : β)

@[simp] theorem setAt_self : setAt f d i v d i = v := by simp [setAt]

theorem setAt_eq_self : setAt f d i (f d i) = f := by
  funext d' i'
  unfold setAt
  split_ifs with h
  · rw [h.1, h.2]
  · rfl

variable {d d' i i'}

theorem setAt_of_ne (h : (d', i') ≠ (d, i)) : setAt f d i v d' i' = f d' i' := by
  simp only [ne_eq, Prod.mk.injEq] at h
  simp [setAt, h]

end Tables

variable {α : Type} [Pointer α] {qSize : ℕ}

/-- A segment as it lies in the pool. -/
structure Fresh (qSize : ℕ) (seg : LlrSeg α) : Prop where
  two_le : 2 ≤ qSize
  wf : seg.ring.WF
  slots : seg.ring.slots = qSize
  empty : seg.ring.contents = []

/-- The handler `q` of a queue with the segments `l`, from the reader's on. -/
structure QueueInv (qSize : ℕ) (segs : ℕ → LlrSeg α) (q : QueueHandler) (l : List ℕ) : Prop where
  two_le : 2 ≤ qSize
  list : SegList qSize segs l
  reader : l.head? = some q.readerHead
  writer : q.writerHead ∈ l
  count : countPktsInQ q = (packetsIn segs l).length
  total : q.totalSize = l.length * qSize
  bound : l.length = 1 ∨ q.totalSize < queueLengthUpperBound + qSize

/-- The queues `Q` of a vport, with the segments of each, and the pool. -/
structure BarInv (qSize : ℕ) (Q : List (QueueDirection × ℕ)) (bar : VportBar α)
    (cyc : QueueDirection → ℕ → List ℕ) : Prop where
  queue : ∀ d i, (d, i) ∈ Q → QueueInv qSize bar.segs (bar.queues d i) (cyc d i)
  apart : ∀ d i d' i', (d, i) ∈ Q → (d', i') ∈ Q → (d', i') ≠ (d, i) →
    ∀ s ∈ cyc d i, s ∉ cyc d' i'
  used : ∀ d i, (d, i) ∈ Q → ∀ s ∈ cyc d i, s ∉ bar.pool.ptrStack
  known : ∀ d i, (d, i) ∈ Q → ∀ s ∈ cyc d i, s < bar.pool.numLlrings
  nodup : bar.pool.ptrStack.Nodup
  fresh : ∀ s ∈ bar.pool.ptrStack, Fresh qSize (bar.segs s) ∧ s < bar.pool.numLlrings
  llrSize : bar.pool.llrSize = qSize
  noOverlap : segsOverlap qSize = false

theorem QueueInv.congr {segs segs' : ℕ → LlrSeg α} {q : QueueHandler} {l : List ℕ}
    (h : QueueInv qSize segs q l) (heq : ∀ s ∈ l, segs' s = segs s) :
    QueueInv qSize segs' q l where
  two_le := h.two_le
  list := h.list.congr heq
  reader := h.reader
  writer := h.writer
  count := by
    have hsame : packetsIn segs' l = packetsIn segs l :=
      packetsIn_congr fun s hs => by rw [heq s hs]
    rw [h.count, hsame]
  total := h.total
  bound := h.bound

/-- The stored packets of a queue can be counted in 32 bits. -/
theorem QueueInv.length_lt {segs : ℕ → LlrSeg α} {q : QueueHandler} {l : List ℕ}
    (h : QueueInv qSize segs q l) (hq : qSize < 2 ^ 16) {segs' : ℕ → LlrSeg α}
    (h' : SegList qSize segs' l) : (packetsIn segs' l).length < 2 ^ 32 := by
  have hle := h'.length_packetsIn_le
  have hmul : l.length * (qSize - 1) ≤ l.length * qSize := Nat.mul_le_mul_left _ (by omega)
  have htotal := h.total
  rcases h.bound with hone | hlt
  · rw [hone] at hle hmul; omega
  · unfold queueLengthUpperBound at hlt; omega

theorem BarInv.length_le {Q : List (QueueDirection × ℕ)} {bar : VportBar α}
    {cyc : QueueDirection → ℕ → List ℕ} (h : BarInv qSize Q bar cyc) {d : QueueDirection} {i : ℕ}
    (hi : (d, i) ∈ Q) : (cyc d i).length ≤ bar.pool.numLlrings := by
  have hsub : cyc d i ⊆ List.range bar.pool.numLlrings := fun s hs =>
    List.mem_range.2 (h.known d i hi s hs)
  simpa using (List.subperm_of_subset (h.queue d i hi).list.cycle.nodup hsub).length_le

theorem BarInv.poolOk {Q : List (QueueDirection × ℕ)} {bar : VportBar α}
    {cyc : QueueDirection → ℕ → List ℕ} (h : BarInv qSize Q bar cyc) {d : QueueDirection} {i : ℕ}
    (hi : (d, i) ∈ Q) : PoolOk qSize bar.pool (cyc d i) :=
  ⟨h.llrSize, h.noOverlap, h.known d i hi⟩

/-- A queue's list of segments starts with the reader's. -/
theorem QueueInv.eq_cons {segs : ℕ → LlrSeg α} {q : QueueHandler} {l : List ℕ}
    (h : QueueInv qSize segs q l) : ∃ l', l = q.readerHead :: l' := by
  have hreader := h.reader
  cases l with
  | nil => simp at hreader
  | cons a l => exact ⟨l, by simpa using hreader⟩

/-- The segments of a queue are what following the links from the reader's segment lists. -/
theorem BarInv.segmentsOf_eq {Q : List (QueueDirection × ℕ)} {bar : VportBar α}
    {cyc : QueueDirection → ℕ → List ℕ} (h : BarInv qSize Q bar cyc) {d : QueueDirection} {i : ℕ}
    (hi : (d, i) ∈ Q) : segmentsOf bar d i = cyc d i := by
  have hq := h.queue d i hi
  have hlen := h.length_le hi
  have hcycle := hq.list.cycle
  obtain ⟨l, hl⟩ := hq.eq_cons
  rw [hl] at hlen hcycle ⊢
  exact hcycle.walk_eq hlen

section Update

variable {Q : List (QueueDirection × ℕ)} {bar bar' : VportBar α}
  {cyc : QueueDirection → ℕ → List ℕ} {d : QueueDirection} {i : ℕ} {l pulled : List ℕ}

/-- From `bar` to `bar'` only the handler of one queue and the segments `l` were written, and
`pulled` was taken from the pool. -/
structure Touches (d : QueueDirection) (i : ℕ) (l pulled : List ℕ) (bar bar' : VportBar α) :
    Prop where
  numIncQ : bar'.numIncQ = bar.numIncQ
  numOutQ : bar'.numOutQ = bar.numOutQ
  queues : ∀ d' i', (d', i') ≠ (d, i) → bar'.queues d' i' = bar.queues d' i'
  segs : ∀ s, s ∉ l → bar'.segs s = bar.segs s
  stack : bar.pool.ptrStack = pulled ++ bar'.pool.ptrStack
  numLlrings : bar'.pool.numLlrings = bar.pool.numLlrings
  llrSize : bar'.pool.llrSize = bar.pool.llrSize

/-- The segments of the other queues are not touched. -/
theorem BarInv.segs_eq (h : BarInv qSize Q bar cyc) (ht : Touches d i l pulled bar bar')
    (hl : ∀ s ∈ l, ((d, i) ∈ Q ∧ s ∈ cyc d i) ∨ s ∈ pulled) {d' : QueueDirection} {i' : ℕ}
    (hi' : (d', i') ∈ Q) (hne : (d', i') ≠ (d, i)) :
    ∀ s ∈ cyc d' i', s ∉ l ∧ bar'.segs s = bar.segs s := by
  intro s hs
  have hsl : s ∉ l := by
    intro hsl
    rcases hl s hsl with ⟨hi, hmem⟩ | hmem
    · exact h.apart d i d' i' hi hi' hne s hmem hs
    · exact h.used d' i' hi' s hs (by rw [ht.stack]; simp [hmem])
  exact ⟨hsl, ht.segs s hsl⟩

theorem BarInv.packetsIn_other (h : BarInv qSize Q bar cyc) (ht : Touches d i l pulled bar bar')
    (hl : ∀ s ∈ l, ((d, i) ∈ Q ∧ s ∈ cyc d i) ∨ s ∈ pulled) {d' : QueueDirection} {i' : ℕ}
    (hi' : (d', i') ∈ Q) (hne : (d', i') ≠ (d, i)) :
    packetsIn bar'.segs (cyc d' i') = packetsIn bar.segs (cyc d' i') :=
  packetsIn_congr fun s hs => by rw [(h.segs_eq ht hl hi' hne s hs).2]

omit [Pointer α] in
theorem Touches.mem_ptrStack (ht : Touches d i l pulled bar bar') {s : ℕ}
    (hs : s ∈ bar'.pool.ptrStack) : s ∈ bar.pool.ptrStack := by
  rw [ht.stack]
  exact List.mem_append_right _ hs

/-- What is left in the pool is not among the segments written. -/
theorem BarInv.notMem_ptrStack (h : BarInv qSize Q bar cyc) (ht : Touches d i l pulled bar bar')
    (hl : ∀ s ∈ l, ((d, i) ∈ Q ∧ s ∈ cyc d i) ∨ s ∈ pulled) :
    ∀ s ∈ l, s ∉ bar'.pool.ptrStack := by
  intro s hs hmem
  have hnodup : (pulled ++ bar'.pool.ptrStack).Nodup := ht.stack ▸ h.nodup
  rcases hl s hs with ⟨hi, hc⟩ | hp
  · exact h.used d i hi s hc (ht.mem_ptrStack hmem)
  · exact (List.nodup_append.1 hnodup).2.2 s hp s hmem rfl

/-- The new segments of a queue are none of another queue's. -/
theorem BarInv.apart_setAt {Q' : List (QueueDirection × ℕ)} (h : BarInv qSize Q bar cyc)
    (ht : Touches d i l pulled bar bar') (hQ : ∀ p ∈ Q', p ≠ (d, i) → p ∈ Q)
    (hl : ∀ s ∈ l, ((d, i) ∈ Q ∧ s ∈ cyc d i) ∨ s ∈ pulled) :
    ∀ d₁ i₁ d₂ i₂, (d₁, i₁) ∈ Q' → (d₂, i₂) ∈ Q' → (d₂, i₂) ≠ (d₁, i₁) →
      ∀ s ∈ setAt cyc d i l d₁ i₁, s ∉ setAt cyc d i l d₂ i₂ := by
  intro d₁ i₁ d₂ i₂ h₁ h₂ hne s hs
  by_cases he₁ : (d₁, i₁) = (d, i)
  · cases he₁
    rw [setAt_self] at hs
    rw [setAt_of_ne _ _ hne]
    exact fun hmem => (h.segs_eq ht hl (hQ _ h₂ hne) hne s hmem).1 hs
  · rw [setAt_of_ne _ _ he₁] at hs
    by_cases he₂ : (d₂, i₂) = (d, i)
    · cases he₂
      rw [setAt_self]
      exact (h.segs_eq ht hl (hQ _ h₁ he₁) he₁ s hs).1
    · rw [setAt_of_ne _ _ he₂]
      exact h.apart d₁ i₁ d₂ i₂ (hQ _ h₁ he₁) (hQ _ h₂ he₂) hne s hs

/-- **A call keeps the invariant if it keeps that of the queue it works on.**  The queue may also
be a new one. -/
theorem BarInv.update {Q' : List (QueueDirection × ℕ)} (h : BarInv qSize Q bar cyc)
    (ht : Touches d i l pulled bar bar') (hQ : ∀ p ∈ Q', p ≠ (d, i) → p ∈ Q)
    (hl : ∀ s ∈ l, ((d, i) ∈ Q ∧ s ∈ cyc d i) ∨ s ∈ pulled)
    (hq : QueueInv qSize bar'.segs (bar'.queues d i) l) :
    BarInv qSize Q' bar' (setAt cyc d i l) := by
  have hnodup : (pulled ++ bar'.pool.ptrStack).Nodup := ht.stack ▸ h.nodup
  have hlused := h.notMem_ptrStack ht hl
  refine ⟨?_, h.apart_setAt ht hQ hl, ?_, ?_, (List.nodup_append.1 hnodup).2.1, ?_,
    ht.llrSize.trans h.llrSize, h.noOverlap⟩
  · intro d' i' hi'
    by_cases he : (d', i') = (d, i)
    · cases he; rwa [setAt_self]
    · rw [setAt_of_ne _ _ he, ht.queues d' i' he]
      exact (h.queue d' i' (hQ _ hi' he)).congr fun s hs =>
        (h.segs_eq ht hl (hQ _ hi' he) he s hs).2
  · intro d' i' hi' s hs
    by_cases he : (d', i') = (d, i)
    · cases he; rw [setAt_self] at hs; exact hlused s hs
    · rw [setAt_of_ne _ _ he] at hs
      exact fun hmem => h.used d' i' (hQ _ hi' he) s hs (ht.mem_ptrStack hmem)
  · intro d' i' hi' s hs
    rw [ht.numLlrings]
    by_cases he : (d', i') = (d, i)
    · cases he
      rw [setAt_self] at hs
      rcases hl s hs with ⟨hi, hc⟩ | hp
      · exact h.known d i hi s hc
      · exact (h.fresh s (by rw [ht.stack]; simp [hp])).2
    · rw [setAt_of_ne _ _ he] at hs
      exact h.known d' i' (hQ _ hi' he) s hs
  · intro s hs
    have hsl : s ∉ l := fun hmem => hlused s hmem hs
    rw [ht.segs s hsl, ht.numLlrings]
    exact h.fresh s (ht.mem_ptrStack hs)

end Update

/-! ### A new vport -/

/-- A queue with one empty segment. -/
def SingleEmpty (segs : ℕ → LlrSeg α) (l : List ℕ) : Prop :=
  ∃ s, l = [s] ∧ (segs s).ring.contents = []

theorem initQueue_inv {Q : List (QueueDirection × ℕ)} {bar bar' : VportBar α}
    {cyc : QueueDirection → ℕ → List ℕ} {p : QueueDirection × ℕ} (h : BarInv qSize Q bar cyc)
    (hempty : ∀ d i, (d, i) ∈ Q → SingleEmpty bar.segs (cyc d i)) (hp : p ∉ Q)
    (hzero : bar.queues p.1 p.2 = zeroHandler) (hinit : initQueue qSize bar p = some bar') :
    ∃ l pulled, Touches p.1 p.2 l pulled bar bar' ∧
      BarInv qSize (Q ++ [p]) bar' (setAt cyc p.1 p.2 l) ∧
      ∀ d i, (d, i) ∈ Q ++ [p] → SingleEmpty bar'.segs (setAt cyc p.1 p.2 l d i) := by
  obtain ⟨d, i⟩ := p
  rw [initQueue, pullLlr] at hinit
  cases hstack : bar.pool.ptrStack with
  | nil => simp [hstack] at hinit
  | cons seg rest =>
    simp only [hstack, h.llrSize, initLinks_of_apart h.noOverlap, Option.some.injEq] at hinit
    have hfresh := (h.fresh seg (by simp [hstack])).1
    have hself := initListHead_self bar.segs seg
    have ht : Touches d i [seg] [seg] bar bar' := by
      subst hinit
      exact ⟨rfl, rfl, fun d' i' hne => setAt_of_ne _ _ hne,
        fun s hs => initListHead_of_ne (by simpa using hs), by simp [hstack], rfl, h.llrSize.symm⟩
    have hseg : (bar'.segs seg).ring.contents = [] := by
      subst hinit; simp only [hself]; exact hfresh.empty
    have hq : QueueInv qSize bar'.segs (bar'.queues d i) [seg] := by
      subst hinit
      simp only [setAt_self]
      refine ⟨hfresh.two_le, ⟨?_, ?_, ?_⟩, rfl, by simp, ?_, by simp, Or.inl rfl⟩
      · rw [isCycle_singleton]; simp [hself]
      · simpa [hself] using hfresh.wf
      · simpa [hself] using hfresh.slots
      · rw [packetsIn_cons, hseg]
        simp [countPktsInQ, hzero, zeroHandler, wsub_self]
    have hl : ∀ s ∈ [seg], ((d, i) ∈ Q ∧ s ∈ cyc d i) ∨ s ∈ [seg] := fun s hs => Or.inr hs
    refine ⟨[seg], [seg], ht, h.update ht (fun p hp hne => ?_) hl hq, ?_⟩
    · simpa [hne] using hp
    · intro d' i' hi'
      by_cases he : (d', i') = (d, i)
      · cases he; rw [setAt_self]; exact ⟨seg, rfl, hseg⟩
      · have hi'' : (d', i') ∈ Q := by simpa [he] using hi'
        obtain ⟨s, hs, hc⟩ := hempty d' i' hi''
        rw [setAt_of_ne _ _ he]
        exact ⟨s, hs, by rw [(h.segs_eq ht hl hi'' he s (by simp [hs])).2]; exact hc⟩

theorem foldlM_initQueue_inv (todo : List (QueueDirection × ℕ)) {Q : List (QueueDirection × ℕ)}
    {bar bar' : VportBar α} {cyc : QueueDirection → ℕ → List ℕ} (h : BarInv qSize Q bar cyc)
    (hempty : ∀ d i, (d, i) ∈ Q → SingleEmpty bar.segs (cyc d i)) (hnd : (Q ++ todo).Nodup)
    (hzero : ∀ d i, (d, i) ∈ todo → bar.queues d i = zeroHandler)
    (hfold : todo.foldlM (initQueue qSize) bar = some bar') :
    ∃ cyc', BarInv qSize (Q ++ todo) bar' cyc' ∧ bar'.numIncQ = bar.numIncQ ∧
      bar'.numOutQ = bar.numOutQ ∧
      ∀ d i, (d, i) ∈ Q ++ todo → SingleEmpty bar'.segs (cyc' d i) := by
  induction todo generalizing Q bar cyc with
  | nil =>
    obtain rfl : bar = bar' := by simpa using hfold
    exact ⟨cyc, by simpa using h, rfl, rfl, by simpa using hempty⟩
  | cons p todo ih =>
    rw [List.foldlM_cons] at hfold
    obtain ⟨mid, hmid, hrest⟩ := Option.bind_eq_some_iff.1 hfold
    have hsplit : Q ++ p :: todo = Q ++ [p] ++ todo := by simp
    rw [hsplit] at hnd ⊢
    obtain ⟨hQp, hndt, hdis⟩ := List.nodup_append.1 hnd
    have hp : p ∉ Q := fun hm => (List.nodup_append.1 hQp).2.2 p hm p (by simp) rfl
    obtain ⟨l, pulled, ht, hinv, hemp⟩ := initQueue_inv h hempty hp (hzero p.1 p.2 (by simp)) hmid
    obtain ⟨cyc', hinv', hinc, hout, hemp'⟩ := ih hinv hemp hnd (fun d i hi => by
      have hne : (d, i) ≠ (p.1, p.2) := fun he => hdis p (by simp) (d, i) hi he.symm
      rw [ht.queues d i hne]
      exact hzero d i (by simp [hi])) hrest
    exact ⟨cyc', hinv', hinc.trans ht.numIncQ, hout.trans ht.numOutQ, hemp'⟩

theorem mem_allQueues {numIncQ numOutQ i : ℕ} {d : QueueDirection} :
    (d, i) ∈ allQueues numIncQ numOutQ ↔
      i < (match d with | .inc => numIncQ | .out => numOutQ) := by
  cases d <;> simp [allQueues]

theorem nodup_allQueues (numIncQ numOutQ : ℕ) : (allQueues numIncQ numOutQ).Nodup := by
  refine List.nodup_append.2 ⟨?_, ?_, ?_⟩
  · exact List.nodup_range.map fun a b h => by simpa using h
  · exact List.nodup_range.map fun a b h => by simpa using h
  · intro a ha b hb
    obtain ⟨i, -, rfl⟩ := List.mem_map.1 ha
    obtain ⟨j, -, rfl⟩ := List.mem_map.1 hb
    simp

/-- The segments of a new pool are fresh. -/
theorem newLlrPool_fresh {numLlr : ℕ} {pool : LlringPool} {segs : ℕ → LlrSeg α}
    (h0 : 0 < qSize) (hlt : qSize < 2 ^ 16) (h : newLlrPool numLlr qSize = some (pool, segs)) :
    pool = ⟨(List.range numLlr).reverse, numLlr, qSize⟩ ∧ Llring.PowTwo qSize ∧
      (0 < numLlr → ∀ s, Fresh qSize (segs s)) := by
  rw [newLlrPool] at h
  cases hinit : Llring.init (α := α) qSize with
  | none => simp [hinit] at h
  | some r =>
    have hpow := Llring.powTwo_of_init hinit h0 (by omega)
    obtain ⟨r', hr', hwf, hslots, hcont⟩ := Llring.init_spec (α := α) hpow
    obtain rfl : r = r' := Option.some.inj (hinit.symm.trans hr')
    have hwf' := hwf.setWaterMark ((qSize >>> 3) * 7)
    simp only [hinit] at h
    split_ifs at h with hfree
    obtain ⟨rfl, rfl⟩ := Prod.mk.inj (Option.some.inj h)
    refine ⟨rfl, hpow, fun hpos s => ⟨?_, hwf', by simpa using hslots, by simpa using hcont⟩⟩
    have hne : (r.setWaterMark ((qSize >>> 3) * 7)).freeCount ≠ 0 := fun he => hfree ⟨hpos, he⟩
    rw [hwf'.freeCount_eq, hwf'.mask_eq, Llring.slots_setWaterMark, hslots] at hne
    omega

/-- A new vport is a new pool, from which each queue gets a segment. -/
theorem newVport_eq_some {numIncQ numOutQ poolSize : ℕ} {bar : VportBar α}
    (h : newVport numIncQ numOutQ poolSize qSize = some bar) :
    ∃ pool segs, newLlrPool poolSize qSize = some (pool, segs) ∧
      (allQueues numIncQ numOutQ).foldlM (initQueue qSize)
        { numIncQ := numIncQ, numOutQ := numOutQ, queues := fun _ _ => zeroHandler
          pool := pool, segs := segs } = some bar := by
  rw [newVport] at h
  split at h
  · cases h
  · exact ⟨_, _, ‹_›, h⟩

/-- **A new vport satisfies the invariant**, with one empty segment in every queue, if its rings
have at least eight slots. -/
theorem newVport_inv {numIncQ numOutQ poolSize : ℕ} {bar : VportBar α} (h8 : 8 ≤ qSize)
    (hlt : qSize < 2 ^ 16) (h : newVport numIncQ numOutQ poolSize qSize = some bar) :
    ∃ cyc, BarInv qSize (allQueues bar.numIncQ bar.numOutQ) bar cyc ∧
      ∀ d i, (d, i) ∈ allQueues bar.numIncQ bar.numOutQ → SingleEmpty bar.segs (cyc d i) := by
  obtain ⟨pool, segs, hpool, hfold⟩ := newVport_eq_some h
  obtain ⟨rfl, hpow, hfresh⟩ := newLlrPool_fresh (by omega) hlt hpool
  have hbase : BarInv qSize []
      { numIncQ := numIncQ, numOutQ := numOutQ, queues := fun _ _ => zeroHandler,
        pool := ⟨(List.range poolSize).reverse, poolSize, qSize⟩, segs := segs }
      (fun _ _ => []) := by
    refine ⟨by simp, by simp, by simp, by simp, by simpa using List.nodup_range, ?_, rfl,
      (segsOverlap_eq_false_iff hpow).2 h8⟩
    intro s hs
    have hs' : s < poolSize := by simpa using hs
    exact ⟨hfresh (by omega) s, hs'⟩
  obtain ⟨cyc, hinv, hinc, hout, hemp⟩ := foldlM_initQueue_inv (allQueues numIncQ numOutQ) hbase
    (by simp) (by simpa using nodup_allQueues numIncQ numOutQ) (fun _ _ _ => rfl) hfold
  rw [hinc, hout]
  exact ⟨cyc, by simpa using hinv, by simpa using hemp⟩

end Backdraft

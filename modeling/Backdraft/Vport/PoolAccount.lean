import Backdraft.Vport.Conservation

/-!
# The sizes of the queues and the pool

A queue grows by one segment when a receive extends it, and never shrinks.

* `sizes_step`: what a call does to the sizes of the queues and to the pool;
* `Accounted`: the segments left in the pool and the sizes of the queues add up;
* `accounted_reachable`: they do after any calls.
-/

namespace Backdraft

open Word Cycle

variable {α : Type} [Pointer α]

/-! ### The sizes of the queues -/

/-- The size of a queue, and the water mark that goes with it. -/
def sizes (q : QueueHandler) : ℕ × ℕ := (q.totalSize, q.thOver)

theorem sizes_sendPkts {pool : LlringPool} {segs segs' : ℕ → LlrSeg α} {q q' : QueueHandler}
    {seg enqueued n : ℕ} {pkts : List α} (rounds : ℕ)
    (h : sendPkts pool segs q seg pkts enqueued rounds = .ok (segs', q', n)) :
    sizes q' = sizes q := by
  induction rounds generalizing segs q seg pkts enqueued with
  | zero => simp [sendPkts] at h
  | succ rounds ih =>
    rw [sendPkts] at h
    simp only at h
    split_ifs at h
    · have hrest := ih h
      exact hrest
    all_goals
      simp only [Except.ok.injEq, Prod.mk.injEq] at h
      rw [← h.2.1]
      rfl

theorem sizes_readPkts {pool : LlringPool} {segs segs' : ℕ → LlrSeg α} {q q' : QueueHandler}
    {seg cnt : ℕ} {dequeued pkts : List α} (rounds : ℕ)
    (h : readPkts pool segs q seg cnt dequeued rounds = .ok (segs', q', pkts)) :
    sizes q' = sizes q := by
  induction rounds generalizing segs q seg cnt dequeued with
  | zero => simp [readPkts] at h
  | succ rounds ih =>
    rw [readPkts] at h
    simp only at h
    split_ifs at h
    · have hrest := ih h
      exact hrest
    · simp only [Except.ok.injEq, Prod.mk.injEq] at h
      rw [← h.2.1]
      rfl

/-- From `bar` to `bar'` the sizes of the queues are the same. -/
structure SameSizes (bar bar' : VportBar α) : Prop where
  all : bar'.all = bar.all
  pool : bar'.pool = bar.pool
  sizes : ∀ d i, sizes (bar'.queues d i) = sizes (bar.queues d i)

/-- From `bar` to `bar'` one queue got a segment of the pool. -/
structure GrownBy (d : QueueDirection) (i : ℕ) (bar bar' : VportBar α) : Prop where
  all : bar'.all = bar.all
  needs : needsExtension (bar.queues d i) = true
  pull : ∃ seg, bar.pool.ptrStack = seg :: bar'.pool.ptrStack
  llrSize : bar'.pool.llrSize = bar.pool.llrSize
  grown : sizes (bar'.queues d i) = ((bar.queues d i).totalSize + bar.pool.llrSize,
    ((bar.queues d i).totalSize + bar.pool.llrSize) * 7 / 8)
  other : ∀ d' i', (d', i') ≠ (d, i) → sizes (bar'.queues d' i') = sizes (bar.queues d' i')

omit [Pointer α] in
/-- Writing back a handler with the same sizes. -/
theorem sizes_setAt {bar : VportBar α} {d : QueueDirection} {i : ℕ} {q : QueueHandler}
    (h : sizes q = sizes (bar.queues d i)) (d' : QueueDirection) (i' : ℕ) :
    sizes (setAt bar.queues d i q d' i') = sizes (bar.queues d' i') := by
  by_cases he : (d', i') = (d, i)
  · cases he; rwa [setAt_self]
  · rw [setAt_of_ne _ _ he]

/-- What the extension does to the sizes. -/
theorem sizes_extendQueue {bar bar' : VportBar α} {d : QueueDirection} {i : ℕ}
    (h : extendQueue bar d i = .ok bar') :
    bar' = bar ∧ needsExtension (bar.queues d i) = false ∨ GrownBy d i bar bar' := by
  unfold extendQueue at h
  by_cases hneed : needsExtension (bar.queues d i) = true
  · simp only [if_pos hneed] at h
    cases hstack : bar.pool.ptrStack with
    | nil => simp [pullLlr, hstack] at h
    | cons seg rest =>
      simp only [pullLlr, hstack] at h
      split_ifs at h
      cases h
      exact .inr ⟨rfl, hneed, ⟨seg, hstack⟩, rfl, by simp [sizes], fun d' i' hne => by
        simp only [setAt_of_ne _ _ hne]⟩
  · rw [if_neg hneed] at h
    exact .inl ⟨(Except.ok.inj h).symm, by simpa using hneed⟩

/-- What a call does to the sizes: only a receive can make its queue grow, and it does so whenever
the water mark says. -/
theorem sizes_step {w w' : World α} {c : Call α} (h : w.step c = .ok w') :
    (SameSizes w.bar w'.bar ∧ ∀ main qid cnt, c = .recv main qid cnt →
      needsExtension (w.bar.queues (recvDir main) qid) = false) ∨
    GrownBy c.queue.1 c.queue.2 w.bar w'.bar := by
  rcases World.step_cases h with ⟨main, qid, pkts, bar', n, rfl, hs, rfl⟩ |
    ⟨main, qid, cnt, bar', pkts, rfl, hr, rfl⟩
  · obtain ⟨segs, q, hsend, rfl⟩ := sendPacketsVport_eq_ok.1 hs
    exact .inl ⟨⟨rfl, rfl, sizes_setAt (sizes_sendPkts _ hsend)⟩, by simp⟩
  · rw [recvPacketsVport] at hr
    cases hext : extendQueue w.bar (recvDir main) qid with
    | error e => simp [hext] at hr
    | ok mid =>
      simp only [hext] at hr
      split at hr
      · cases hr
      · rename_i segs q pkts' hread
        simp only [Except.ok.injEq, Prod.mk.injEq] at hr
        obtain ⟨rfl, -⟩ := hr
        have hread' : sizes q = sizes (mid.queues (recvDir main) qid) := sizes_readPkts _ hread
        have hsame := sizes_setAt hread'
        rcases sizes_extendQueue hext with ⟨rfl, hno⟩ | hg
        · exact .inl ⟨⟨rfl, rfl, hsame⟩, by rintro _ _ _ ⟨⟩; exact hno⟩
        · refine .inr ⟨hg.all, hg.needs, hg.pull, hg.llrSize, ?_, fun d' i' hne => ?_⟩
          · exact (hsame _ _).trans hg.grown
          · exact (hsame _ _).trans (hg.other d' i' hne)

/-! ### The account -/

/-- The slots of all queues. -/
def totalSlots (bar : VportBar α) : ℕ := (bar.all.map fun p => (bar.queues p.1 p.2).totalSize).sum

/-- The slots in the pool and in the queues are those of the `P` segments the pool started with,
and the water marks fit the sizes. -/
structure Accounted (P : ℕ) (bar : VportBar α) : Prop where
  balance : 64 * bar.pool.ptrStack.length + totalSlots bar = 64 * P
  mark : ∀ d i, (bar.queues d i).thOver = (bar.queues d i).totalSize * 7 / 8

omit [Pointer α] in
theorem SameSizes.accounted {P : ℕ} {bar bar' : VportBar α} (h : SameSizes bar bar')
    (ha : Accounted P bar) : Accounted P bar' := by
  have htotal : ∀ d i, (bar'.queues d i).totalSize = (bar.queues d i).totalSize := fun d i =>
    congrArg Prod.fst (h.sizes d i)
  have hover : ∀ d i, (bar'.queues d i).thOver = (bar.queues d i).thOver := fun d i =>
    congrArg Prod.snd (h.sizes d i)
  refine ⟨?_, fun d i => by rw [hover, htotal, ha.mark]⟩
  simp only [totalSlots, h.all, h.pool, htotal]
  exact ha.balance

omit [Pointer α] in
/-- One queue has grown by the slots of a segment. -/
theorem GrownBy.totalSlots_eq {bar bar' : VportBar α} {d : QueueDirection} {i : ℕ}
    (h : GrownBy d i bar bar') (hi : (d, i) ∈ bar.all) :
    totalSlots bar' = totalSlots bar + bar.pool.llrSize := by
  have hsame : ∀ l : List (QueueDirection × ℕ), (d, i) ∉ l →
      (l.map fun p => (bar'.queues p.1 p.2).totalSize) =
        l.map fun p => (bar.queues p.1 p.2).totalSize := fun l hl =>
    List.map_congr_left fun p hp => congrArg Prod.fst (h.other p.1 p.2 fun he => hl (he ▸ hp))
  have hgrown : (bar'.queues d i).totalSize = (bar.queues d i).totalSize + bar.pool.llrSize :=
    congrArg Prod.fst h.grown
  have hnd : bar.all.Nodup := nodup_allQueues _ _
  rw [totalSlots, totalSlots, h.all]
  obtain ⟨A, B, hAB⟩ := List.append_of_mem hi
  rw [hAB] at hnd ⊢
  obtain ⟨-, hB, hdis⟩ := List.nodup_append.1 hnd
  rw [List.map_append, List.map_append, List.map_cons, List.map_cons,
    hsame A fun hm => hdis _ hm _ (by simp) rfl, hsame B (List.nodup_cons.1 hB).1, hgrown]
  simp only [List.sum_append, List.sum_cons]
  omega

omit [Pointer α] in
theorem GrownBy.accounted {P : ℕ} {bar bar' : VportBar α} {d : QueueDirection} {i : ℕ}
    (h : GrownBy d i bar bar') (hi : (d, i) ∈ bar.all) (hsize : bar.pool.llrSize = 64)
    (ha : Accounted P bar) : Accounted P bar' := by
  obtain ⟨seg, hseg⟩ := h.pull
  refine ⟨?_, fun d' i' => ?_⟩
  · have hbalance := ha.balance
    rw [hseg, List.length_cons] at hbalance
    rw [h.totalSlots_eq hi, hsize]
    omega
  · by_cases he : (d', i') = (d, i)
    · cases he
      rw [show (bar'.queues d i).thOver = _ from congrArg Prod.snd h.grown,
        show (bar'.queues d i).totalSize = _ from congrArg Prod.fst h.grown]
    · rw [show (bar'.queues d' i').thOver = _ from congrArg Prod.snd (h.other d' i' he),
        show (bar'.queues d' i').totalSize = _ from congrArg Prod.fst (h.other d' i' he)]
      exact ha.mark d' i'

theorem foldlM_initQueue_sizes (todo : List (QueueDirection × ℕ)) {bar bar' : VportBar α}
    (hmark : ∀ d i, (bar.queues d i).thOver = (bar.queues d i).totalSize * 7 / 8)
    (h : todo.foldlM (initQueue 64) bar = some bar') :
    bar'.all = bar.all ∧
      bar'.pool.ptrStack.length + todo.length = bar.pool.ptrStack.length ∧
      ∀ d i, (bar'.queues d i).thOver = (bar'.queues d i).totalSize * 7 / 8 := by
  induction todo generalizing bar with
  | nil =>
    obtain rfl : bar = bar' := by simpa using h
    exact ⟨rfl, rfl, hmark⟩
  | cons p todo ih =>
    rw [List.foldlM_cons] at h
    obtain ⟨mid, hmid, hrest⟩ := Option.bind_eq_some_iff.1 h
    rw [initQueue, pullLlr] at hmid
    cases hstack : bar.pool.ptrStack with
    | nil => simp [hstack] at hmid
    | cons seg rest =>
      simp only [hstack, Option.some.injEq] at hmid
      subst hmid
      obtain ⟨hall, hlen, hmark'⟩ := ih (fun d i => by
        by_cases he : (d, i) = (p.1, p.2)
        · cases he; simp only [setAt_self]
        · simp only [setAt_of_ne _ _ he]; exact hmark d i) hrest
      refine ⟨hall, ?_, hmark'⟩
      simp only [List.length_cons] at hlen ⊢
      omega

theorem accounted_newVport {numIncQ numOutQ P : ℕ} {bar : VportBar α}
    (h : newVport numIncQ numOutQ P 64 = some bar) : Accounted P bar := by
  obtain ⟨cyc, hinv, hsingle⟩ := newVport_inv (by decide) (by decide) h
  have htotal : totalSlots bar = 64 * bar.all.length := by
    have hone : ∀ p ∈ bar.all, (bar.queues p.1 p.2).totalSize = 64 := by
      rintro ⟨d, i⟩ hp
      obtain ⟨s, hs, -⟩ := hsingle d i hp
      simpa [hs] using (hinv.queue d i hp).total
    rw [totalSlots, List.map_congr_left hone]
    simp [Nat.mul_comm]
  obtain ⟨pool, segs, hpool, hfold⟩ := newVport_eq_some h
  obtain ⟨rfl, -, -⟩ := newLlrPool_fresh (by decide) (by decide) hpool
  obtain ⟨hall, hlen, hmark⟩ := foldlM_initQueue_sizes _ (fun _ _ => by simp [zeroHandler]) hfold
  refine ⟨?_, hmark⟩
  have hcount : bar.all.length = (allQueues numIncQ numOutQ).length := congrArg List.length hall
  rw [htotal, hcount]
  simp only [List.length_reverse, List.length_range] at hlen
  omega

/-- **The account holds after any calls.** -/
theorem accounted_reachable {numIncQ numOutQ P : ℕ} {bar : VportBar α} {w : World α}
    (hnew : newVport numIncQ numOutQ P 64 = some bar) (hw : World.Reachable bar w) :
    (∃ cyc, WorldInv 64 w cyc) ∧ Accounted P w.bar := by
  refine ⟨WorldInv.reachable (by decide) (by decide) hnew hw, ?_⟩
  refine (Run.ReachIf.invariant (P := fun w => (∃ cyc, WorldInv 64 w cyc) ∧ Accounted P w.bar) hw
    ⟨WorldInv.reachable (by decide) (by decide) hnew .refl, accounted_newVport hnew⟩ ?_).2
  rintro u c v ⟨⟨cyc, hinv⟩, ha⟩ hG hs
  have hc : c.Valid u.bar := of_decide_eq_true (Bool.and_eq_true_iff.1 hG).1
  obtain ⟨l, -, -, -, hinv'⟩ := hinv.step (by decide) hc hs
  refine ⟨⟨_, hinv'⟩, ?_⟩
  rcases sizes_step hs with ⟨hsame, -⟩ | hgrown
  · exact hsame.accounted ha
  · exact hgrown.accounted (mem_all.2 hc) hinv.bar.llrSize ha

end Backdraft

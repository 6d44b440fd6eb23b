import Backdraft.Vport.PoolAccount

/-!
# Is the segment pool large enough?

A queue may extend itself until it has `QUEUE_LENGTH_UPPER_BOUND` slots, and segments never go back
to the pool.  So a vport with rings of 64 slots needs 64 segments for each queue.

* `bdVPortInit`: the vport that `BDVPort::Init` makes;
* `PoolSuffices`: no receive finds the pool empty when it has to extend its queue;
* `exists_filled`, `exists_drained`: one send fills an empty queue, and the receive that takes all
  packets out again makes it grow by a segment;
* `exists_full`: queue after queue can be brought to its upper bound, unless the pool is too small;
* `poolSuffices_iff`, `pool_never_empty_iff`: the pools that suffice.
-/

namespace Backdraft

open Word Cycle

variable {α : Type} [Pointer α]

/-- The `_new_vport` of `BDVPort::Init`; the pool size is passed as a `uint16_t`. -/
def bdVPortInit (numRxQ numTxQ : ℕ) : Option (VportBar α) :=
  newVport numRxQ numTxQ (((numRxQ + numTxQ) * 8 + 64) % 2 ^ 16) 64

/-- No receive on a queue of the vport fails because the pool is empty, whatever calls were made
before. -/
def PoolSuffices (bar : VportBar α) : Prop :=
  ∀ w, World.Reachable bar w → ∀ main qid cnt, qid < w.bar.numQueues (recvDir main) →
    recvPacketsVport w.bar main qid cnt ≠ .error .segNull

/-! ### Filling a queue -/

/-- The segment after the last one is the first, and not empty if those before the last are not. -/
theorem SegList.next_ne_nil {qSize : ℕ} {segs : ℕ → LlrSeg α} {V : List ℕ} {u : ℕ}
    (h : SegList qSize segs (V ++ [u])) (hV : ∀ s ∈ V, (segs s).ring.contents ≠ [])
    (hne : (segs u).next ≠ u) (r : Llring α) :
    (Backdraft.setRing segs u r (segs u).next).ring.contents ≠ [] := by
  have hnext : (segs u).next ∈ V := (List.mem_append.1 (h.cycle.next_mem (by simp))).resolve_right
    fun hm => hne (List.mem_singleton.1 hm)
  rw [setRing_of_ne r hne]
  exact hV _ hnext

/-- A batch sent into empty segments fills one after the other. -/
theorem sendPkts_fill {qSize : ℕ} {pool : LlringPool} (rounds : ℕ) (pkts : List α)
    {segs : ℕ → LlrSeg α} {V U : List ℕ} {u e : ℕ} {q : QueueHandler} (h2 : 2 ≤ qSize)
    (hpool : PoolOk qSize pool (V ++ u :: U)) (h : SegList qSize segs (V ++ u :: U))
    (hV : ∀ s ∈ V, (segs s).ring.contents ≠ []) (hU : ∀ s ∈ u :: U, (segs s).ring.contents = [])
    (hrounds : (u :: U).length ≤ rounds) :
    ∃ segs' q', sendPkts pool segs q u pkts e rounds =
      .ok (segs', q', e + min pkts.length ((u :: U).length * (qSize - 1))) := by
  induction rounds generalizing segs V U u e q pkts with
  | zero => simp at hrounds
  | succ rounds ih =>
    have hu : u ∈ V ++ u :: U := by simp
    obtain ⟨r, n, hround, hcases⟩ := sendPkts_succ hpool h hu q pkts e rounds
    have hmin := hround.num_eq
    rw [hU u (by simp), List.length_nil, Nat.sub_zero] at hmin
    cases U with
    | nil =>
      have hall : n = min pkts.length ([u].length * (qSize - 1)) := by simp; omega
      rcases hcases with ⟨-, hne, hnil, -⟩ | ⟨-, heq⟩
      · exact absurd hnil (h.next_ne_nil hV hne r)
      · exact ⟨_, _, by rw [heq, ← hall]⟩
    | cons b U =>
      have hnb : (segs u).next = b := h.cycle.next_mid
      have hempty : ∀ s ∈ b :: U, (setRing segs u r s).ring.contents = [] := by
        intro s hs
        rw [h.setRing_right r hs]
        exact hU s (List.mem_cons_of_mem u hs)
      rcases hcases with ⟨hlt, -, -, heq⟩ | ⟨hstop, heq⟩
      · -- the segment is full, and the rest of the batch goes to those after it
        have hfilled : ∀ s ∈ V ++ [u], (setRing segs u r s).ring.contents ≠ [] := by
          refine h.forall_setRing (P := fun r => r.contents ≠ []) hV ?_
          rw [hround.contents_eq, ← List.length_pos_iff, List.length_append, List.length_take]
          omega
        obtain ⟨segs', q', hrest⟩ := ih (pkts.drop n) (V := V ++ [u]) (u := b) (U := U) (e := e + n)
          (q := { q with enqueuePkts := wadd 32 q.enqueuePkts n, writerHead := b })
          (by simpa using hpool) (by simpa using hround.list) hfilled hempty
          (by simpa using hrounds)
        refine ⟨segs', q', ?_⟩
        rw [heq, hnb, hrest, List.length_drop, List.length_cons (a := u), Nat.add_mul _ 1,
          Nat.add_assoc]
        congr 4
        omega
      · have hbu : b ≠ u := fun he => h.notMem_right (by simp [he])
        have hfits : ¬ n < pkts.length := fun hlt =>
          hstop hlt (hnb ▸ hbu) (hnb ▸ hempty b (by simp))
        have hle : pkts.length ≤ (u :: b :: U).length * (qSize - 1) := by
          rw [List.length_cons, Nat.add_mul]
          omega
        exact ⟨_, _, by rw [heq, min_eq_left hle, show n = pkts.length by omega]⟩

/-- A large enough batch sent to an empty queue takes all its slots but one for each segment. -/
theorem BarInv.send_fill {qSize : ℕ} {Q : List (QueueDirection × ℕ)} {bar : VportBar α}
    {cyc : QueueDirection → ℕ → List ℕ} (h : BarInv qSize Q bar cyc) {main : Bool} {qid : ℕ}
    (hi : (sendDir main, qid) ∈ Q) (pkts : List α)
    (hempty : packetsIn bar.segs (cyc (sendDir main) qid) = [])
    (hlen : (cyc (sendDir main) qid).length ≤ pkts.length) :
    ∃ bar', sendPacketsVport bar main qid pkts =
      .ok (bar', min pkts.length ((cyc (sendDir main) qid).length * (qSize - 1))) := by
  have hq := h.queue _ _ hi
  have hpool := h.poolOk hi
  obtain ⟨A, B, hAB⟩ := List.append_of_mem hq.writer
  have hmem : ∀ s, s ∈ (bar.queues (sendDir main) qid).writerHead :: (B ++ A) ↔
      s ∈ cyc (sendDir main) qid := by intro s; rw [hAB]; simp; tauto
  have hperm : ((bar.queues (sendDir main) qid).writerHead :: (B ++ A)).length =
      (cyc (sendDir main) qid).length := by rw [hAB]; simp; omega
  obtain ⟨segs, q, heq⟩ := sendPkts_fill (pkts.length + 2) pkts (V := []) (e := 0)
    (q := bar.queues (sendDir main) qid) hq.two_le
    ⟨hpool.size, hpool.noOverlap, fun s hs => hpool.known s ((hmem s).1 hs)⟩
    (hAB ▸ hq.list : SegList qSize bar.segs (A ++ _ :: B)).rotate (by simp)
    (fun s hs => packetsIn_eq_nil_iff.1 hempty s ((hmem s).1 hs)) (by omega)
  rw [hperm, Nat.zero_add] at heq
  exact ⟨_, sendPacketsVport_eq_ok.2 ⟨segs, q, heq, rfl⟩⟩

/-! ### Bringing the queues to their upper bound -/

/-- No queue stores a packet. -/
def AllEmpty (w : World α) : Prop := ∀ d i, i < w.bar.numQueues d → storedIn w.bar d i = []

theorem exists_endpoint (d : QueueDirection) : ∃ main, sendDir main = d ∧ recvDir (!main) = d := by
  cases d
  · exact ⟨false, rfl, rfl⟩
  · exact ⟨true, rfl, rfl⟩

theorem WorldInv.count_stored {qSize : ℕ} {w : World α} {cyc : QueueDirection → ℕ → List ℕ}
    (h : WorldInv qSize w cyc) {d : QueueDirection} {i : ℕ} (hi : (d, i) ∈ w.bar.all) :
    countPktsInQ (w.bar.queues d i) = (storedIn w.bar d i).length := by
  rw [h.storedIn_eq hi]
  exact (h.bar.queue d i hi).count

/-- A queue has at most `QUEUE_LENGTH_UPPER_BOUND` slots. -/
theorem WorldInv.totalSize_le {w : World α} {cyc : QueueDirection → ℕ → List ℕ}
    (h : WorldInv 64 w cyc) {d : QueueDirection} {i : ℕ} (hi : (d, i) ∈ w.bar.all) :
    (w.bar.queues d i).totalSize ≤ 4096 := by
  have hq := h.bar.queue d i hi
  have htotal := hq.total
  rcases hq.bound with hone | hlt
  · omega
  · unfold queueLengthUpperBound at hlt
    omega

/-- A call that returns leads to a reachable state. -/
theorem World.Reachable.step {bar : VportBar α} {w w' : World α} {c : Call α}
    (h : World.Reachable bar w) (hc : c.Valid w.bar) (hs : w.step c = .ok w') :
    World.Reachable bar w' :=
  Relation.ReflTransGen.tail h ⟨c, by simp [hc], hs⟩

/-- The send of a round fills the segments of an empty queue. -/
theorem WorldInv.step_fill {w : World α} {cyc : QueueDirection → ℕ → List ℕ}
    (h : WorldInv 64 w cyc) {main : Bool} {qid k : ℕ} (hi : (sendDir main, qid) ∈ w.bar.all)
    (hempty : storedIn w.bar (sendDir main) qid = [])
    (hk : (w.bar.queues (sendDir main) qid).totalSize = 64 * k) :
    ∃ w₁, w.step (.send main qid (List.replicate (63 * k) default)) = .ok w₁ ∧
      (w₁.accepted (sendDir main) qid).length =
        (w.accepted (sendDir main) qid).length + 63 * k ∧
      w₁.delivered = w.delivered := by
  have hlen : (cyc (sendDir main) qid).length = k := by
    have htotal := (h.bar.queue _ _ hi).total
    omega
  rw [h.storedIn_eq hi] at hempty
  obtain ⟨bar₁, hsend⟩ := h.bar.send_fill hi
    (List.replicate (63 * k) default) hempty (by simp; omega)
  refine ⟨{ w with
    bar := bar₁
    accepted := appendAt w.accepted (sendDir main) qid (List.replicate (63 * k) default) },
    ?_, by simp [appendAt], rfl⟩
  simp only [World.step, hsend, hlen, List.length_replicate, List.take_replicate]
  congr 4
  omega

theorem needsExtension_eq_true {q : QueueHandler} :
    needsExtension q = true ↔ q.thOver < countPktsInQ q ∧ q.totalSize < 4096 := by
  simp [needsExtension, queueLengthUpperBound]

/-- A queue has a segment, and its size is that of its segments. -/
theorem QueueInv.exists_totalSize {qSize : ℕ} {segs : ℕ → LlrSeg α} {q : QueueHandler}
    {l : List ℕ} (h : QueueInv qSize segs q l) : ∃ k, 0 < k ∧ q.totalSize = qSize * k := by
  refine ⟨l.length, ?_, h.total.trans (Nat.mul_comm _ _)⟩
  obtain ⟨l', rfl⟩ := h.eq_cons
  exact Nat.succ_pos _

section Grow

variable {numIncQ numOutQ P : ℕ} {bar : VportBar α} {w : World α}

/-- The first half of a round: an empty queue is filled beyond its water mark. -/
theorem exists_filled (hnew : newVport numIncQ numOutQ P 64 = some bar)
    (hw : World.Reachable bar w) (hempty : AllEmpty w) {d : QueueDirection} {i : ℕ}
    (hi : (d, i) ∈ w.bar.all) (hlt : (w.bar.queues d i).totalSize < 4096) :
    ∃ w₁, World.Reachable bar w₁ ∧ SameSizes w.bar w₁.bar ∧
      needsExtension (w₁.bar.queues d i) = true ∧
      ∀ d' i', (d', i') ∈ w₁.bar.all → (d', i') ≠ (d, i) → storedIn w₁.bar d' i' = [] := by
  obtain ⟨main, rfl, -⟩ := exists_endpoint d
  obtain ⟨⟨cyc, hinv⟩, ha⟩ := accounted_reachable hnew hw
  have hnone := hempty _ _ (mem_all.1 hi)
  obtain ⟨k, hpos, hk⟩ := (hinv.bar.queue _ _ hi).exists_totalSize
  obtain ⟨w₁, hstep, hacc, hdel⟩ := hinv.step_fill hi hnone hk
  have hvalid : Call.Valid w.bar (.send main i (List.replicate (63 * k) default)) := mem_all.1 hi
  have hw₁ := hw.step hvalid hstep
  obtain ⟨⟨cyc₁, hinv₁⟩, ha₁⟩ := accounted_reachable hnew hw₁
  have hcount := hinv.count_stored hi
  rw [hnone, List.length_nil] at hcount
  rcases sizes_step hstep with ⟨hsame, -⟩ | hgrown
  · have hi₁ : (sendDir main, i) ∈ w₁.bar.all := hsame.all ▸ hi
    refine ⟨w₁, hw₁, hsame, ?_, fun d' i' hi' hne => ?_⟩
    · have hsize : (w₁.bar.queues (sendDir main) i).totalSize = 64 * k :=
        (congrArg Prod.fst (hsame.sizes _ _)).trans hk
      have hlen := hinv.length_stored hi
      have hlen₁ := hinv₁.length_stored hi₁
      have hperm := (hinv.conserve _ _ hi).length_eq
      rw [List.length_append] at hperm
      rw [hnone, List.length_nil] at hlen
      rw [hacc, hdel, ← hinv₁.count_stored hi₁] at hlen₁
      rw [needsExtension_eq_true, ha₁.mark, hsize]
      omega
    · rw [hsame.all] at hi'
      rw [hinv.stored_other (by decide) hvalid hstep hi' hne]
      exact hempty _ _ (mem_all.1 hi')
  · have hneed := (needsExtension_eq_true.1 hgrown.needs).1
    simp only [Call.queue] at hneed
    omega

/-- The second half: the receive that takes all packets out makes the queue grow. -/
theorem exists_drained (hnew : newVport numIncQ numOutQ P 64 = some bar)
    (hs : PoolSuffices bar) (hw : World.Reachable bar w) {d : QueueDirection} {i : ℕ}
    (hi : (d, i) ∈ w.bar.all) (hneed : needsExtension (w.bar.queues d i) = true)
    (hother : ∀ d' i', (d', i') ∈ w.bar.all → (d', i') ≠ (d, i) → storedIn w.bar d' i' = []) :
    ∃ w₁, World.Reachable bar w₁ ∧ AllEmpty w₁ ∧ GrownBy d i w.bar w₁.bar := by
  obtain ⟨main, rfl⟩ : ∃ main, d = recvDir main := by
    obtain ⟨main, -, hmain⟩ := exists_endpoint d
    exact ⟨!main, hmain.symm⟩
  obtain ⟨⟨cyc, hinv⟩, -⟩ := accounted_reachable hnew hw
  obtain ⟨n, hn⟩ : ∃ n, n = (storedIn w.bar (recvDir main) i).length := ⟨_, rfl⟩
  rcases hinv.bar.recv hi n with ⟨herr, -⟩ | ⟨bar₁, l, pulled, hrecv, -, -⟩
  · exact absurd herr (hs w hw main i n (mem_all.1 hi))
  · obtain ⟨w₁, hstep, hacc, hdel⟩ : ∃ w₁, w.step (.recv main i n) = .ok w₁ ∧
        w₁.accepted = w.accepted ∧ (w₁.delivered (recvDir main) i).length =
          (w.delivered (recvDir main) i).length + n := by
      rw [← hinv.storedIn_eq hi] at hrecv
      refine ⟨{ w with
        bar := bar₁
        delivered := appendAt w.delivered (recvDir main) i
          ((storedIn w.bar (recvDir main) i).take n) }, by simp only [World.step, hrecv], rfl, ?_⟩
      simp [appendAt, hn]
    have hvalid : Call.Valid w.bar (.recv main i n) := mem_all.1 hi
    have hw₁ := hw.step hvalid hstep
    obtain ⟨⟨cyc₁, hinv₁⟩, -⟩ := accounted_reachable hnew hw₁
    rcases sizes_step hstep with ⟨-, hno⟩ | hgrown
    · exact absurd hneed (by simp [hno main i n rfl])
    · refine ⟨w₁, hw₁, fun d' i' hi' => ?_, hgrown⟩
      have hmem : (d', i') ∈ w.bar.all := hgrown.all ▸ mem_all.2 hi'
      by_cases he : (d', i') = (recvDir main, i)
      · cases he
        have hlen := hinv.length_stored hi
        have hlen₁ := hinv₁.length_stored (mem_all.2 hi')
        rw [hacc, hdel] at hlen₁
        exact List.eq_nil_of_length_eq_zero (by omega)
      · rw [hinv.stored_other (by decide) hvalid hstep hmem he]
        exact hother d' i' hmem he

/-- **Queue after queue can be brought to its upper bound**, as long as the pool has segments. -/
theorem exists_full (hnew : newVport numIncQ numOutQ P 64 = some bar) (hs : PoolSuffices bar)
    (n : ℕ) (hw : World.Reachable bar w) (hempty : AllEmpty w)
    (hn : w.bar.pool.ptrStack.length = n) :
    ∃ w', World.Reachable bar w' ∧ ∀ p ∈ w'.bar.all, 4096 ≤ (w'.bar.queues p.1 p.2).totalSize := by
  induction n using Nat.strong_induction_on generalizing w with
  | _ n ih =>
    by_cases hfull : ∀ p ∈ w.bar.all, 4096 ≤ (w.bar.queues p.1 p.2).totalSize
    · exact ⟨w, hw, hfull⟩
    · push Not at hfull
      obtain ⟨⟨d, i⟩, hi, hlt⟩ := hfull
      obtain ⟨w₁, hw₁, hsame, hneed, hother⟩ := exists_filled hnew hw hempty hi hlt
      obtain ⟨w₂, hw₂, hempty₂, hgrown⟩ :=
        exists_drained hnew hs hw₁ (hsame.all ▸ hi) hneed hother
      obtain ⟨seg, hseg⟩ := hgrown.pull
      have hlen : w₂.bar.pool.ptrStack.length + 1 = n := by
        rw [← hn, ← hsame.pool, hseg, List.length_cons]
      exact ih _ (by omega) hw₂ hempty₂ rfl

end Grow

/-! ### The result -/

section Result

variable {numIncQ numOutQ P : ℕ} {bar : VportBar α}

theorem length_all_newVport (h : newVport numIncQ numOutQ P 64 = some bar) :
    bar.all.length = numIncQ + numOutQ := by
  obtain ⟨pool, segs, -, hfold⟩ := newVport_eq_some h
  obtain ⟨hall, -⟩ := foldlM_initQueue_sizes _ (fun _ _ => by simp [zeroHandler]) hfold
  rw [hall]
  simp [VportBar.all, allQueues]

theorem allEmpty_start (h : newVport numIncQ numOutQ P 64 = some bar) :
    AllEmpty (World.start bar) := by
  intro d i hi
  obtain ⟨cyc, hinv, hsingle⟩ := WorldInv.start (by decide) (by decide) h
  obtain ⟨s, hs, hc⟩ := hsingle d i (mem_all.2 hi)
  rw [hinv.storedIn_eq (mem_all.2 hi)]
  simp [World.start, hs, hc]

theorem World.Reachable.all_eq {w : World α} (h : World.Reachable bar w) : w.bar.all = bar.all := by
  refine Run.ReachIf.invariant (P := fun w => w.bar.all = bar.all) h rfl fun u c v hu _ hs => ?_
  rcases sizes_step hs with ⟨hsame, -⟩ | hgrown
  · exact hsame.all.trans hu
  · exact hgrown.all.trans hu

/-- **How large the pool has to be**: 64 segments for each queue. -/
theorem poolSuffices_iff (hnew : newVport numIncQ numOutQ P 64 = some bar) :
    PoolSuffices bar ↔ 64 * (numIncQ + numOutQ) ≤ P := by
  have hlen := length_all_newVport hnew
  constructor
  · intro hs
    obtain ⟨w, hw, hfull⟩ := exists_full hnew hs _ .refl (allEmpty_start hnew) rfl
    have hbalance := (accounted_reachable hnew hw).2.balance
    have hsum := List.card_nsmul_le_sum
      (w.bar.all.map fun p => (w.bar.queues p.1 p.2).totalSize) 4096
      (List.forall_mem_map.2 hfull)
    rw [List.length_map, hw.all_eq, hlen, smul_eq_mul] at hsum
    unfold totalSlots at hbalance
    rw [hw.all_eq] at hbalance
    omega
  · intro hP w hw main qid cnt hi herr
    obtain ⟨⟨cyc, hinv⟩, ha⟩ := accounted_reachable hnew hw
    rcases hinv.bar.recv (mem_all.2 hi) cnt with ⟨-, hneed, hstack⟩ | ⟨_, _, _, hok, -⟩
    · -- all segments are in the queues, and none has more than 64 of them, this one fewer
      have hbalance := ha.balance
      rw [hstack, List.length_nil] at hbalance
      have hsum : totalSlots w.bar < (w.bar.all.map fun _ => 4096).sum :=
        List.sum_lt_sum _ _ (fun p hp => hinv.totalSize_le hp)
          ⟨_, mem_all.2 hi, (needsExtension_eq_true.1 hneed).2⟩
      rw [List.map_const', List.sum_replicate, hw.all_eq, hlen, smul_eq_mul] at hsum
      omega
    · rw [hok] at herr
      cases herr

/-- With fewer segments some calls lead to a receive that finds the pool empty. -/
theorem exists_segNull (hnew : newVport numIncQ numOutQ P 64 = some bar)
    (hP : P < 64 * (numIncQ + numOutQ)) :
    ∃ w main qid cnt, World.Reachable bar w ∧ qid < w.bar.numQueues (recvDir main) ∧
      recvPacketsVport w.bar main qid cnt = .error .segNull := by
  have hnot : ¬ PoolSuffices bar := by
    rw [poolSuffices_iff hnew]
    omega
  unfold PoolSuffices at hnot
  push Not at hnot
  obtain ⟨w, hw, main, qid, cnt, hi, herr⟩ := hnot
  exact ⟨w, main, qid, cnt, hw, hi, herr⟩

/-- **When the pool is large enough.**  A vport of `new_vport` or of `BDVPort::Init`, with any
number of queues: no receive ever finds the pool empty if and only if the vport has at most one
queue. -/
theorem pool_never_empty_iff
    (h : newVportDefault numIncQ numOutQ = some bar ∨ bdVPortInit numIncQ numOutQ = some bar) :
    PoolSuffices bar ↔ numIncQ + numOutQ ≤ 1 := by
  rcases h with h | h
  · unfold newVportDefault slotsPerLlring at h
    simp only at h
    split_ifs at h with hwrap
    rw [poolSuffices_iff h]
    constructor
    · -- the wrap-around to 16 bits only makes the pool smaller
      have hle := Nat.mod_le ((numIncQ + numOutQ) * 3 / 2 + 64) (2 ^ 16)
      omega
    · intro hone
      rw [Nat.mod_eq_of_lt (by omega)]
      omega
  · rw [poolSuffices_iff h]
    have hle := Nat.mod_le ((numIncQ + numOutQ) * 8 + 64) (2 ^ 16)
    omega

end Result

/-- A vport with a single queue. -/
theorem pool_never_empty_single_queue :
    ∃ bar : VportBar ℕ, newVportDefault 1 0 = some bar ∧ PoolSuffices bar := by
  obtain ⟨bar, hbar⟩ : ∃ bar : VportBar ℕ, newVportDefault 1 0 = some bar :=
    Option.isSome_iff_exists.1 (by decide +kernel)
  exact ⟨bar, hbar, (pool_never_empty_iff (.inl hbar)).2 (by decide)⟩

/-- One queue in each direction, with the pool of `new_vport` and with that of `BDVPort::Init`: some
calls lead to a receive that finds the pool empty. -/
theorem two_queues_empty_pool :
    (∃ (bar : VportBar ℕ) (w : World ℕ) (main : Bool) (qid cnt : ℕ),
      newVportDefault 1 1 = some bar ∧ World.Reachable bar w ∧
      qid < w.bar.numQueues (recvDir main) ∧
      recvPacketsVport w.bar main qid cnt = .error .segNull) ∧
    ∃ (bar : VportBar ℕ) (w : World ℕ) (main : Bool) (qid cnt : ℕ),
      bdVPortInit 1 1 = some bar ∧ World.Reachable bar w ∧
      qid < w.bar.numQueues (recvDir main) ∧
      recvPacketsVport w.bar main qid cnt = .error .segNull := by
  obtain ⟨bar, hbar⟩ : ∃ bar : VportBar ℕ, newVport 1 1 67 64 = some bar :=
    Option.isSome_iff_exists.1 (by decide +kernel)
  obtain ⟨bar', hbar'⟩ : ∃ bar : VportBar ℕ, newVport 1 1 80 64 = some bar :=
    Option.isSome_iff_exists.1 (by decide +kernel)
  obtain ⟨w, main, qid, cnt, hw⟩ := exists_segNull hbar (by decide)
  obtain ⟨w', main', qid', cnt', hw'⟩ := exists_segNull hbar' (by decide)
  exact ⟨⟨bar, w, main, qid, cnt, hbar, hw⟩, bar', w', main', qid', cnt', hbar', hw'⟩

end Backdraft

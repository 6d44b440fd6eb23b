import Backdraft.Lib.Run
import Backdraft.Vport.Calls

/-!
# No loss and no duplication in a vport

* `World.Reachable`: the states of a vport after any sequence of calls that returned, at both
  endpoints and on all queues;
* `WorldInv` and `WorldInv.step`: the invariant of the vport, and that each queue has accepted
  what it has delivered and still stores;
* `vport_conserves`: the result for every reachable state of a vport whose rings have at least
  eight slots;
* `small_rings_lose_segment`: for rings of four slots, whose segments overlap in the pool's
  memory, it fails.
-/

namespace Backdraft

open Word Cycle

variable {α : Type} {qSize : ℕ}

/-- The queues of a vport. -/
def VportBar.all (bar : VportBar α) : List (QueueDirection × ℕ) :=
  allQueues bar.numIncQ bar.numOutQ

theorem mem_all {bar : VportBar α} {d : QueueDirection} {i : ℕ} :
    (d, i) ∈ bar.all ↔ i < bar.numQueues d := by
  rw [VportBar.all, mem_allQueues]
  cases d <;> rfl

theorem Touches.all_eq {bar bar' : VportBar α} {d : QueueDirection} {i : ℕ} {l pulled : List ℕ}
    (h : Touches d i l pulled bar bar') : bar'.all = bar.all := by
  rw [VportBar.all, VportBar.all, h.numIncQ, h.numOutQ]

/-! ### Runs -/

/-- The call is on a queue of the vport. -/
def Call.Valid (bar : VportBar α) (c : Call α) : Prop := c.queue.2 < bar.numQueues c.queue.1

instance (bar : VportBar α) (c : Call α) : Decidable (c.Valid bar) :=
  inferInstanceAs (Decidable (_ < _))

variable [Pointer α]

/-- The states after any calls on the vport `bar` that meet the condition `G` and return. -/
def World.ReachableIf (G : World α → Call α → Bool) (bar : VportBar α) (w : World α) : Prop :=
  Run.ReachIf World.step (fun w c => decide (c.Valid w.bar) && G w c) (World.start bar) w

/-- The states after any calls on the vport `bar` that return. -/
def World.Reachable (bar : VportBar α) (w : World α) : Prop :=
  World.ReachableIf (fun _ _ => true) bar w

/-- Make the calls `cs`. -/
def World.runCalls (G : World α → Call α → Bool) (w : World α) (cs : List (Call α)) :
    Option (World α) :=
  Run.exec World.step (fun w c => decide (c.Valid w.bar) && G w c) w cs

/-- What a call that returns has done. -/
theorem World.step_cases {w w' : World α} {c : Call α} (h : w.step c = .ok w') :
    (∃ main qid pkts bar' n, c = .send main qid pkts ∧
      sendPacketsVport w.bar main qid pkts = .ok (bar', n) ∧
      w' = { w with
        bar := bar', accepted := appendAt w.accepted (sendDir main) qid (pkts.take n) }) ∨
    ∃ main qid cnt bar' pkts, c = .recv main qid cnt ∧
      recvPacketsVport w.bar main qid cnt = .ok (bar', pkts) ∧
      w' = { w with bar := bar', delivered := appendAt w.delivered (recvDir main) qid pkts } := by
  cases c with
  | send main qid pkts =>
    simp only [World.step] at h
    cases hs : sendPacketsVport w.bar main qid pkts with
    | error e => simp [hs] at h
    | ok res => exact Or.inl ⟨main, qid, pkts, res.1, res.2, rfl, hs, by simpa [hs] using h.symm⟩
  | recv main qid cnt =>
    simp only [World.step] at h
    cases hr : recvPacketsVport w.bar main qid cnt with
    | error e => simp [hr] at h
    | ok res => exact Or.inr ⟨main, qid, cnt, res.1, res.2, rfl, hr, by simpa [hr] using h.symm⟩

/-! ### The invariant -/

/-- The invariant of a vport in use. -/
structure WorldInv (qSize : ℕ) (w : World α) (cyc : QueueDirection → ℕ → List ℕ) : Prop where
  bar : BarInv qSize w.bar.all w.bar cyc
  conserve : ∀ d i, (d, i) ∈ w.bar.all →
    (w.accepted d i).Perm (w.delivered d i ++ packetsIn w.bar.segs (cyc d i))

/-- How a call changes the segments of its queue, and that it keeps the invariant. -/
theorem WorldInv.step {w w' : World α} {cyc : QueueDirection → ℕ → List ℕ} {c : Call α}
    (h : WorldInv qSize w cyc) (hlt : qSize < 2 ^ 16) (hc : c.Valid w.bar)
    (hstep : w.step c = .ok w') :
    ∃ l pulled, Touches c.queue.1 c.queue.2 l pulled w.bar w'.bar ∧
      (∀ s ∈ l, (c.queue ∈ w.bar.all ∧ s ∈ cyc c.queue.1 c.queue.2) ∨ s ∈ pulled) ∧
      WorldInv qSize w' (setAt cyc c.queue.1 c.queue.2 l) := by
  rcases World.step_cases hstep with ⟨main, qid, pkts, bar', n, rfl, hs, rfl⟩ |
    ⟨main, qid, cnt, bar', pkts, rfl, hr, rfl⟩
  · have hi : (sendDir main, qid) ∈ w.bar.all := mem_all.2 hc
    obtain ⟨ht, hinv, hperm⟩ := h.bar.of_send hlt hi hs
    have hl : ∀ s ∈ cyc (sendDir main) qid, ((sendDir main, qid) ∈ w.bar.all ∧
        s ∈ cyc (sendDir main) qid) ∨ s ∈ ([] : List ℕ) := fun s hs => Or.inl ⟨hi, hs⟩
    refine ⟨_, [], ht, hl, ?_⟩
    simp only [Call.queue, setAt_eq_self]
    refine ⟨ht.all_eq ▸ hinv, fun d i hd => ?_⟩
    rw [ht.all_eq] at hd
    by_cases he : (d, i) = (sendDir main, qid)
    · cases he
      simp only [appendAt, setAt_self]
      refine ((h.conserve _ _ hd).append_right _).trans ?_
      rw [List.append_assoc]
      exact hperm.symm.append_left _
    · simp only [appendAt, setAt_of_ne _ _ he]
      rw [h.bar.packetsIn_other ht hl hd he]
      exact h.conserve d i hd
  · have hi : (recvDir main, qid) ∈ w.bar.all := mem_all.2 hc
    obtain ⟨rfl, l, pulled, hdel, hl⟩ := h.bar.of_recv hi hr
    have ht := hdel.touches
    refine ⟨l, pulled, ht, hl, ?_, fun d i hd => ?_⟩
    · exact h.bar.update ht (fun p hp _ => ht.all_eq ▸ hp) hl hdel.inv
    · rw [ht.all_eq] at hd
      simp only [Call.queue]
      by_cases he : (d, i) = (recvDir main, qid)
      · cases he
        simp only [appendAt, setAt_self]
        rw [hdel.rest, List.append_assoc, List.take_append_drop]
        exact h.conserve _ _ hd
      · simp only [appendAt, setAt_of_ne _ _ he]
        rw [h.bar.packetsIn_other ht hl hd he]
        exact h.conserve d i hd

theorem WorldInv.start {numIncQ numOutQ poolSize : ℕ} {bar : VportBar α} (h8 : 8 ≤ qSize)
    (hlt : qSize < 2 ^ 16) (h : newVport numIncQ numOutQ poolSize qSize = some bar) :
    ∃ cyc, WorldInv qSize (World.start bar) cyc ∧
      ∀ d i, (d, i) ∈ bar.all → SingleEmpty bar.segs (cyc d i) := by
  obtain ⟨cyc, hinv, hempty⟩ := newVport_inv h8 hlt h
  refine ⟨cyc, ⟨hinv, fun d i hd => ?_⟩, hempty⟩
  obtain ⟨s, hs, hc⟩ := hempty d i hd
  simp [World.start, hs, hc]

/-- **The invariant holds after any calls.** -/
theorem WorldInv.reachable {numIncQ numOutQ poolSize : ℕ} {bar : VportBar α} {w : World α}
    (h8 : 8 ≤ qSize) (hlt : qSize < 2 ^ 16)
    (hnew : newVport numIncQ numOutQ poolSize qSize = some bar) (hw : World.Reachable bar w) :
    ∃ cyc, WorldInv qSize w cyc := by
  refine Run.ReachIf.invariant (P := fun w => ∃ cyc, WorldInv qSize w cyc) hw ?_
    fun w c w' ⟨cyc, h⟩ hG hs => ?_
  · obtain ⟨cyc, h, -⟩ := WorldInv.start h8 hlt hnew
    exact ⟨cyc, h⟩
  · obtain ⟨hc, -⟩ := Bool.and_eq_true_iff.1 hG
    obtain ⟨l, -, -, -, h'⟩ := h.step hlt (of_decide_eq_true hc) hs
    exact ⟨_, h'⟩

theorem WorldInv.storedIn_eq {w : World α} {cyc : QueueDirection → ℕ → List ℕ}
    (h : WorldInv qSize w cyc) {d : QueueDirection} {i : ℕ} (hi : (d, i) ∈ w.bar.all) :
    storedIn w.bar d i = packetsIn w.bar.segs (cyc d i) := by
  rw [storedIn, h.bar.segmentsOf_eq hi]

/-! ### The result -/

section Parts

variable {w : World α} {cyc : QueueDirection → ℕ → List ℕ} (h : WorldInv qSize w cyc)

include h

theorem WorldInv.send_stores (hlt : qSize < 2 ^ 16) {main : Bool} {qid : ℕ}
    (hi : qid < w.bar.numQueues (sendDir main)) (pkts : List α) :
    ∃ bar' n, sendPacketsVport w.bar main qid pkts = .ok (bar', n) ∧ n ≤ pkts.length ∧
      (storedIn bar' (sendDir main) qid).Perm
        (storedIn w.bar (sendDir main) qid ++ pkts.take n) := by
  have hi' := mem_all.2 hi
  obtain ⟨bar', n, hs, hn, ht, hinv, hperm⟩ := h.bar.send hlt hi' pkts
  refine ⟨bar', n, hs, hn, ?_⟩
  rwa [h.storedIn_eq hi', storedIn, hinv.segmentsOf_eq hi']

theorem WorldInv.recv_returns {main : Bool} {qid : ℕ} (hi : qid < w.bar.numQueues (recvDir main))
    (cnt : ℕ) (hpull : needsExtension (w.bar.queues (recvDir main) qid) = true →
      w.bar.pool.ptrStack ≠ []) :
    ∃ bar', recvPacketsVport w.bar main qid cnt =
      .ok (bar', (storedIn w.bar (recvDir main) qid).take cnt) := by
  have hi' := mem_all.2 hi
  rw [h.storedIn_eq hi']
  rcases h.bar.recv hi' cnt with ⟨-, hneed, hstack⟩ | ⟨bar', l, pulled, hr, -, -⟩
  · exact absurd hstack (hpull hneed)
  · exact ⟨bar', hr⟩

theorem WorldInv.length_stored {d : QueueDirection} {i : ℕ} (hi : (d, i) ∈ w.bar.all) :
    (storedIn w.bar d i).length = (w.accepted d i).length - (w.delivered d i).length := by
  have hlen := (h.conserve d i hi).length_eq
  rw [List.length_append, ← h.storedIn_eq hi] at hlen
  omega

theorem WorldInv.count_eq {d : QueueDirection} {i : ℕ} (hi : (d, i) ∈ w.bar.all) :
    wsub 32 (w.bar.queues d i).enqueuePkts (w.bar.queues d i).dequeuePkts =
      ((segmentsOf w.bar d i).map fun s => (w.bar.segs s).ring.count).sum := by
  have hq := h.bar.queue d i hi
  rw [h.bar.segmentsOf_eq hi, hq.list.sum_count]
  exact hq.count

/-- A call leaves what the other queues store as it is. -/
theorem WorldInv.stored_other {w' : World α} {c : Call α} (hlt : qSize < 2 ^ 16)
    (hc : c.Valid w.bar) (hstep : w.step c = .ok w') {d : QueueDirection} {i : ℕ}
    (hi : (d, i) ∈ w.bar.all) (hne : (d, i) ≠ c.queue) :
    storedIn w'.bar d i = storedIn w.bar d i := by
  obtain ⟨l, pulled, ht, hl, h'⟩ := h.step hlt hc hstep
  have hi' : (d, i) ∈ w'.bar.all := ht.all_eq.symm ▸ hi
  have hne' : (d, i) ≠ (c.queue.1, c.queue.2) := hne
  rw [h'.storedIn_eq hi', h.storedIn_eq hi, setAt_of_ne _ _ hne']
  exact h.bar.packetsIn_other ht hl hi hne

end Parts

/-- **No loss, no duplication, exact batch sizes.**  In every state that calls on a new vport with
rings of at least eight slots can reach: a send returns and stores the prefix of its batch that it
reports; a receive whose extension finds a segment returns as many packets as it is asked for, or
all that were accepted and not delivered; every queue has accepted what it delivered and stores,
and its two counters differ by what its rings hold; and a call changes the content of no other
queue. -/
theorem vport_conserves {numIncQ numOutQ poolSize : ℕ} {bar : VportBar α} {w : World α}
    (h8 : 8 ≤ qSize) (hlt : qSize < 2 ^ 16)
    (hnew : newVport numIncQ numOutQ poolSize qSize = some bar) (hw : World.Reachable bar w) :
    (∀ main qid pkts, qid < w.bar.numQueues (sendDir main) →
      ∃ bar' n, sendPacketsVport w.bar main qid pkts = .ok (bar', n) ∧ n ≤ pkts.length ∧
        (storedIn bar' (sendDir main) qid).Perm
          (storedIn w.bar (sendDir main) qid ++ pkts.take n)) ∧
    (∀ main qid cnt, qid < w.bar.numQueues (recvDir main) →
      (needsExtension (w.bar.queues (recvDir main) qid) = true → w.bar.pool.ptrStack ≠ []) →
      ∃ bar' pkts, recvPacketsVport w.bar main qid cnt = .ok (bar', pkts) ∧
        pkts.length = min cnt ((w.accepted (recvDir main) qid).length -
          (w.delivered (recvDir main) qid).length)) ∧
    (∀ d i, i < w.bar.numQueues d →
      (w.accepted d i).Perm (w.delivered d i ++ storedIn w.bar d i) ∧
      wsub 32 (w.bar.queues d i).enqueuePkts (w.bar.queues d i).dequeuePkts =
        ((segmentsOf w.bar d i).map fun s => (w.bar.segs s).ring.count).sum) ∧
    ∀ c w', Call.Valid w.bar c → w.step c = .ok w' → ∀ d i, i < w.bar.numQueues d →
      (d, i) ≠ c.queue → storedIn w'.bar d i = storedIn w.bar d i := by
  obtain ⟨cyc, h⟩ := WorldInv.reachable h8 hlt hnew hw
  refine ⟨fun main qid pkts hi => h.send_stores hlt hi pkts, fun main qid cnt hi hpull => ?_,
    fun d i hi => ⟨?_, h.count_eq (mem_all.2 hi)⟩,
    fun c w' hc hs d i hi hne => h.stored_other hlt hc hs (mem_all.2 hi) hne⟩
  · obtain ⟨bar', hr⟩ := h.recv_returns hi cnt hpull
    exact ⟨bar', _, hr, by rw [List.length_take, h.length_stored (mem_all.2 hi)]⟩
  · rw [h.storedIn_eq (mem_all.2 hi)]
    exact h.conserve d i (mem_all.2 hi)

/-- A vport with rings of eight slots in which the main endpoint has sent ten packets. -/
theorem vport_conserves_after_send :
    ∃ (bar : VportBar ℕ) (w : World ℕ), newVport 1 1 4 8 = some bar ∧ World.Reachable bar w ∧
      w.accepted .out 0 = List.range 7 ∧
      (w.accepted .out 0).Perm (w.delivered .out 0 ++ storedIn w.bar .out 0) := by
  have hrun : ((newVport 1 1 4 8 : Option (VportBar ℕ)).bind fun bar =>
      ((World.start bar).runCalls (fun _ _ => true) [.send true 0 (List.range 10)]).map fun w =>
        decide (w.accepted .out 0 = List.range 7 ∧ 0 < w.bar.numOutQ)) = some true := by
    decide +kernel
  obtain ⟨bar, w, hbar, hreach, hdec⟩ := Run.exists_init_reachIf _ hrun
  obtain ⟨hacc, hpos⟩ := of_decide_eq_true hdec
  exact ⟨bar, w, hbar, hreach, hacc,
    ((vport_conserves (by decide) (by decide) hbar hreach).2.2.1 .out 0 hpos).1⟩

/-- With rings of four slots the conclusion fails.  One packet sent on the second queue is stored
in the word that is also the `list.next` of the first queue's segment; a batch that does not fit
the first queue is then continued at the packet's address. -/
theorem small_rings_lose_segment :
    ∃ (bar : VportBar ℕ) (w : World ℕ), newVport 0 2 4 4 = some bar ∧ World.Reachable bar w ∧
      segmentsOf bar .out 0 = [3] ∧ (w.bar.segs 3).next = 101 ∧
      ¬ ∀ main qid pkts, qid < w.bar.numQueues (sendDir main) →
        ∃ bar' n, sendPacketsVport w.bar main qid pkts = .ok (bar', n) := by
  have hrun : ((newVport 0 2 4 4 : Option (VportBar ℕ)).bind fun bar =>
      ((World.start bar).runCalls (fun _ _ => true) [.send true 1 [101]]).map fun w =>
        decide (segmentsOf bar .out 0 = [3] ∧ (w.bar.segs 3).next = 101 ∧ 0 < w.bar.numOutQ) &&
          match sendPacketsVport w.bar true 0 [102, 103, 104, 105] with
          | .ok _ => false
          | .error e => decide (e = .wildPointer)) = some true := by
    decide +kernel
  obtain ⟨bar, w, hbar, hreach, hdec⟩ := Run.exists_init_reachIf _ hrun
  obtain ⟨hstate, hsend⟩ := Bool.and_eq_true_iff.1 hdec
  obtain ⟨hsegs, hnext, hpos⟩ := of_decide_eq_true hstate
  refine ⟨bar, w, hbar, hreach, hsegs, hnext, fun hall => ?_⟩
  obtain ⟨bar', n, hok⟩ := hall true 0 [102, 103, 104, 105] hpos
  simp [hok] at hsend

end Backdraft

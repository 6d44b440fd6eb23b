import Backdraft.Lib.Slots
import Backdraft.Vport.Conservation

/-!
# The order of delivery

The reader hops to the next segment only when it came up short, so after a drain of exactly the
packets of its segment it still stands at an empty one, while the writer is further on.  When the
writer's segment, and all up to the reader's, are full, the writer takes the reader's segment for
a free one and newer packets are delivered before older ones.

* `keepsOrder`: the condition on a send under which this does not happen;
* `sendPkts_inOrder`: such a send appends to the stored packets;
* `vport_fifo`: if all sends meet the condition, every queue delivers in the order in which it
  accepts;
* `vport_reorders`: a run in which a queue does not.
-/

namespace Backdraft

open Word Cycle

variable {α : Type} [Pointer α] {qSize : ℕ}

/-- The free slots from the writer's segment up to, and without, the reader's. -/
def roomBeforeReader (bar : VportBar α) (d : QueueDirection) (i : ℕ) : ℕ :=
  ((walk (fun s => (bar.segs s).next) (bar.queues d i).readerHead bar.pool.numLlrings
    (bar.queues d i).writerHead).map fun s => (bar.segs s).ring.freeCount).sum

/-- A send that does not run into the reader's segment from behind: reader and writer are at the
same segment, or the reader's is not empty, or the batch fits before it. -/
def keepsOrder (w : World α) : Call α → Bool
  | .send main qid pkts =>
    let q := w.bar.queues (sendDir main) qid
    decide (q.writerHead = q.readerHead ∨ (w.bar.segs q.readerHead).ring.count ≠ 0 ∨
      pkts.length ≤ roomBeforeReader w.bar (sendDir main) qid)
  | .recv _ _ _ => true

/-! ### One send -/

/-- The writer is at the segment `w` of a queue that is in order, and has room, or a reason to stop,
before the first segment of the list. -/
structure WriterAt (qSize : ℕ) (segs : ℕ → LlrSeg α) (A : List ℕ) (w : ℕ) (B : List ℕ)
    (pkts : List α) : Prop where
  list : SegList qSize segs (A ++ w :: B)
  empty : ∀ s ∈ B, (segs s).ring.contents = []
  room : ∀ a ∈ A.head?, (segs a).ring.contents ≠ [] ∨
    pkts.length ≤ ((w :: B).map fun s => (segs s).ring.freeCount).sum

namespace WriterAt

variable {segs : ℕ → LlrSeg α} {A B : List ℕ} {w b n : ℕ} {pkts : List α} {r : Llring α}

/-- One round fills the free slots of the writer's segment. -/
theorem num_eq (h : WriterAt qSize segs A w B pkts)
    (hround : Round qSize (A ++ w :: B) segs w pkts r n) :
    n = min pkts.length (segs w).ring.freeCount := by
  have hw : w ∈ A ++ w :: B := by simp
  rw [(h.list.wf w hw).freeCount_eq, h.list.mask hw]
  exact hround.num_eq

theorem empty_setRing (h : WriterAt qSize segs A w B pkts) (r : Llring α) :
    ∀ s ∈ B, (setRing segs w r s).ring.contents = [] := by
  intro s hs
  rw [h.list.setRing_right r hs, h.empty s hs]

/-- The packets of the round come after all that are stored. -/
theorem packetsIn_setRing (h : WriterAt qSize segs A w B pkts)
    (hcont : r.contents = (segs w).ring.contents ++ pkts.take n) :
    packetsIn (setRing segs w r) (A ++ w :: B) = packetsIn segs (A ++ w :: B) ++ pkts.take n := by
  simp only [packetsIn_append, packetsIn_cons, setRing_self,
    Backdraft.packetsIn_setRing r h.list.notMem_left, packetsIn_eq_nil_iff.2 (h.empty_setRing r),
    packetsIn_eq_nil_iff.2 h.empty, hcont, List.append_nil, List.append_assoc]

/-- At the end of the list the writer does not enter the first segment. -/
theorem contents_next_ne_nil (h : WriterAt qSize segs A w [] pkts) (r : Llring α)
    (hlt : (segs w).ring.freeCount < pkts.length) (hne : (segs w).next ≠ w) :
    (setRing segs w r (segs w).next).ring.contents ≠ [] := by
  cases A with
  | nil => exact absurd (isCycle_singleton.1 h.list.cycle).1 hne
  | cons a A =>
    have hnext : (segs w).next = a := IsCycle.next_last (A := A) h.list.cycle
    rw [hnext, h.list.setRing_left r (by simp)]
    rcases h.room a (by simp) with hfirst | hfits
    · exact hfirst
    · rw [List.map_singleton, List.sum_singleton] at hfits
      omega

/-- From a segment that it has filled the writer goes on to the next. -/
theorem hop (h : WriterAt qSize segs A w (b :: B) pkts) (h2 : 2 ≤ qSize)
    (hround : Round qSize (A ++ w :: b :: B) segs w pkts r n) (hlt : n < pkts.length) :
    WriterAt qSize (setRing segs w r) (A ++ [w]) b B (pkts.drop n) := by
  have hmin := h.num_eq hround
  obtain ⟨hlist, hcont, -⟩ := hround
  have hfree : (segs w).ring.freeCount = qSize - 1 - (segs w).ring.contents.length := by
    rw [(h.list.wf w (by simp)).freeCount_eq, h.list.mask (by simp)]
  refine ⟨by simpa using hlist, fun s hs => h.empty_setRing r s (by simp [hs]), fun a ha => ?_⟩
  have hsame : ((b :: B).map fun s => (setRing segs w r s).ring.freeCount) =
      (b :: B).map fun s => (segs s).ring.freeCount :=
    List.map_congr_left fun s hs => by rw [h.list.setRing_right r hs]
  rw [hsame, List.length_drop]
  cases A with
  | nil =>
    -- the writer leaves the first segment full
    obtain rfl : w = a := by simpa using ha
    refine Or.inl fun hnil => ?_
    rw [setRing_self, hcont] at hnil
    have hlen := congrArg List.length hnil
    rw [List.length_append, List.length_take, List.length_nil] at hlen
    omega
  | cons c A =>
    obtain rfl : c = a := by simpa using ha
    rw [h.list.setRing_left r (by simp)]
    refine (h.room c (by simp)).imp id fun hfits => ?_
    rw [List.map_cons, List.sum_cons] at hfits
    omega

end WriterAt

/-- A send that starts in order and has room, or a reason to stop before the first segment of the
list, appends to the stored packets and leaves the queue in order. -/
theorem sendPkts_inOrder (h2 : 2 ≤ qSize) {pool : LlringPool} {A B : List ℕ} {w e t rounds : ℕ}
    {segs segs' : ℕ → LlrSeg α} {q q' : QueueHandler} {pkts : List α}
    (hpool : PoolOk qSize pool (A ++ w :: B)) (h : WriterAt qSize segs A w B pkts)
    (hq : q.writerHead = w)
    (heq : sendPkts pool segs q w pkts e rounds = .ok (segs', q', t)) :
    ∃ m, t = e + m ∧
      packetsIn segs' (A ++ w :: B) = packetsIn segs (A ++ w :: B) ++ pkts.take m ∧
      InOrder segs' (A ++ w :: B) q'.writerHead := by
  induction rounds generalizing A B w e segs q pkts with
  | zero => simp [sendPkts] at heq
  | succ rounds ih =>
    obtain ⟨r, n, hround, hcases⟩ :=
      sendPkts_succ hpool h.list (s := w) (by simp) q pkts e rounds
    have hpkts := h.packetsIn_setRing hround.contents_eq
    rcases hcases with ⟨hlt, hne, hnil, hsend⟩ | ⟨-, hsend⟩
    · cases B with
      | nil =>
        have hmin := h.num_eq hround
        exact absurd hnil (h.contents_next_ne_nil r (by omega) hne)
      | cons b B =>
        have hsplit : A ++ w :: b :: B = A ++ [w] ++ b :: B := by simp
        rw [hsend, h.list.cycle.next_mid] at heq
        have hhop := h.hop h2 hround hlt
        rw [hsplit] at hpool hpkts ⊢
        obtain ⟨k, hk, hpk, hord⟩ := ih hpool hhop rfl heq
        refine ⟨n + k, by omega, ?_, hord⟩
        rw [hpk, hpkts, List.take_add, List.append_assoc]
    · rw [hsend, Except.ok.injEq, Prod.mk.injEq, Prod.mk.injEq] at heq
      obtain ⟨rfl, rfl, rfl⟩ := heq
      exact ⟨n, rfl, hpkts, A, B, by rw [hq], h.empty_setRing r⟩

/-- The condition on a send: if the writer comes round to the segment of the reader, that still has
packets, or the batch fits before it. -/
theorem BarInv.room_of_keepsOrder {Q : List (QueueDirection × ℕ)} {w : World α}
    {cyc : QueueDirection → ℕ → List ℕ} (h : BarInv qSize Q w.bar cyc) {main : Bool} {qid : ℕ}
    {pkts : List α} (hi : (sendDir main, qid) ∈ Q)
    (hkeep : keepsOrder w (.send main qid pkts) = true) {A B : List ℕ}
    (hAB : cyc (sendDir main) qid = A ++ (w.bar.queues (sendDir main) qid).writerHead :: B) :
    ∀ a ∈ A.head?, (w.bar.segs a).ring.contents ≠ [] ∨ pkts.length ≤
      (((w.bar.queues (sendDir main) qid).writerHead :: B).map fun s =>
        (w.bar.segs s).ring.freeCount).sum := by
  intro a ha
  have hq := h.queue _ _ hi
  have hlist := hq.list
  have hlen := h.length_le hi
  obtain ⟨l, hl⟩ := hq.eq_cons
  rw [hAB] at hlist hlen
  obtain ⟨A', rfl⟩ : ∃ A', A = a :: A' := by
    cases A with
    | nil => simp at ha
    | cons c A' => exact ⟨A', by simpa using ha⟩
  obtain rfl : (w.bar.queues (sendDir main) qid).readerHead = a := by
    simpa using congrArg List.head? (hl.symm.trans hAB)
  simp only [keepsOrder, decide_eq_true_eq] at hkeep
  rcases hkeep with hsame | hne | hfits
  · -- the writer's segment comes after the first one
    have hnd := hlist.cycle.nodup
    rw [hsame] at hnd
    simp at hnd
  · refine Or.inl fun hnil => hne ?_
    rw [(hlist.wf _ (by simp)).count_eq, hnil, List.length_nil]
  · right
    have hcycle := hq.list.cycle
    rw [hl] at hcycle
    rw [roomBeforeReader, hcycle.walk_suffix (hAB.symm.trans hl) (by simp at hlen ⊢; omega)]
      at hfits
    exact hfits

/-- A send that meets the condition, on a queue that is in order. -/
theorem BarInv.send_inOrder {Q : List (QueueDirection × ℕ)} {w : World α} {bar' : VportBar α}
    {cyc : QueueDirection → ℕ → List ℕ} (h : BarInv qSize Q w.bar cyc) {main : Bool} {qid n : ℕ}
    {pkts : List α} (hi : (sendDir main, qid) ∈ Q)
    (hkeep : keepsOrder w (.send main qid pkts) = true)
    (hord : InOrder w.bar.segs (cyc (sendDir main) qid)
      (w.bar.queues (sendDir main) qid).writerHead)
    (hsend : sendPacketsVport w.bar main qid pkts = .ok (bar', n)) :
    packetsIn bar'.segs (cyc (sendDir main) qid) =
        packetsIn w.bar.segs (cyc (sendDir main) qid) ++ pkts.take n ∧
      InOrder bar'.segs (cyc (sendDir main) qid) (bar'.queues (sendDir main) qid).writerHead := by
  have hq := h.queue _ _ hi
  have hpool := h.poolOk hi
  obtain ⟨segs, q, heq, rfl⟩ := sendPacketsVport_eq_ok.1 hsend
  obtain ⟨A, B, hAB, hB⟩ := hord
  have hroom := h.room_of_keepsOrder hi hkeep hAB
  have hlist := hq.list
  rw [hAB] at hpool hlist ⊢
  obtain ⟨m, hm, hpk, hord'⟩ := sendPkts_inOrder hq.two_le hpool ⟨hlist, hB, hroom⟩ rfl heq
  obtain rfl : n = m := by omega
  exact ⟨hpk, by simpa using hord'⟩

/-! ### Runs -/

/-- Every queue is in order and has delivered the first packets it accepted. -/
structure OrderInv (qSize : ℕ) (w : World α) (cyc : QueueDirection → ℕ → List ℕ) : Prop where
  world : WorldInv qSize w cyc
  inOrder : ∀ d i, (d, i) ∈ w.bar.all →
    InOrder w.bar.segs (cyc d i) (w.bar.queues d i).writerHead
  fifo : ∀ d i, (d, i) ∈ w.bar.all →
    w.accepted d i = w.delivered d i ++ packetsIn w.bar.segs (cyc d i)

theorem inOrder_congr {segs segs' : ℕ → LlrSeg α} {l : List ℕ} {w : ℕ} (h : InOrder segs l w)
    (heq : ∀ s ∈ l, segs' s = segs s) : InOrder segs' l w := by
  obtain ⟨A, B, rfl, hB⟩ := h
  exact ⟨A, B, rfl, fun s hs => by rw [heq s (by simp [hs]), hB s hs]⟩

theorem OrderInv.send {w : World α} {cyc : QueueDirection → ℕ → List ℕ} {main : Bool} {qid n : ℕ}
    {pkts : List α} {bar' : VportBar α} (h : OrderInv qSize w cyc) (hlt : qSize < 2 ^ 16)
    (hi : (sendDir main, qid) ∈ w.bar.all) (hkeep : keepsOrder w (.send main qid pkts) = true)
    (hsend : sendPacketsVport w.bar main qid pkts = .ok (bar', n)) :
    OrderInv qSize { w with
      bar := bar'
      accepted := appendAt w.accepted (sendDir main) qid (pkts.take n) } cyc := by
  obtain ⟨ht, hinv, -⟩ := h.world.bar.of_send hlt hi hsend
  have hl : ∀ s ∈ cyc (sendDir main) qid, ((sendDir main, qid) ∈ w.bar.all ∧
      s ∈ cyc (sendDir main) qid) ∨ s ∈ ([] : List ℕ) := fun s hs => Or.inl ⟨hi, hs⟩
  obtain ⟨hpk, hord⟩ := h.world.bar.send_inOrder hi hkeep (h.inOrder _ _ hi) hsend
  have hfifo : ∀ d i, (d, i) ∈ bar'.all →
      appendAt w.accepted (sendDir main) qid (pkts.take n) d i =
        w.delivered d i ++ packetsIn bar'.segs (cyc d i) := by
    intro d i hd
    rw [ht.all_eq] at hd
    by_cases he : (d, i) = (sendDir main, qid)
    · cases he
      rw [appendAt, setAt_self, hpk, h.fifo _ _ hd, List.append_assoc]
    · rw [appendAt, setAt_of_ne _ _ he, h.fifo d i hd, h.world.bar.packetsIn_other ht hl hd he]
  refine ⟨⟨ht.all_eq ▸ hinv, fun d i hd => List.Perm.of_eq (hfifo d i hd)⟩, ?_, hfifo⟩
  intro d i hd
  rw [ht.all_eq] at hd
  by_cases he : (d, i) = (sendDir main, qid)
  · cases he; exact hord
  · simp only [ht.queues d i he]
    exact inOrder_congr (h.inOrder d i hd) fun s hs => (h.world.bar.segs_eq ht hl hd he s hs).2

theorem OrderInv.recv {w : World α} {cyc : QueueDirection → ℕ → List ℕ} {main : Bool}
    {qid cnt : ℕ} {pkts : List α} {bar' : VportBar α} (h : OrderInv qSize w cyc)
    (hi : (recvDir main, qid) ∈ w.bar.all)
    (hr : recvPacketsVport w.bar main qid cnt = .ok (bar', pkts)) :
    ∃ cyc', OrderInv qSize { w with
      bar := bar'
      delivered := appendAt w.delivered (recvDir main) qid pkts } cyc' := by
  obtain ⟨rfl, l, pulled, hdel, hl⟩ := h.world.bar.of_recv hi hr
  have ht := hdel.touches
  have hfifo : ∀ d i, (d, i) ∈ bar'.all → w.accepted d i =
      appendAt w.delivered (recvDir main) qid
        ((packetsIn w.bar.segs (cyc (recvDir main) qid)).take cnt) d i ++
        packetsIn bar'.segs (setAt cyc (recvDir main) qid l d i) := by
    intro d i hd
    rw [ht.all_eq] at hd
    by_cases he : (d, i) = (recvDir main, qid)
    · cases he
      rw [appendAt, setAt_self, setAt_self, hdel.rest, List.append_assoc, List.take_append_drop]
      exact h.fifo _ _ hd
    · rw [appendAt, setAt_of_ne _ _ he, setAt_of_ne _ _ he, h.fifo d i hd,
        h.world.bar.packetsIn_other ht hl hd he]
  refine ⟨setAt cyc (recvDir main) qid l, ⟨?_, fun d i hd => List.Perm.of_eq (hfifo d i hd)⟩, ?_,
    hfifo⟩
  · exact h.world.bar.update ht (fun p hp _ => ht.all_eq ▸ hp) hl hdel.inv
  · intro d i hd
    rw [ht.all_eq] at hd
    by_cases he : (d, i) = (recvDir main, qid)
    · cases he
      rw [setAt_self]
      exact hdel.inOrder (h.inOrder _ _ hd)
    · simp only [setAt_of_ne _ _ he, ht.queues d i he]
      exact inOrder_congr (h.inOrder d i hd) fun s hs => (h.world.bar.segs_eq ht hl hd he s hs).2

theorem OrderInv.step {w w' : World α} {cyc : QueueDirection → ℕ → List ℕ} {c : Call α}
    (h : OrderInv qSize w cyc) (hlt : qSize < 2 ^ 16) (hc : c.Valid w.bar)
    (hkeep : keepsOrder w c = true) (hs : w.step c = .ok w') : ∃ cyc', OrderInv qSize w' cyc' := by
  rcases World.step_cases hs with ⟨main, qid, pkts, bar', n, rfl, hsend, rfl⟩ |
    ⟨main, qid, cnt, bar', pkts, rfl, hr, rfl⟩
  · exact ⟨cyc, h.send hlt (mem_all.2 hc) hkeep hsend⟩
  · exact h.recv (mem_all.2 hc) hr

theorem OrderInv.start {numIncQ numOutQ poolSize : ℕ} {bar : VportBar α} (h8 : 8 ≤ qSize)
    (hlt : qSize < 2 ^ 16) (h : newVport numIncQ numOutQ poolSize qSize = some bar) :
    ∃ cyc, OrderInv qSize (World.start bar) cyc := by
  obtain ⟨cyc, hinv, hempty⟩ := WorldInv.start h8 hlt h
  refine ⟨cyc, hinv, fun d i hd => ?_, fun d i hd => ?_⟩
  · obtain ⟨s, hs, -⟩ := hempty d i hd
    have hw := (hinv.bar.queue d i hd).writer
    rw [hs] at hw ⊢
    exact ⟨[], [], by rw [List.mem_singleton.1 hw]; rfl, by simp⟩
  · obtain ⟨s, hs, hc⟩ := hempty d i hd
    simp [World.start, hs, hc]

theorem OrderInv.reachable {numIncQ numOutQ poolSize : ℕ} {bar : VportBar α} {w : World α}
    (h8 : 8 ≤ qSize) (hlt : qSize < 2 ^ 16)
    (hnew : newVport numIncQ numOutQ poolSize qSize = some bar)
    (hw : World.ReachableIf keepsOrder bar w) : ∃ cyc, OrderInv qSize w cyc := by
  refine Run.ReachIf.invariant (P := fun w => ∃ cyc, OrderInv qSize w cyc) hw
    (OrderInv.start h8 hlt hnew) fun w c w' ⟨cyc, h⟩ hG hs => ?_
  obtain ⟨hc, hkeep⟩ := Bool.and_eq_true_iff.1 hG
  exact h.step hlt (of_decide_eq_true hc) hkeep hs

/-- **First in, first out.**  If every send of a run meets `keepsOrder`, each queue has delivered a
prefix of what it has accepted; so of two packets the one accepted first is never delivered after
the other. -/
theorem vport_fifo {numIncQ numOutQ poolSize : ℕ} {bar : VportBar α} {w : World α}
    (h8 : 8 ≤ qSize) (hlt : qSize < 2 ^ 16)
    (hnew : newVport numIncQ numOutQ poolSize qSize = some bar)
    (hw : World.ReachableIf keepsOrder bar w) {d : QueueDirection} {i : ℕ}
    (hi : i < w.bar.numQueues d) :
    w.delivered d i <+: w.accepted d i ∧
      ((w.accepted d i).Nodup → ∀ a b, [a, b].Sublist (w.accepted d i) →
        ¬ [b, a].Sublist (w.delivered d i)) := by
  obtain ⟨cyc, h⟩ := OrderInv.reachable h8 hlt hnew hw
  have hpre : w.delivered d i <+: w.accepted d i := ⟨_, (h.fifo d i (mem_all.2 hi)).symm⟩
  exact ⟨hpre, fun hnd a b hab hba => Slots.not_sublist_swap hnd hab (hba.trans hpre.sublist)⟩

/-- A run of this kind in which the queue is extended and the writer hops. -/
theorem vport_fifo_extended :
    ∃ (bar : VportBar ℕ) (w : World ℕ), newVport 0 1 4 16 = some bar ∧
      World.ReachableIf keepsOrder bar w ∧ w.delivered .out 0 = List.range 17 ∧
      w.delivered .out 0 <+: w.accepted .out 0 := by
  have hrun : ((newVport 0 1 4 16 : Option (VportBar ℕ)).bind fun bar =>
      ((World.start bar).runCalls keepsOrder [.send true 0 (List.range 15), .recv false 0 1,
        .send true 0 [15, 16], .recv false 0 20]).map fun w =>
        decide (w.delivered .out 0 = List.range 17 ∧ 0 < w.bar.numOutQ)) = some true := by
    decide +kernel
  obtain ⟨bar, w, hbar, hreach, hdec⟩ := Run.exists_init_reachIf _ hrun
  obtain ⟨hdel, hpos⟩ := of_decide_eq_true hdec
  exact ⟨bar, w, hbar, hreach, hdel,
    (vport_fifo (by decide) (by decide) hbar hreach (d := .out) (i := 0) hpos).1⟩

/-- Without the condition packets overtake each other.  The queue is extended and the writer moves
to the second segment; the reader then takes exactly the 15 packets of the first and stays there;
a batch that fills the second segment is continued in the first, and its packet 31 is delivered
before packet 16. -/
theorem vport_reorders :
    ∃ (bar : VportBar ℕ) (w : World ℕ), newVport 0 1 4 16 = some bar ∧ World.Reachable bar w ∧
      (w.accepted .out 0).Nodup ∧ [16, 31].Sublist (w.accepted .out 0) ∧
      [31, 16].Sublist (w.delivered .out 0) := by
  have hrun : ((newVport 0 1 4 16 : Option (VportBar ℕ)).bind fun bar =>
      ((World.start bar).runCalls (fun _ _ => true) [.send true 0 (List.range 15),
        .recv false 0 1, .send true 0 [15, 16], .recv false 0 15,
        .send true 0 (List.range' 17 20), .recv false 0 7]).map fun w =>
        decide (w.accepted .out 0 = List.range 37 ∧
          w.delivered .out 0 = List.range 16 ++ List.range' 31 6 ++ [16])) = some true := by
    decide +kernel
  obtain ⟨bar, w, hbar, hreach, hdec⟩ := Run.exists_init_reachIf _ hrun
  obtain ⟨hacc, hdel⟩ := of_decide_eq_true hdec
  refine ⟨bar, w, hbar, hreach, ?_, ?_, ?_⟩
  · rw [hacc]; exact List.nodup_range
  · rw [hacc]; decide
  · rw [hdel]; decide

end Backdraft

import Backdraft.Vport.Invariant

/-!
# The calls of a vport

Each call keeps the invariant of the vport, and its effect on the stored packets is that of a
queue, except for the place at which `send_packets_vport` stores.

* `BarInv.send`: a send always returns, and adds the packets it accepts;
* `BarInv.extend`: the extension adds empty segments behind the last one, or there is none left;
* `BarInv.recv`: unless an extension fails, a receive returns the oldest stored packets in the
  order of the segments, as many as asked for and present;
* `InOrder`: the segments after the writer's are empty.  Extending and receiving keep this.
-/

namespace Backdraft

open Word Cycle

variable {α : Type}

/-! ### Linking a new segment -/

section Links

variable {segs : ℕ → LlrSeg α} {a n t : ℕ}

@[simp] theorem listAddTail_ring (segs : ℕ → LlrSeg α) (n a t : ℕ) :
    (listAddTail segs n a t).ring = (segs t).ring := by
  simp [listAddTail, listAdd]

theorem listAddTail_next (segs : ℕ → LlrSeg α) (n a t : ℕ) :
    (listAddTail segs n a t).next =
      if t = (segs a).prev then n else if t = n then a else (segs t).next := by
  simp [listAddTail, listAdd]

theorem listAddTail_prev (segs : ℕ → LlrSeg α) (n a t : ℕ) :
    (listAddTail segs n a t).prev =
      if t = n then (segs a).prev else if t = a then n else (segs t).prev := by
  simp [listAddTail, listAdd]

theorem listAddTail_of_ne (ha : t ≠ a) (hn : t ≠ n) (hp : t ≠ (segs a).prev) :
    listAddTail segs n a t = segs t := by
  simp [listAddTail, listAdd, setNext, setPrev, setSeg, ha, hn, hp]

/-- `list_add_tail` appends the segment to the list that starts at the reader's. -/
theorem isCycle_listAddTail {l : List ℕ}
    (h : IsCycle (fun s => (segs s).next) (fun s => (segs s).prev) (a :: l)) (hn : n ∉ a :: l) :
    IsCycle (fun s => (listAddTail segs n a s).next) (fun s => (listAddTail segs n a s).prev)
      (a :: (l ++ [n])) := by
  have hprev : (segs a).prev ∈ a :: l := h.prev_mem
  have hna : n ≠ a := fun he => hn (by simp [he])
  have hnp : n ≠ (segs a).prev := fun he => hn (he ▸ hprev)
  have hal : a ∉ l := (List.nodup_cons.1 h.nodup).1
  refine h.insert hn ?_ ?_ ?_ ?_ ?_ ?_
  · simp [listAddTail_next, hnp]
  · simp [listAddTail_prev, hna.symm]
  · simp [listAddTail_prev]
  · simp [listAddTail_next]
  · intro x hx hxp
    have hxn : x ≠ n := fun he => hn (he ▸ hx)
    simp [listAddTail_next, hxp, hxn]
  · intro x hx
    have hxn : x ≠ n := fun he => hn (by rw [← he]; simp [hx])
    have hxa : x ≠ a := fun he => hal (he ▸ hx)
    simp [listAddTail_prev, hxn, hxa]

end Links

variable {qSize : ℕ} {Q : List (QueueDirection × ℕ)} {bar bar' : VportBar α}
  {cyc : QueueDirection → ℕ → List ℕ} {d : QueueDirection} {i : ℕ}

theorem Touches.trans {l l' pulled pulled' : List ℕ} {bar'' : VportBar α}
    (h : Touches d i l pulled bar bar') (h' : Touches d i l' pulled' bar' bar'')
    (hl : ∀ s ∈ l, s ∈ l') : Touches d i l' (pulled ++ pulled') bar bar'' where
  numIncQ := h'.numIncQ.trans h.numIncQ
  numOutQ := h'.numOutQ.trans h.numOutQ
  queues d' i' hne := (h'.queues d' i' hne).trans (h.queues d' i' hne)
  segs s hs := (h'.segs s hs).trans (h.segs s fun hm => hs (hl s hm))
  stack := by rw [h.stack, h'.stack, List.append_assoc]
  numLlrings := h'.numLlrings.trans h.numLlrings
  llrSize := h'.llrSize.trans h.llrSize

/-! ### Sending -/

variable [Pointer α]

/-- A send is its loop on the queue's segments and handler. -/
theorem sendPacketsVport_eq_ok {main : Bool} {qid n : ℕ} {pkts : List α} :
    sendPacketsVport bar main qid pkts = .ok (bar', n) ↔
      ∃ segs q, sendPkts bar.pool bar.segs (bar.queues (sendDir main) qid)
          (bar.queues (sendDir main) qid).writerHead pkts 0 (pkts.length + 2) = .ok (segs, q, n) ∧
        bar' = { bar with segs := segs, queues := setAt bar.queues (sendDir main) qid q } := by
  simp only [sendPacketsVport, sendPacketsVportWithBp]
  cases sendPkts bar.pool bar.segs (bar.queues (sendDir main) qid)
    (bar.queues (sendDir main) qid).writerHead pkts 0 (pkts.length + 2) with
  | error e => simp
  | ok res =>
    obtain ⟨segs, q, m⟩ := res
    simp only [Except.ok.injEq, Prod.mk.injEq]
    constructor
    · rintro ⟨rfl, rfl⟩; exact ⟨segs, q, ⟨rfl, rfl, rfl⟩, rfl⟩
    · rintro ⟨_, _, ⟨rfl, rfl, rfl⟩, rfl⟩; exact ⟨rfl, rfl⟩

/-- **A send returns, and stores exactly the packets it reports.** -/
theorem BarInv.send (h : BarInv qSize Q bar cyc) (hlt : qSize < 2 ^ 16) {main : Bool} {qid : ℕ}
    (hi : (sendDir main, qid) ∈ Q) (pkts : List α) :
    ∃ bar' n, sendPacketsVport bar main qid pkts = .ok (bar', n) ∧ n ≤ pkts.length ∧
      Touches (sendDir main) qid (cyc (sendDir main) qid) [] bar bar' ∧
      BarInv qSize Q bar' cyc ∧
      (packetsIn bar'.segs (cyc (sendDir main) qid)).Perm
        (packetsIn bar.segs (cyc (sendDir main) qid) ++ pkts.take n) := by
  have hq := h.queue _ _ hi
  obtain ⟨segs, q, n, heq, hsent⟩ := sendPkts_spec hq.two_le (h.poolOk hi) (pkts.length + 2) _ pkts
    0 hq.list hq.writer (by split_ifs <;> omega)
  rw [Nat.zero_add] at heq
  have hlen := hsent.perm.length_eq
  rw [List.length_append, List.length_take, min_eq_left hsent.le] at hlen
  have hsmall := hq.length_lt hlt hsent.list
  obtain ⟨w, hw, hqeq⟩ := hsent.handler
  have ht : Touches (sendDir main) qid (cyc (sendDir main) qid) [] bar
      { bar with segs := segs, queues := setAt bar.queues (sendDir main) qid q } :=
    ⟨rfl, rfl, fun _ _ hne => setAt_of_ne _ _ hne, hsent.only.off, rfl, rfl, rfl⟩
  refine ⟨_, n, sendPacketsVport_eq_ok.2 ⟨segs, q, heq, rfl⟩, hsent.le, ht, ?_, hsent.perm⟩
  · have hq' : QueueInv qSize segs q (cyc (sendDir main) qid) := by
      subst hqeq
      refine ⟨hq.two_le, hsent.list, hq.reader, hw, ?_, hq.total, hq.bound⟩
      have hcount := hq.count
      simp only [countPktsInQ] at hcount ⊢
      rw [wsub_wadd_left (by omega), hcount, hlen]
    have hupd := h.update ht (fun p hp _ => hp) (fun s hs => Or.inl ⟨hi, hs⟩) (by simpa using hq')
    rwa [setAt_eq_self] at hupd

/-- What a send that has returned did. -/
theorem BarInv.of_send (h : BarInv qSize Q bar cyc) (hlt : qSize < 2 ^ 16) {main : Bool}
    {qid n : ℕ} {pkts : List α} (hi : (sendDir main, qid) ∈ Q)
    (hsend : sendPacketsVport bar main qid pkts = .ok (bar', n)) :
    Touches (sendDir main) qid (cyc (sendDir main) qid) [] bar bar' ∧ BarInv qSize Q bar' cyc ∧
      (packetsIn bar'.segs (cyc (sendDir main) qid)).Perm
        (packetsIn bar.segs (cyc (sendDir main) qid) ++ pkts.take n) := by
  obtain ⟨bar₁, n₁, hok, -, ht, hinv, hperm⟩ := h.send hlt hi pkts
  obtain ⟨rfl, rfl⟩ : bar' = bar₁ ∧ n = n₁ := by simpa [hsend] using hok
  exact ⟨ht, hinv, hperm⟩

/-! ### Receiving -/

/-- The segments of `l` after the writer's segment `w` are empty. -/
def InOrder (segs : ℕ → LlrSeg α) (l : List ℕ) (w : ℕ) : Prop :=
  ∃ A B, l = A ++ w :: B ∧ ∀ s ∈ B, (segs s).ring.contents = []

/-- What the extension of a queue has done. -/
structure Extended (qSize : ℕ) (d : QueueDirection) (i : ℕ) (l fresh : List ℕ)
    (bar bar' : VportBar α) : Prop where
  touches : Touches d i (l ++ fresh) fresh bar bar'
  inv : QueueInv qSize bar'.segs (bar'.queues d i) (l ++ fresh)
  rings : ∀ s, (bar'.segs s).ring = (bar.segs s).ring
  empty : ∀ s ∈ fresh, (bar'.segs s).ring.contents = []
  writer : (bar'.queues d i).writerHead = (bar.queues d i).writerHead

/-- A fresh segment linked in before the first one. -/
theorem SegList.listAddTail {segs : ℕ → LlrSeg α} {a n : ℕ} {l : List ℕ}
    (h : SegList qSize segs (a :: l)) (hn : n ∉ a :: l) (hfresh : Fresh qSize (segs n)) :
    SegList qSize (Backdraft.listAddTail segs n a) (a :: l ++ [n]) := by
  refine ⟨isCycle_listAddTail h.cycle hn, fun s hs => ?_, fun s hs => ?_⟩
  · rw [listAddTail_ring]
    rcases List.mem_append.1 hs with hs | hs
    · exact h.wf s hs
    · rw [List.mem_singleton.1 hs]; exact hfresh.wf
  · rw [listAddTail_ring]
    rcases List.mem_append.1 hs with hs | hs
    · exact h.slots s hs
    · rw [List.mem_singleton.1 hs]; exact hfresh.slots

/-- The handler of a queue that got a fresh segment. -/
theorem QueueInv.listAddTail {segs : ℕ → LlrSeg α} {q q' : QueueHandler} {l : List ℕ} {n : ℕ}
    (h : QueueInv qSize segs q l) (hn : n ∉ l) (hfresh : Fresh qSize (segs n))
    (hlt : q.totalSize < queueLengthUpperBound)
    (hq' : q' = { q with
      totalSize := q.totalSize + qSize, thOver := q'.thOver, thGoal := q'.thGoal }) :
    QueueInv qSize (Backdraft.listAddTail segs n q.readerHead) q' (l ++ [n]) := by
  obtain ⟨l', rfl⟩ := h.eq_cons
  have hsame : packetsIn (Backdraft.listAddTail segs n q.readerHead) (q.readerHead :: l') =
      packetsIn segs (q.readerHead :: l') := packetsIn_congr fun s _ => by rw [listAddTail_ring]
  rw [hq']
  refine ⟨h.two_le, h.list.listAddTail hn hfresh, by simp, List.mem_append_left _ h.writer, ?_, ?_,
    Or.inr ?_⟩
  · rw [packetsIn_append, packetsIn_cons _ n, listAddTail_ring, hfresh.empty, hsame]
    simpa [countPktsInQ] using h.count
  · simp only [h.total, List.length_append, List.length_singleton, Nat.add_mul, Nat.one_mul]
  · simp only
    omega

/-- The extension fails exactly when it is needed and the pool is empty. -/
theorem BarInv.extend (h : BarInv qSize Q bar cyc) (hi : (d, i) ∈ Q) :
    (extendQueue bar d i = .error .segNull ∧ needsExtension (bar.queues d i) = true ∧
        bar.pool.ptrStack = []) ∨
      ∃ bar' fresh, extendQueue bar d i = .ok bar' ∧
        ¬ (needsExtension (bar.queues d i) = true ∧ bar.pool.ptrStack = []) ∧
        Extended qSize d i (cyc d i) fresh bar bar' := by
  have hq := h.queue d i hi
  by_cases hneed : needsExtension (bar.queues d i) = true
  · cases hstack : bar.pool.ptrStack with
    | nil => exact Or.inl ⟨by simp [extendQueue, hneed, pullLlr, hstack], hneed, rfl⟩
    | cons seg rest =>
      have hfresh := (h.fresh seg (by simp [hstack])).1
      have hseg : seg ∉ cyc d i := fun hm => h.used d i hi seg hm (by simp [hstack])
      have hprev : (bar.segs (bar.queues d i).readerHead).prev ∈ cyc d i := by
        obtain ⟨l, hl⟩ := hq.eq_cons
        have hcycle := hq.list.cycle
        rw [hl] at hcycle ⊢
        exact hcycle.prev_mem
      have hknown := h.known d i hi _ hprev
      refine Or.inr ⟨_, [seg], by
        simp only [extendQueue, hneed, pullLlr, hstack, if_true, if_pos hknown, h.llrSize,
          addLinks_of_apart h.noOverlap]; rfl, by simp, ?_⟩
      refine ⟨⟨rfl, rfl, fun _ _ hne => setAt_of_ne _ _ hne, ?_, by simp [hstack], rfl,
        h.llrSize.symm⟩, ?_, fun s => listAddTail_ring _ _ _ s, ?_, by simp⟩
      · intro s hs
        have hreader := List.mem_of_mem_head? (h.queue d i hi).reader
        exact listAddTail_of_ne (by rintro rfl; exact hs (List.mem_append_left _ hreader))
          (by rintro rfl; simp at hs)
          (by rintro rfl; exact hs (List.mem_append_left _ hprev))
      · simp only [setAt_self]
        have hlt : (bar.queues d i).totalSize < queueLengthUpperBound := by
          simp only [needsExtension, decide_eq_true_eq] at hneed; exact hneed.2
        exact hq.listAddTail hseg hfresh hlt rfl
      · intro s hs
        rw [List.mem_singleton.1 hs, listAddTail_ring, hfresh.empty]
  · refine Or.inr ⟨bar, [], by simp [extendQueue, hneed], fun hc => hneed hc.1, ?_⟩
    exact ⟨⟨rfl, rfl, fun _ _ _ => rfl, fun _ _ => rfl, rfl, rfl, rfl⟩, by simpa using hq,
      fun _ => rfl, by simp, rfl⟩

theorem Extended.packetsIn_eq {l fresh : List ℕ} (h : Extended qSize d i l fresh bar bar') :
    packetsIn bar'.segs (l ++ fresh) = packetsIn bar.segs l := by
  rw [packetsIn_append, packetsIn_eq_nil_iff.2 h.empty, List.append_nil]
  exact packetsIn_congr fun s _ => by rw [h.rings]

theorem Extended.inOrder {l fresh : List ℕ} {w : ℕ} (h : Extended qSize d i l fresh bar bar')
    (hw : InOrder bar.segs l w) : InOrder bar'.segs (l ++ fresh) w := by
  obtain ⟨A, B, rfl, hB⟩ := hw
  refine ⟨A, B ++ fresh, by simp, fun s hs => ?_⟩
  rcases List.mem_append.1 hs with hs | hs
  · rw [h.rings, hB s hs]
  · exact h.empty s hs

section Read

variable {segs segs' : ℕ → LlrSeg α} {q q' : QueueHandler} {cnt r : ℕ} {l A B : List ℕ}

/-- The stored packets after a read, from the new reader's segment on. -/
theorem Received.packetsIn_eq (h : Received qSize [] l segs q cnt segs' q' A r B) :
    packetsIn segs' (r :: (B ++ A)) = (packetsIn segs l).drop cnt := by
  have hA : packetsIn segs' A = [] := packetsIn_eq_nil_iff.2 (by simpa using h.drained)
  rw [← List.cons_append, packetsIn_append, h.rest, hA, List.append_nil]

/-- A read keeps the invariant of its queue. -/
theorem Received.inv (h : Received qSize [] l segs q cnt segs' q' A r B)
    (hq : QueueInv qSize segs q l) : QueueInv qSize segs' q' (r :: (B ++ A)) := by
  have hlist : SegList qSize segs' (A ++ r :: B) := h.split ▸ h.list
  have hmem : ∀ s, s ∈ r :: (B ++ A) ↔ s ∈ A ++ r :: B := by intro s; simp; tauto
  have hlen : (r :: (B ++ A)).length = l.length := by rw [h.split]; simp; omega
  refine ⟨hq.two_le, hlist.rotate, by rw [h.handler]; rfl, ?_, ?_, ?_, ?_⟩
  · rw [hmem, ← h.split, h.handler]; exact hq.writer
  · have hcount := hq.count
    rw [h.packetsIn_eq, h.handler, List.length_drop]
    simp only [countPktsInQ] at hcount ⊢
    rw [wsub_wadd_right (by omega), hcount]
    omega
  · rw [hlen, h.handler]; exact hq.total
  · rw [hlen, h.handler]; exact hq.bound

/-- The reader never passes the writer, so the segments after the writer's stay empty. -/
theorem Received.inOrder {w : ℕ} (h : Received qSize [] l segs q cnt segs' q' A r B)
    (hw : InOrder segs l w) : InOrder segs' (r :: (B ++ A)) w := by
  obtain ⟨A₁, B₁, hl, hB₁⟩ := hw
  have hkeep : ∀ s, (segs s).ring.contents = [] → (segs' s).ring.contents = [] := fun s hs =>
    List.suffix_nil.1 (hs ▸ h.shrink s)
  obtain ⟨C, hC⟩ : ∃ C, r :: B = C ++ w :: B₁ := by
    rcases List.append_eq_append_iff.1 (h.split.symm.trans hl) with ⟨C, -, hC⟩ | ⟨C, hA, hC⟩
    · exact ⟨C, hC⟩
    · cases C with
      | nil => exact ⟨[], by simpa using hC.symm⟩
      | cons c C =>
        -- the reader would have left the writer's segment with only empty ones ahead
        obtain ⟨rfl, rfl⟩ : w = c ∧ B₁ = C ++ r :: B := by simpa using hC
        rcases h.ahead with hnil | hne
        · simp [hnil] at hA
        · exact absurd (packetsIn_eq_nil_iff.2 fun s hs => hB₁ s (List.mem_append_right _ hs)) hne
  refine ⟨C, B₁ ++ A, by rw [← List.cons_append, hC]; simp, fun s hs => ?_⟩
  rcases List.mem_append.1 hs with hs | hs
  · exact hkeep s (hB₁ s hs)
  · exact h.drained s (by simpa using hs)

end Read

/-- What a receive of `cnt` packets has done to a queue with the segments `l`; now they are `l'`. -/
structure Delivered (qSize : ℕ) (d : QueueDirection) (i cnt : ℕ) (l : List ℕ) (bar : VportBar α)
    (l' pulled : List ℕ) (bar' : VportBar α) : Prop where
  touches : Touches d i l' pulled bar bar'
  mem : ∀ s ∈ l', s ∈ l ∨ s ∈ pulled
  inv : QueueInv qSize bar'.segs (bar'.queues d i) l'
  rest : packetsIn bar'.segs l' = (packetsIn bar.segs l).drop cnt
  inOrder : InOrder bar.segs l (bar.queues d i).writerHead →
    InOrder bar'.segs l' (bar'.queues d i).writerHead

/-- **A receive returns the first packets of the queue**, unless its extension fails. -/
theorem BarInv.recv (h : BarInv qSize Q bar cyc) {main : Bool} {qid : ℕ}
    (hi : (recvDir main, qid) ∈ Q) (cnt : ℕ) :
    (recvPacketsVport bar main qid cnt = .error .segNull ∧
        needsExtension (bar.queues (recvDir main) qid) = true ∧ bar.pool.ptrStack = []) ∨
      ∃ bar' l' pulled, recvPacketsVport bar main qid cnt =
          .ok (bar', (packetsIn bar.segs (cyc (recvDir main) qid)).take cnt) ∧
        ¬ (needsExtension (bar.queues (recvDir main) qid) = true ∧ bar.pool.ptrStack = []) ∧
        Delivered qSize (recvDir main) qid cnt (cyc (recvDir main) qid) bar l' pulled bar' := by
  obtain ⟨d, hd⟩ : ∃ d, d = recvDir main := ⟨_, rfl⟩
  rw [← hd] at hi ⊢
  rcases h.extend hi with ⟨herr, hneed, hstack⟩ | ⟨mid, fresh, hok, hno, hext⟩
  · exact Or.inl ⟨by simp only [recvPacketsVport, ← hd, herr], hneed, hstack⟩
  · right
    have hmid : BarInv qSize Q mid (setAt cyc d qid (cyc d qid ++ fresh)) :=
      h.update hext.touches (fun p hp _ => hp)
      (fun s hs => (List.mem_append.1 hs).imp (fun hc => ⟨hi, hc⟩) id) hext.inv
    have hlen := hmid.length_le hi
    rw [setAt_self] at hlen
    obtain ⟨U, hU⟩ := hext.inv.eq_cons
    obtain ⟨segs, q, A, r, B, heq, hrec⟩ := readPkts_spec (mid.pool.numLlrings + 1) (V := [])
      _ cnt [] (by rw [List.nil_append, ← hU]; simpa using hmid.poolOk hi)
      (by rw [List.nil_append, ← hU]; exact hext.inv.list) (by simp)
      (by rw [← hU]; exact hext.inv.count) rfl (by rw [← hU]; omega)
    rw [← hU] at heq hrec
    rw [hext.packetsIn_eq, List.nil_append] at heq
    refine ⟨_, r :: (B ++ A), fresh, by simp only [recvPacketsVport, ← hd, hok, heq]; rfl, hno, ?_⟩
    have hmem : ∀ s, s ∈ r :: (B ++ A) ↔ s ∈ cyc d qid ++ fresh := by
      intro s; rw [hrec.split]; simp; tauto
    refine ⟨?_, fun s hs => List.mem_append.1 ((hmem s).1 hs), ?_, ?_, fun hw => ?_⟩
    · have hread : Touches d qid (r :: (B ++ A)) [] mid
          { mid with segs := segs, queues := setAt mid.queues d qid q } :=
        ⟨rfl, rfl, fun _ _ hne => setAt_of_ne _ _ hne,
          fun s hs => hrec.only.off s fun hm => hs ((hmem s).2 (by simpa using hm)), rfl, rfl, rfl⟩
      simpa using hext.touches.trans hread fun s hs => (hmem s).2 hs
    · simpa using hrec.inv hext.inv
    · rw [← hext.packetsIn_eq]; exact hrec.packetsIn_eq
    · have hw' := hrec.inOrder (hext.inOrder hw)
      have hsame : q.writerHead = (bar.queues d qid).writerHead := by
        rw [hrec.handler]; exact hext.writer
      simpa [hsame] using hw'

/-- What a receive that has returned did; the queue it leaves has its own segments and those that
were pulled from the pool. -/
theorem BarInv.of_recv (h : BarInv qSize Q bar cyc) {main : Bool} {qid cnt : ℕ} {pkts : List α}
    (hi : (recvDir main, qid) ∈ Q)
    (hrecv : recvPacketsVport bar main qid cnt = .ok (bar', pkts)) :
    pkts = (packetsIn bar.segs (cyc (recvDir main) qid)).take cnt ∧
      ∃ l' pulled,
        Delivered qSize (recvDir main) qid cnt (cyc (recvDir main) qid) bar l' pulled bar' ∧
        ∀ s ∈ l', ((recvDir main, qid) ∈ Q ∧ s ∈ cyc (recvDir main) qid) ∨ s ∈ pulled := by
  rcases h.recv hi cnt with ⟨herr, -⟩ | ⟨bar₁, l', pulled, hok, -, hdel⟩
  · simp [hrecv] at herr
  · obtain ⟨rfl, rfl⟩ : bar' = bar₁ ∧ pkts = _ := by simpa [hrecv] using hok
    exact ⟨rfl, l', pulled, hdel, fun s hs => (hdel.mem s hs).imp (fun hm => ⟨hi, hm⟩) id⟩

end Backdraft

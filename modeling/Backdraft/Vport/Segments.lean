import Backdraft.Vport.Model

/-!
# The two loops over the segments of one queue

What the `send_pkts` and `read_pkts` loops do to a circular list of well-formed segments.

* `SegList`: the segments of a queue, in order, with well-formed rings of one size;
* `RingsOnly`: a call writes the rings of its own queue's segments and nothing else;
* `sendPkts_spec`: the send loop ends, and what it reports accepted is what it stored;
* `readPkts_spec`: the read loop ends, takes the stored packets in order, as many as asked for
  and present, and moves the reader only while packets are left in front of it.
-/

namespace Backdraft

open Word Cycle

variable {α : Type} {segs segs' segs'' : ℕ → LlrSeg α} {l : List ℕ} {s t qSize : ℕ}

/-! ### Writing one segment -/

section Fields

variable (segs : ℕ → LlrSeg α) (s t v : ℕ)

@[simp] theorem setNext_next :
    (setNext segs s v t).next = if t = s then v else (segs t).next := by
  unfold setNext setSeg; split_ifs <;> rfl

@[simp] theorem setNext_prev : (setNext segs s v t).prev = (segs t).prev := by
  unfold setNext setSeg; split_ifs with h <;> simp [h]

@[simp] theorem setNext_ring : (setNext segs s v t).ring = (segs t).ring := by
  unfold setNext setSeg; split_ifs with h <;> simp [h]

@[simp] theorem setPrev_prev :
    (setPrev segs s v t).prev = if t = s then v else (segs t).prev := by
  unfold setPrev setSeg; split_ifs <;> rfl

@[simp] theorem setPrev_next : (setPrev segs s v t).next = (segs t).next := by
  unfold setPrev setSeg; split_ifs with h <;> simp [h]

@[simp] theorem setPrev_ring : (setPrev segs s v t).ring = (segs t).ring := by
  unfold setPrev setSeg; split_ifs with h <;> simp [h]

end Fields

theorem initListHead_of_ne (h : t ≠ s) :
    initListHead segs s t = segs t := by
  simp [initListHead, setPrev, setNext, setSeg, h]

theorem initListHead_self (segs : ℕ → LlrSeg α) (s : ℕ) :
    initListHead segs s s = ⟨s, s, (segs s).ring⟩ := by
  simp [initListHead, setPrev, setNext, setSeg]

@[simp] theorem setRing_self (segs : ℕ → LlrSeg α) (s : ℕ) (r : Llring α) :
    (setRing segs s r s).ring = r := by
  simp [setRing, setSeg]

theorem setRing_of_ne (r : Llring α) (h : t ≠ s) : setRing segs s r t = segs t := by
  simp [setRing, setSeg, h]

@[simp] theorem setRing_next (segs : ℕ → LlrSeg α) (s t : ℕ) (r : Llring α) :
    (setRing segs s r t).next = (segs t).next := by
  unfold setRing setSeg; split_ifs with h <;> simp [h]

@[simp] theorem setRing_prev (segs : ℕ → LlrSeg α) (s t : ℕ) (r : Llring α) :
    (setRing segs s r t).prev = (segs t).prev := by
  unfold setRing setSeg; split_ifs with h <;> simp [h]

/-- From `segs` to `segs'` only rings of segments in `l` were written. -/
structure RingsOnly (l : List ℕ) (segs segs' : ℕ → LlrSeg α) : Prop where
  next : ∀ s, (segs' s).next = (segs s).next
  prev : ∀ s, (segs' s).prev = (segs s).prev
  off : ∀ s, s ∉ l → segs' s = segs s

theorem RingsOnly.trans (h : RingsOnly l segs segs') (h' : RingsOnly l segs' segs'') :
    RingsOnly l segs segs'' where
  next s := (h'.next s).trans (h.next s)
  prev s := (h'.prev s).trans (h.prev s)
  off s hs := (h'.off s hs).trans (h.off s hs)

theorem ringsOnly_setRing (hs : s ∈ l) (r : Llring α) : RingsOnly l segs (setRing segs s r) where
  next t := setRing_next segs s t r
  prev t := setRing_prev segs s t r
  off _ ht := setRing_of_ne r fun h => ht (h ▸ hs)

/-- The segments of one queue: a circular list of well-formed rings of one size. -/
structure SegList (qSize : ℕ) (segs : ℕ → LlrSeg α) (l : List ℕ) : Prop where
  cycle : IsCycle (fun s => (segs s).next) (fun s => (segs s).prev) l
  wf : ∀ s ∈ l, (segs s).ring.WF
  slots : ∀ s ∈ l, (segs s).ring.slots = qSize

theorem SegList.setRing (h : SegList qSize segs l) {r : Llring α} (hr : r.WF)
    (hslots : r.slots = qSize) : SegList qSize (setRing segs s r) l where
  cycle := h.cycle.congr fun t _ => ⟨setRing_next segs s t r, setRing_prev segs s t r⟩
  wf t ht := by
    by_cases hts : t = s
    · rw [hts, setRing_self]; exact hr
    · rw [setRing_of_ne r hts]; exact h.wf t ht
  slots t ht := by
    by_cases hts : t = s
    · rw [hts, setRing_self]; exact hslots
    · rw [setRing_of_ne r hts]; exact h.slots t ht

theorem SegList.congr (h : SegList qSize segs l)
    (heq : ∀ s ∈ l, segs' s = segs s) : SegList qSize segs' l where
  cycle := h.cycle.congr fun s hs => by rw [heq s hs]; exact ⟨rfl, rfl⟩
  wf s hs := heq s hs ▸ h.wf s hs
  slots s hs := heq s hs ▸ h.slots s hs

/-- The list may be read from any of its segments on. -/
theorem SegList.rotate {A B : List ℕ} (h : SegList qSize segs (A ++ s :: B)) :
    SegList qSize segs (s :: (B ++ A)) := by
  have hmem : ∀ t, t ∈ s :: (B ++ A) → t ∈ A ++ s :: B := by intro t; simp; tauto
  exact ⟨h.cycle.rotate_append, fun t ht => h.wf t (hmem t ht), fun t ht => h.slots t (hmem t ht)⟩

theorem SegList.notMem_left {V U : List ℕ} {u : ℕ} (h : SegList qSize segs (V ++ u :: U)) :
    u ∉ V := fun hm =>
  (List.nodup_append.1 h.cycle.nodup).2.2 u hm u (by simp) rfl

theorem SegList.notMem_right {V U : List ℕ} {u : ℕ} (h : SegList qSize segs (V ++ u :: U)) :
    u ∉ U :=
  (List.nodup_cons.1 (List.nodup_append.1 h.cycle.nodup).2.1).1

/-- Writing a ring leaves the segments before it. -/
theorem SegList.setRing_left {V U : List ℕ} {u : ℕ} (h : SegList qSize segs (V ++ u :: U))
    (r : Llring α) (hs : s ∈ V) : Backdraft.setRing segs u r s = segs s :=
  setRing_of_ne r fun he => h.notMem_left (he ▸ hs)

/-- Writing a ring leaves the segments after it. -/
theorem SegList.setRing_right {V U : List ℕ} {u : ℕ} (h : SegList qSize segs (V ++ u :: U))
    (r : Llring α) (hs : s ∈ U) : Backdraft.setRing segs u r s = segs s :=
  setRing_of_ne r fun he => h.notMem_right (he ▸ hs)

/-- What holds for the rings before the written one, and for the new one, holds for all of them. -/
theorem SegList.forall_setRing {V U : List ℕ} {u : ℕ} (h : SegList qSize segs (V ++ u :: U))
    {P : Llring α → Prop} {r : Llring α} (hV : ∀ s ∈ V, P (segs s).ring) (hr : P r) :
    ∀ s ∈ V ++ [u], P (Backdraft.setRing segs u r s).ring := by
  intro s hs
  rcases List.mem_append.1 hs with hs | hs
  · rw [h.setRing_left r hs]
    exact hV s hs
  · rw [List.mem_singleton.1 hs, setRing_self]
    exact hr

theorem SegList.mask (h : SegList qSize segs l) (hs : s ∈ l) :
    (segs s).ring.mask = qSize - 1 := by
  rw [(h.wf s hs).mask_eq, h.slots s hs]

variable [Pointer α]

/-! ### The packets of a list of segments -/

@[simp] theorem packetsIn_nil (segs : ℕ → LlrSeg α) : packetsIn segs [] = [] := rfl

@[simp] theorem packetsIn_cons (segs : ℕ → LlrSeg α) (s : ℕ) (l : List ℕ) :
    packetsIn segs (s :: l) = (segs s).ring.contents ++ packetsIn segs l := rfl

@[simp] theorem packetsIn_append (segs : ℕ → LlrSeg α) (l m : List ℕ) :
    packetsIn segs (l ++ m) = packetsIn segs l ++ packetsIn segs m :=
  List.flatMap_append

theorem packetsIn_congr (h : ∀ s ∈ l, (segs' s).ring.contents = (segs s).ring.contents) :
    packetsIn segs' l = packetsIn segs l := by
  induction l with
  | nil => rfl
  | cons a l ih =>
    rw [packetsIn_cons, packetsIn_cons, h a (by simp), ih fun s hs => h s (by simp [hs])]

theorem packetsIn_setRing (r : Llring α) (hs : s ∉ l) :
    packetsIn (setRing segs s r) l = packetsIn segs l :=
  packetsIn_congr fun t ht => by
    have hts : t ≠ s := fun h => hs (h ▸ ht)
    rw [setRing_of_ne r hts]

theorem packetsIn_eq_nil_iff :
    packetsIn segs l = [] ↔ ∀ s ∈ l, (segs s).ring.contents = [] := by
  simp [packetsIn, List.flatMap_eq_nil_iff]

theorem SegList.length_packetsIn_le (h : SegList qSize segs l) :
    (packetsIn segs l).length ≤ l.length * (qSize - 1) := by
  have key : ∀ m : List ℕ, (∀ s ∈ m, s ∈ l) →
      (packetsIn segs m).length ≤ m.length * (qSize - 1) := by
    intro m
    induction m with
    | nil => simp
    | cons a m ih =>
      intro hm
      have ha := (h.wf a (hm a (by simp))).length_le_mask
      rw [h.mask (hm a (by simp))] at ha
      have := ih fun s hs => hm s (by simp [hs])
      rw [packetsIn_cons, List.length_append, List.length_cons, Nat.add_mul]
      omega
  exact key l fun _ hs => hs

theorem SegList.sum_count (h : SegList qSize segs l) :
    (l.map fun s => (segs s).ring.count).sum = (packetsIn segs l).length := by
  rw [packetsIn, List.length_flatMap]
  congr 1
  exact List.map_congr_left fun s hs => (h.wf s hs).count_eq

/-- Appending to one ring appends to the packets of the list, up to order. -/
theorem perm_packetsIn_setRing {r : Llring α} {x : List α} (hnd : l.Nodup) (hs : s ∈ l)
    (hr : r.contents = (segs s).ring.contents ++ x) :
    (packetsIn (setRing segs s r) l).Perm (packetsIn segs l ++ x) := by
  obtain ⟨A, B, rfl⟩ := List.append_of_mem hs
  obtain ⟨-, hsB, hdis⟩ := List.nodup_append.1 hnd
  have hA : s ∉ A := fun h => hdis s h s (by simp) rfl
  have hB : s ∉ B := (List.nodup_cons.1 hsB).1
  simp only [packetsIn_append, packetsIn_cons, setRing_self, packetsIn_setRing r hA,
    packetsIn_setRing r hB, hr, List.append_assoc]
  exact (List.perm_append_comm.append_left _).append_left _

/-! ### The loops' view of the pool -/

theorem writeRing_of_apart (h : segsOverlap qSize = false) (segs : ℕ → LlrSeg α) (s : ℕ)
    (r : Llring α) : writeRing qSize segs s r = setRing segs s r := by
  simp [writeRing, syncLinks, h]

theorem syncSlots_of_apart (h : segsOverlap qSize = false) (segs : ℕ → LlrSeg α) (s : ℕ) :
    syncSlots qSize segs s = segs := by
  cases s <;> simp [syncSlots, h]

theorem initLinks_of_apart (h : segsOverlap qSize = false) (segs : ℕ → LlrSeg α) (s : ℕ) :
    initLinks qSize segs s = initListHead segs s :=
  syncSlots_of_apart h _ s

theorem addLinks_of_apart (h : segsOverlap qSize = false) (segs : ℕ → LlrSeg α) (new head : ℕ) :
    addLinks qSize segs new head = listAddTail segs new head := by
  simp [addLinks, syncSlots_of_apart h]

/-- The segments overlap exactly for the ring sizes below eight. -/
theorem segsOverlap_eq_false_iff (h : Llring.PowTwo qSize) :
    segsOverlap qSize = false ↔ 8 ≤ qSize := by
  obtain ⟨k, -, rfl⟩ := h
  rw [segsOverlap, decide_eq_false_iff_not, bytesPerLlrSeg, roundTo64, llringBytesWithSlots,
    slotOffset]
  rcases Nat.lt_or_ge k 3 with hk | hk
  · interval_cases k <;> decide
  · obtain ⟨j, rfl⟩ := Nat.exists_eq_add_of_le hk
    have hj := Nat.one_le_two_pow (n := j)
    rw [Nat.pow_add]
    omega

/-- A pool whose segments do not overlap, with the segments of `l` among them. -/
structure PoolOk (qSize : ℕ) (pool : LlringPool) (l : List ℕ) : Prop where
  size : pool.llrSize = qSize
  noOverlap : segsOverlap qSize = false
  known : ∀ s ∈ l, s < pool.numLlrings

theorem PoolOk.writeRing_eq {pool : LlringPool} (h : PoolOk qSize pool l) (segs : ℕ → LlrSeg α)
    (s : ℕ) (r : Llring α) : writeRing pool.llrSize segs s r = setRing segs s r := by
  rw [h.size, writeRing_of_apart h.noOverlap]

/-! ### The send loop -/

/-- A round of the send loop has put `n` packets of the batch into the segment `w`, whose ring is
now `r`. -/
structure Round (qSize : ℕ) (l : List ℕ) (segs : ℕ → LlrSeg α) (w : ℕ) (pkts : List α)
    (r : Llring α) (n : ℕ) : Prop where
  list : SegList qSize (setRing segs w r) l
  contents_eq : r.contents = (segs w).ring.contents ++ pkts.take n
  num_eq : n = min pkts.length (qSize - 1 - (segs w).ring.contents.length)

/-- One round of the send loop fills the ring as far as it has room, and goes on if something is
left of the batch and the next segment is another one and empty. -/
theorem sendPkts_succ {pool : LlringPool} (hpool : PoolOk qSize pool l)
    (h : SegList qSize segs l) (hs : s ∈ l) (q : QueueHandler) (pkts : List α) (e rounds : ℕ) :
    ∃ r n, Round qSize l segs s pkts r n ∧
      (n < pkts.length ∧ (segs s).next ≠ s ∧
          (setRing segs s r (segs s).next).ring.contents = [] ∧
          sendPkts pool segs q s pkts e (rounds + 1) = sendPkts pool (setRing segs s r)
            { q with enqueuePkts := wadd 32 q.enqueuePkts n, writerHead := (segs s).next }
            (segs s).next (pkts.drop n) (e + n) rounds ∨
        (n < pkts.length → (segs s).next ≠ s →
          (setRing segs s r (segs s).next).ring.contents ≠ []) ∧
          sendPkts pool segs q s pkts e (rounds + 1) = .ok (setRing segs s r,
            { q with enqueuePkts := wadd 32 q.enqueuePkts n }, e + n)) := by
  obtain ⟨r, hr⟩ : ∃ r, r = ((segs s).ring.spEnqueueBurst pkts).1 := ⟨_, rfl⟩
  obtain ⟨n, hn⟩ : ∃ n, n = ((segs s).ring.spEnqueueBurst pkts).2 &&& 0x7fffffff := ⟨_, rfl⟩
  obtain ⟨hwf, hcont, hslots, hret⟩ := (h.wf s hs).spEnqueueBurst_spec pkts
  rw [h.mask hs] at hcont hret
  rw [← hr] at hwf hcont hslots
  rw [← hn] at hret
  have hlist : SegList qSize (setRing segs s r) l :=
    h.setRing hwf (hslots.trans (h.slots s hs))
  have hnext : (segs s).next ∈ l := h.cycle.next_mem hs
  have hempty : (setRing segs s r (segs s).next).ring.count = 0 ↔
      (setRing segs s r (segs s).next).ring.contents = [] := by
    rw [(hlist.wf _ hnext).count_eq, List.length_eq_zero_iff]
  refine ⟨r, n, ⟨hlist, ?_, hret⟩, ?_⟩
  · rw [hcont, hret]
    congr 1
    rw [List.take_eq_take_iff]
    omega
  rw [sendPkts]
  simp only [← hr, ← hn, hpool.writeRing_eq, setRing_next, if_pos (hpool.known _ hnext), hempty]
  split_ifs with hop hnil
  · exact .inl ⟨hop.1, hop.2, hnil, rfl⟩
  · exact .inr ⟨fun _ _ => hnil, rfl⟩
  · exact .inr ⟨fun hlt hne => absurd ⟨hlt, hne⟩ hop, rfl⟩

/-- What a send has done: it accepted the first `n` packets of the batch. -/
structure Sent (qSize : ℕ) (l : List ℕ) (segs : ℕ → LlrSeg α) (q : QueueHandler) (pkts : List α)
    (segs' : ℕ → LlrSeg α) (q' : QueueHandler) (n : ℕ) : Prop where
  list : SegList qSize segs' l
  only : RingsOnly l segs segs'
  le : n ≤ pkts.length
  perm : (packetsIn segs' l).Perm (packetsIn segs l ++ pkts.take n)
  handler : ∃ w ∈ l, q' = { q with writerHead := w, enqueuePkts := wadd 32 q.enqueuePkts n }

/-- **The send loop ends**, since every segment it hops to is empty and takes a packet. -/
theorem sendPkts_spec (h2 : 2 ≤ qSize) {pool : LlringPool} (hpool : PoolOk qSize pool l)
    (rounds : ℕ) (q : QueueHandler) (pkts : List α) (e : ℕ) (h : SegList qSize segs l)
    (hq : q.writerHead ∈ l)
    (hrounds : pkts.length + (if (segs q.writerHead).ring.contents = [] then 1 else 2) ≤ rounds) :
    ∃ segs' q' n, sendPkts pool segs q q.writerHead pkts e rounds = .ok (segs', q', e + n) ∧
      Sent qSize l segs q pkts segs' q' n := by
  induction rounds generalizing segs q pkts e with
  | zero => split_ifs at hrounds <;> omega
  | succ rounds ih =>
    obtain ⟨w, hw⟩ : ∃ w, w = q.writerHead := ⟨_, rfl⟩
    rw [← hw] at hq hrounds ⊢
    obtain ⟨r, n, hround, hcases⟩ := sendPkts_succ hpool h hq q pkts e rounds
    have hmin := hround.num_eq
    have hperm := perm_packetsIn_setRing h.cycle.nodup hq hround.contents_eq
    have honly : RingsOnly l segs (setRing segs w r) := ringsOnly_setRing hq r
    rcases hcases with ⟨hlt, -, hempty, heq⟩ | ⟨-, heq⟩
    · obtain ⟨segs', q', m, hrest, hsent⟩ := ih
        { q with enqueuePkts := wadd 32 q.enqueuePkts n, writerHead := (segs w).next }
        (pkts.drop n) (e + n) hround.list (h.cycle.next_mem hq) (by
          rw [if_pos hempty, List.length_drop]
          split_ifs at hrounds with hw0
          · rw [hw0] at hmin; simp only [List.length_nil] at hmin; omega
          · omega)
      refine ⟨segs', q', n + m, by rw [heq, hrest, Nat.add_assoc], hsent.list,
        honly.trans hsent.only, ?_, ?_, ?_⟩
      · have := hsent.le; rw [List.length_drop] at this; omega
      · rw [List.take_add, ← List.append_assoc]
        exact hsent.perm.trans (hperm.append_right _)
      · obtain ⟨w', hw', hq'⟩ := hsent.handler
        exact ⟨w', hw', by rw [hq']; simp only [wadd_wadd]⟩
    · exact ⟨_, _, n, heq, hround.list, honly, by omega, hperm, w, hq, by rw [hw]⟩

/-! ### The read loop -/

/-- One round of the read loop takes the oldest entries of the ring. -/
theorem SegList.dequeue (h : SegList qSize segs l) (hs : s ∈ l) (cnt : ℕ) {r : Llring α}
    (hr : r = ((segs s).ring.scDequeueBurst cnt).1) :
    SegList qSize (Backdraft.setRing segs s r) l ∧
      r.contents = (segs s).ring.contents.drop cnt ∧
      ((segs s).ring.scDequeueBurst cnt).2.1 = (segs s).ring.contents.take cnt ∧
      ((segs s).ring.scDequeueBurst cnt).2.2 = min cnt (segs s).ring.contents.length := by
  obtain ⟨hwf, hcont, hslots, hobjs, hret⟩ := (h.wf s hs).scDequeueBurst_spec cnt
  rw [← hr] at hwf hcont hslots
  exact ⟨h.setRing hwf (hslots.trans (h.slots s hs)), hcont, hobjs, hret⟩

theorem shrink_setRing {r : Llring α} {cnt : ℕ} (hr : r.contents = (segs s).ring.contents.drop cnt)
    (t : ℕ) : (setRing segs s r t).ring.contents <:+ (segs t).ring.contents := by
  by_cases h : t = s
  · rw [h, setRing_self, hr]; exact List.drop_suffix _ _
  · rw [setRing_of_ne r h]

/-- What a read has done to the segments `l` in front of it, with `V` behind it: it drained `A`
and stands at `r`; and it left `A` only because there were packets from `r` on. -/
structure Received (qSize : ℕ) (V l : List ℕ) (segs : ℕ → LlrSeg α) (q : QueueHandler) (cnt : ℕ)
    (segs' : ℕ → LlrSeg α) (q' : QueueHandler) (A : List ℕ) (r : ℕ) (B : List ℕ) : Prop where
  split : l = A ++ r :: B
  list : SegList qSize segs' (V ++ l)
  only : RingsOnly (V ++ l) segs segs'
  drained : ∀ s ∈ V ++ A, (segs' s).ring.contents = []
  rest : packetsIn segs' (r :: B) = (packetsIn segs l).drop cnt
  handler : q' = { q with
    readerHead := r
    dequeuePkts := wadd 32 q.dequeuePkts (min cnt (packetsIn segs l).length) }
  ahead : A = [] ∨ packetsIn segs (r :: B) ≠ []
  shrink : ∀ s, (segs' s).ring.contents <:+ (segs s).ring.contents

/-- A read that stops at its first segment. -/
theorem received_stop {V U : List ℕ} {u cnt : ℕ} {q : QueueHandler} {r : Llring α}
    (h : SegList qSize segs (V ++ u :: U)) (hV : ∀ s ∈ V, (segs s).ring.contents = [])
    (hq : q.readerHead = u) (hr : r = ((segs u).ring.scDequeueBurst cnt).1)
    (hstop : cnt ≤ (segs u).ring.contents.length ∨ packetsIn segs U = []) :
    (packetsIn segs (u :: U)).take cnt = (segs u).ring.contents.take cnt ∧
      Received qSize V (u :: U) segs q cnt (setRing segs u r)
        { q with dequeuePkts := wadd 32 q.dequeuePkts (min cnt (segs u).ring.contents.length) }
        [] u U := by
  have hu : u ∈ V ++ u :: U := by simp
  obtain ⟨hlist, hcont, -, -⟩ := h.dequeue hu cnt hr
  have hmin : min cnt (packetsIn segs (u :: U)).length =
      min cnt (segs u).ring.contents.length := by
    rw [packetsIn_cons, List.length_append]
    rcases hstop with hle | hnil
    · omega
    · simp [hnil]
  refine ⟨?_, rfl, hlist, ringsOnly_setRing hu r, ?_, ?_, by rw [hmin, ← hq], Or.inl rfl,
    shrink_setRing hcont⟩
  · rcases hstop with hle | hnil
    · rw [packetsIn_cons, List.take_append_of_le_length hle]
    · rw [packetsIn_cons, hnil, List.append_nil]
  · intro s hs
    rw [List.append_nil] at hs
    rw [h.setRing_left r hs, hV s hs]
  · rw [packetsIn_cons, setRing_self, packetsIn_setRing r h.notMem_right, hcont, packetsIn_cons]
    rcases hstop with hle | hnil
    · rw [List.drop_append_of_le_length hle]
    · rw [hnil, List.append_nil, List.append_nil]

/-- A read that drains its first segment and goes on to the next. -/
theorem Received.cons {V U A B : List ℕ} {u b t cnt : ℕ} {q q' : QueueHandler} {r : Llring α}
    {segs' : ℕ → LlrSeg α} (h : SegList qSize segs (V ++ u :: b :: U))
    (hcont : r.contents = (segs u).ring.contents.drop cnt)
    (hlt : (segs u).ring.contents.length < cnt) (hne : packetsIn segs (b :: U) ≠ [])
    (hrec : Received qSize (V ++ [u]) (b :: U) (setRing segs u r)
      { q with
        dequeuePkts := wadd 32 q.dequeuePkts (segs u).ring.contents.length, readerHead := b }
      (cnt - (segs u).ring.contents.length) segs' q' A t B) :
    Received qSize V (u :: b :: U) segs q cnt segs' q' (u :: A) t B := by
  have hu : u ∈ V ++ u :: b :: U := by simp
  have hsame : packetsIn (setRing segs u r) (b :: U) = packetsIn segs (b :: U) :=
    packetsIn_setRing r h.notMem_right
  refine ⟨by rw [hrec.split]; rfl, by simpa using hrec.list,
    (ringsOnly_setRing hu r).trans (by simpa using hrec.only), by simpa using hrec.drained,
    ?_, ?_, Or.inr ?_, fun s => (hrec.shrink s).trans (shrink_setRing hcont s)⟩
  · rw [hrec.rest, hsame, packetsIn_cons segs u, List.drop_append,
      List.drop_eq_nil_of_le hlt.le, List.nil_append]
  · rw [hrec.handler, hsame, packetsIn_cons segs u, List.length_append]
    simp only [wadd_wadd]
    congr 2
    omega
  · have hsub : packetsIn (setRing segs u r) (t :: B) = packetsIn segs (t :: B) :=
      packetsIn_setRing r fun hm => h.notMem_right (by rw [hrec.split]; simp at hm ⊢; tauto)
    rcases hrec.ahead with rfl | hahead
    · rw [show t :: B = b :: U from hrec.split.symm]
      exact hne
    · rwa [hsub] at hahead

/-- The counters after a round say what is left. -/
theorem countPktsInQ_dequeue {q : QueueHandler} {U : List ℕ} {u : ℕ} (cnt : ℕ)
    (hcount : countPktsInQ q = (packetsIn segs (u :: U)).length) :
    countPktsInQ { q with
        dequeuePkts := wadd 32 q.dequeuePkts (min cnt (segs u).ring.contents.length) } =
      (packetsIn segs (u :: U)).length - min cnt (segs u).ring.contents.length := by
  rw [← hcount]
  refine wsub_wadd_right ?_
  change _ ≤ countPktsInQ q
  rw [hcount, packetsIn_cons, List.length_append]
  omega

/-- One round of the read loop takes what it can from its ring, and goes on if that was not enough
and there are packets further on; then there is a next segment. -/
theorem readPkts_succ {pool : LlringPool} {V U : List ℕ} {u : ℕ} {q : QueueHandler}
    (hpool : PoolOk qSize pool (V ++ u :: U)) (h : SegList qSize segs (V ++ u :: U))
    (hcount : countPktsInQ q = (packetsIn segs (u :: U)).length) (cnt : ℕ) (acc : List α)
    (rounds : ℕ) {r : Llring α} (hr : r = ((segs u).ring.scDequeueBurst cnt).1) :
    (∃ b U', U = b :: U' ∧ (segs u).ring.contents.length < cnt ∧ packetsIn segs (b :: U') ≠ [] ∧
      countPktsInQ { q with
        dequeuePkts := wadd 32 q.dequeuePkts (segs u).ring.contents.length, readerHead := b } =
          (packetsIn segs (b :: U')).length ∧
      readPkts pool segs q u cnt acc (rounds + 1) = readPkts pool (setRing segs u r)
        { q with
          dequeuePkts := wadd 32 q.dequeuePkts (segs u).ring.contents.length, readerHead := b }
        b (cnt - (segs u).ring.contents.length) (acc ++ (segs u).ring.contents.take cnt) rounds) ∨
    (cnt ≤ (segs u).ring.contents.length ∨ packetsIn segs U = []) ∧
      readPkts pool segs q u cnt acc (rounds + 1) = .ok (setRing segs u r,
        { q with dequeuePkts := wadd 32 q.dequeuePkts (min cnt (segs u).ring.contents.length) },
        acc ++ (segs u).ring.contents.take cnt) := by
  have hu : u ∈ V ++ u :: U := by simp
  obtain ⟨-, -, hobjs, hret⟩ := h.dequeue hu cnt hr
  have hleft := countPktsInQ_dequeue cnt hcount
  rw [packetsIn_cons, List.length_append] at hleft
  rw [readPkts]
  simp only [← hr, hobjs, hret, hpool.writeRing_eq]
  by_cases hop : (segs u).ring.contents.length < cnt ∧ packetsIn segs U ≠ []
  · obtain ⟨hlt, hne⟩ := hop
    have hmin : min cnt (segs u).ring.contents.length = (segs u).ring.contents.length := by omega
    rw [hmin, Nat.add_sub_cancel_left] at hleft
    obtain ⟨b, U', rfl⟩ := List.exists_cons_of_ne_nil (l := U) (by rintro rfl; simp at hne)
    have hnext : (setRing segs u r u).next = b := by
      rw [setRing_next]
      exact h.cycle.next_mid
    refine .inl ⟨b, U', rfl, hlt, hne, hleft, ?_⟩
    rw [hmin, if_pos ⟨hlt, by rw [hleft]; exact List.length_pos_iff.2 hne⟩, hnext,
      if_pos (hpool.known b (by simp))]
  · have hstop : cnt ≤ (segs u).ring.contents.length ∨ packetsIn segs U = [] := by
      by_contra hcon
      push Not at hcon
      exact hop hcon
    refine .inr ⟨hstop, if_neg ?_⟩
    rw [hleft]
    rcases hstop with hle | hnil
    · omega
    · rw [hnil, List.length_nil]
      omega

/-- **The read loop ends** within one round for each segment, because the counters agree with the
rings: it never passes the last packet. -/
theorem readPkts_spec {pool : LlringPool} (rounds : ℕ) {V U : List ℕ} {u : ℕ}
    (q : QueueHandler) (cnt : ℕ) (acc : List α) (hpool : PoolOk qSize pool (V ++ u :: U))
    (h : SegList qSize segs (V ++ u :: U)) (hV : ∀ s ∈ V, (segs s).ring.contents = [])
    (hcount : countPktsInQ q = (packetsIn segs (u :: U)).length) (hq : q.readerHead = u)
    (hrounds : (u :: U).length ≤ rounds) :
    ∃ segs' q' A r B, readPkts pool segs q u cnt acc rounds =
        .ok (segs', q', acc ++ (packetsIn segs (u :: U)).take cnt) ∧
      Received qSize V (u :: U) segs q cnt segs' q' A r B := by
  induction rounds generalizing segs V U u cnt q acc with
  | zero => simp at hrounds
  | succ rounds ih =>
    have hu : u ∈ V ++ u :: U := by simp
    obtain ⟨r, hr⟩ : ∃ r, r = ((segs u).ring.scDequeueBurst cnt).1 := ⟨_, rfl⟩
    obtain ⟨hlist, hcont, -, -⟩ := h.dequeue hu cnt hr
    rcases readPkts_succ hpool h hcount cnt acc rounds hr with
      ⟨b, U', rfl, hlt, hne, hleft, hread⟩ | ⟨hstop, hread⟩
    · have hV' : ∀ s ∈ V ++ [u], (setRing segs u r s).ring.contents = [] :=
        h.forall_setRing (P := fun r => r.contents = []) hV
          (by rw [hcont, List.drop_eq_nil_of_le hlt.le])
      have hsame : packetsIn (setRing segs u r) (b :: U') = packetsIn segs (b :: U') :=
        packetsIn_setRing r h.notMem_right
      obtain ⟨segs', q', A, t, B, heq, hrec⟩ := ih (V := V ++ [u]) (u := b) (U := U') _
        (cnt - (segs u).ring.contents.length) (acc ++ (segs u).ring.contents.take cnt)
        (by simpa using hpool) (by simpa using hlist) hV' (by rw [hsame]; exact hleft) rfl
        (by simpa using hrounds)
      refine ⟨segs', q', u :: A, t, B, ?_, hrec.cons h hcont hlt hne⟩
      rw [hread, heq, hsame, packetsIn_cons segs u, List.take_append, List.append_assoc]
    · obtain ⟨htake, hrec⟩ := received_stop h hV hq hr hstop
      rw [hread, htake]
      exact ⟨_, _, [], u, U, rfl, hrec⟩

end Backdraft

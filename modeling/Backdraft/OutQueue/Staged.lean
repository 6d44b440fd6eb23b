import Mathlib.Tactic
import Backdraft.Core
import Backdraft.Lib.Slots
import Backdraft.Llring

/-!
# Output modules: a ring with a staging array

`BPQOut` and `ECNQOut` keep the packets that wait for their port in two places: the ring `queue_`,
and `mbufs_`, the burst that was taken from it last.  `RunTask` of both modules is one loop: offer
the staged burst to the port; if the port leaves some of it, move the rest to the front and return;
otherwise fetch the next burst, and return when there is none.

* `Staged`, `Staged.waiting`: the two places, and what waits in them in the order of sending;
* `Staged.enqueue`: the burst enqueue of `Buffer` (`Staged.WF.enqueue_spec`);
* `sendLoop`: the loop of `RunTask`, with what a module does after a fetch as a parameter;
* `sendLoop_spec`: the loop returns, and has sent a prefix of what was waiting;
* `sendLoop_invariant`: what its steps keep holds when it returns.

The port is a function from the rounds of the loop to the number of packets it would take.
-/

namespace Backdraft.OutQueue

open Word

/-- A batch as modules get it: `RunChooseModule` hands on no empty one. -/
structure Batch (α : Type) where
  pkts : List α
  ne_nil : pkts ≠ []

/-- `queue_`, `mbufs_`, `cnt_mbufs_` and `burst_`. -/
structure Staged (α : Type) where
  queue : Llring α
  mbufs : List α
  cntMbufs : ℕ
  burst : ℕ
  deriving DecidableEq

/-- `queue_stats` of the output queue. -/
structure QueueStats where
  packets : UInt64
  bytes : UInt64
  dropped : UInt64
  deriving DecidableEq

/-- `struct task_result`; `block` is always false here. -/
structure TaskResult where
  packets : ℕ
  bits : ℕ
  deriving DecidableEq

/-- A port as the modules see it: whether the driver keeps the statistics itself
(`DRIVER_FLAG_SELF_OUT_STATS`), and the lengths of the packets. -/
structure OutPort (α : Type) where
  selfOutStats : Bool
  totalLen : α → ℕ

variable {α σ : Type}

namespace OutPort

/-- `total_sent_packets` after the packets `sent`. -/
def totalSentPackets (sent : List α) : ℕ := sent.length % 2 ^ 32

/-- `total_sent_bytes` after the packets `sent`. -/
def totalSentBytes (p : OutPort α) (sent : List α) : ℕ := (sent.map p.totalLen).sum % 2 ^ 64

/-- The counters after the packets `sent` went out. -/
def countSent (p : OutPort α) (sent : List α) (st : QueueStats) : QueueStats :=
  if p.selfOutStats then st
  else
    { st with
      packets := st.packets + .ofNat (totalSentPackets sent)
      bytes := st.bytes + .ofNat (p.totalSentBytes sent) }

/-- The counters after `n` packets were freed. -/
def countDropped (p : OutPort α) (n : ℕ) (st : QueueStats) : QueueStats :=
  if p.selfOutStats then st else { st with dropped := st.dropped + .ofNat n }

/-- What `RunTask` returns, with `pkt_overhead` 24. -/
def taskResult (p : OutPort α) (sent : List α) : TaskResult :=
  ⟨totalSentPackets sent,
    wadd 64 (p.totalSentBytes sent) (totalSentPackets sent * 24 % 2 ^ 32) * 8 % 2 ^ 64⟩

variable (p : OutPort α) (st : QueueStats)

@[simp] theorem packets_countDropped (n : ℕ) : (p.countDropped n st).packets = st.packets := by
  unfold countDropped
  split_ifs <;> rfl

@[simp] theorem dropped_countSent (sent : List α) :
    (p.countSent sent st).dropped = st.dropped := by
  unfold countSent
  split_ifs <;> rfl

variable {p}

theorem dropped_countDropped (h : p.selfOutStats = false) (n : ℕ) :
    (p.countDropped n st).dropped = st.dropped + .ofNat n := by
  simp [countDropped, h]

theorem packets_countSent (h : p.selfOutStats = false) {sent : List α}
    (hlen : sent.length < 2 ^ 32) :
    (p.countSent sent st).packets = st.packets + .ofNat sent.length := by
  have htotal : totalSentPackets sent = sent.length := Nat.mod_eq_of_lt hlen
  simp [countSent, h, htotal]

end OutPort

namespace Staged

/-- Move the `cnt_mbufs_ - n` packets that the port left to the front. -/
def shift [Inhabited α] (q : Staged α) (n : ℕ) : Staged α :=
  { q with
    mbufs := Slots.copyDown q.mbufs n (q.cntMbufs - n)
    cntMbufs := q.cntMbufs - n }

/-- Take the next burst from the ring; the second part is the number of its packets. -/
def fetch [Inhabited α] (q : Staged α) : Staged α × ℕ :=
  let (r, objs, cnt) := q.queue.scDequeueBurst q.burst
  ({ q with queue := r, mbufs := Slots.overwrite q.mbufs 0 objs, cntMbufs := cnt }, cnt)

/-- Append packets to the ring; the second part is `queued`. -/
def enqueue (q : Staged α) (pkts : List α) : Staged α × ℕ :=
  let (r, queued) := q.queue.mpEnqueueBurst pkts
  ({ q with queue := r }, queued)

/-- What waits for the port, in the order in which it is sent. -/
def waiting [Inhabited α] (q : Staged α) : List α :=
  q.mbufs.take q.cntMbufs ++ q.queue.contents

/-- The state between two calls. -/
structure WF (q : Staged α) : Prop where
  ring : q.queue.WF
  watermark : q.queue.watermark = q.queue.slots
  length_mbufs : q.mbufs.length = kMaxBurst
  cnt_le : q.cntMbufs ≤ kMaxBurst
  burst_le : q.burst ≤ kMaxBurst

end Staged

/-- The part of `Init` about the ring and the staging array. -/
def Staged.init [Inhabited α] (slots burst : ℕ) : Option (Staged α) :=
  (Llring.init slots).map fun r => ⟨r, List.replicate kMaxBurst default, 0, burst⟩

/-- The loop of `RunTask`: `accept k` is the number of packets that the port would take in round
`k`, `fetched` what the module does after it fetched a burst, `sent` what has gone out so far. -/
def sendLoop [Inhabited α] (accept : ℕ → ℕ) (fetched : ℕ → Staged α → σ → σ) :
    ℕ → ℕ → Staged α → σ → List α → Option (Staged α × σ × List α)
  | 0, _, _, _, _ => none
  | fuel + 1, k, q, x, sent =>
    -- with an empty staging array nothing is offered, and `n = 0`
    let n := min (accept k) q.cntMbufs
    if n < q.cntMbufs then some (q.shift n, x, sent ++ q.mbufs.take n)
    else if q.fetch.2 = 0 then some (q.fetch.1, x, sent ++ q.mbufs.take n)
    else sendLoop accept fetched fuel (k + 1) q.fetch.1 (fetched k q.fetch.1 x)
      (sent ++ q.mbufs.take n)

section Spec

variable [Inhabited α] {q : Staged α}

theorem Staged.init_spec {slots burst : ℕ} {q : Staged α} (h : Staged.init slots burst = some q)
    (hs : Llring.PowTwo slots) (hb : burst ≤ kMaxBurst) :
    q.WF ∧ q.waiting = [] ∧ q.queue.slots = slots ∧ q.burst = burst := by
  obtain ⟨r, hr, hwf, hslots, hnil⟩ := Llring.init_spec (α := α) hs
  have hw : r.watermark = r.slots := by
    rw [Llring.init] at hr
    split_ifs at hr
    cases hr
    rfl
  rw [Staged.init, hr] at h
  cases h
  refine ⟨⟨hwf, hw, List.length_replicate, Nat.zero_le _, hb⟩, ?_, hslots, rfl⟩
  rw [Staged.waiting, hnil, List.take_zero, List.append_nil]

namespace Staged.WF

/-- Enqueueing appends what fits in the ring and returns its length. -/
theorem enqueue_spec (h : q.WF) (pkts : List α) :
    (q.enqueue pkts).1.WF ∧
      (q.enqueue pkts).1.waiting = q.waiting ++ pkts.take q.queue.freeCount ∧
      (q.enqueue pkts).2 = min pkts.length q.queue.freeCount ∧
      (q.enqueue pkts).1.queue.slots = q.queue.slots := by
  obtain ⟨hwf, hcont, hslots, -⟩ := h.ring.mpEnqueueBurst_spec pkts
  have hw : (q.queue.mpEnqueueBurst pkts).1.watermark = (q.queue.mpEnqueueBurst pkts).1.slots := by
    rw [Llring.watermark_mpEnqueueBurst, h.watermark, hslots]
  refine ⟨⟨hwf, hw, h.length_mbufs, h.cnt_le, h.burst_le⟩, ?_, ?_, hslots⟩
  · rw [h.ring.freeCount_eq]
    show q.mbufs.take q.cntMbufs ++ (q.queue.mpEnqueueBurst pkts).1.contents = _
    rw [hcont, waiting, List.append_assoc]
  · rw [h.ring.freeCount_eq]
    exact h.ring.mpEnqueueBurst_result h.watermark pkts

/-- After a partial send the packets that the port left are still first. -/
theorem shift_spec (h : q.WF) {n : ℕ} (hn : n < q.cntMbufs) :
    (q.shift n).WF ∧ q.mbufs.take n ++ (q.shift n).waiting = q.waiting := by
  have hlen := h.length_mbufs
  have hcnt := h.cnt_le
  have hcopy : Slots.copyDown q.mbufs n (q.cntMbufs - n) =
      (q.mbufs.drop n).take (q.cntMbufs - n) ++ q.mbufs.drop (q.cntMbufs - n) :=
    Slots.copyDown_eq _ (by omega)
  have hfront : ((q.mbufs.drop n).take (q.cntMbufs - n)).length = q.cntMbufs - n := by
    rw [List.length_take, List.length_drop]
    omega
  refine ⟨⟨h.ring, h.watermark, ?_, ?_, h.burst_le⟩, ?_⟩
  · show (Slots.copyDown q.mbufs n (q.cntMbufs - n)).length = kMaxBurst
    rw [hcopy, List.length_append, hfront, List.length_drop]
    omega
  · show q.cntMbufs - n ≤ kMaxBurst
    omega
  · have hrest : (q.shift n).mbufs.take (q.shift n).cntMbufs =
        (q.mbufs.drop n).take (q.cntMbufs - n) := by
      show (Slots.copyDown q.mbufs n (q.cntMbufs - n)).take (q.cntMbufs - n) = _
      rw [hcopy, List.take_left' hfront]
    have hsplit : q.mbufs.take q.cntMbufs =
        q.mbufs.take n ++ (q.mbufs.drop n).take (q.cntMbufs - n) := by
      rw [← List.take_add]
      congr 1
      omega
    rw [waiting, waiting, hrest, hsplit, List.append_assoc]
    rfl

/-- Fetching stages the oldest packets of the ring. -/
theorem fetch_spec (h : q.WF) :
    q.fetch.1.WF ∧ q.fetch.1.waiting = q.queue.contents ∧
      q.fetch.2 = min q.burst q.queue.contents.length ∧
      q.fetch.1.queue.contents = q.queue.contents.drop q.burst ∧
      q.fetch.1.queue.slots = q.queue.slots := by
  obtain ⟨hwf, hcont, hslots, hobjs, hcnt⟩ := h.ring.scDequeueBurst_spec q.burst
  have hw : (q.queue.scDequeueBurst q.burst).1.watermark =
      (q.queue.scDequeueBurst q.burst).1.slots := by
    rw [Llring.watermark_scDequeueBurst, h.watermark, hslots]
  have hburst := h.burst_le
  have hlen : (q.queue.contents.take q.burst).length = min q.burst q.queue.contents.length :=
    List.length_take
  refine ⟨⟨hwf, hw, ?_, ?_, h.burst_le⟩, ?_, hcnt, hcont, hslots⟩
  · show (Slots.overwrite q.mbufs 0 (q.queue.scDequeueBurst q.burst).2.1).length = kMaxBurst
    rw [hobjs, Slots.length_overwrite, h.length_mbufs]
    rw [hlen, h.length_mbufs]
    omega
  · show (q.queue.scDequeueBurst q.burst).2.2 ≤ kMaxBurst
    omega
  · have hfront : q.fetch.1.mbufs.take q.fetch.1.cntMbufs = q.queue.contents.take q.burst := by
      show (Slots.overwrite q.mbufs 0 (q.queue.scDequeueBurst q.burst).2.1).take
        (q.queue.scDequeueBurst q.burst).2.2 = _
      rw [hobjs, hcnt, Slots.overwrite, List.take_zero, List.nil_append, List.take_left' hlen]
    rw [waiting, hfront]
    show _ ++ (q.queue.scDequeueBurst q.burst).1.contents = _
    rw [hcont, List.take_append_drop]

/-- With the whole staging array sent, the ring is what waits. -/
theorem waiting_of_all {n : ℕ} (hn : ¬ n < q.cntMbufs) (hle : n ≤ q.cntMbufs) :
    q.mbufs.take n ++ q.queue.contents = q.waiting := by
  rw [waiting, show n = q.cntMbufs by omega]

end Staged.WF

/-- What a `RunTask` that has sent `out` leaves of `q`. -/
structure Sends (accept : ℕ → ℕ) (q q' : Staged α) (out : List α) : Prop where
  wf : q'.WF
  order : out ++ q'.waiting = q.waiting
  slots_eq : q'.queue.slots = q.queue.slots
  burst_eq : q'.burst = q.burst
  ended : (∃ k, accept k < kMaxBurst) ∨ q.burst = 0 ∨ q'.waiting = []

/-- **The loop returns**, after at most one round for each packet in the ring and one more, and it
has sent the packets in their order. -/
theorem sendLoop_spec (accept : ℕ → ℕ) (fetched : ℕ → Staged α → σ → σ) {fuel : ℕ} (k : ℕ)
    (x : σ) (sent : List α) (h : q.WF) (hfuel : q.queue.contents.length < fuel) :
    ∃ q' x' out, sendLoop accept fetched fuel k q x sent = some (q', x', sent ++ out) ∧
      Sends accept q q' out := by
  induction fuel generalizing k q x sent with
  | zero => omega
  | succ fuel ih =>
    rw [sendLoop]
    set n := min (accept k) q.cntMbufs with hn
    by_cases hleft : n < q.cntMbufs
    · -- the port ran out of descriptors
      obtain ⟨hwf, hord⟩ := h.shift_spec hleft
      refine ⟨_, _, _, if_pos hleft, hwf, hord, rfl, rfl, .inl ⟨k, ?_⟩⟩
      have := h.cnt_le
      omega
    rw [if_neg hleft]
    have hall := Staged.WF.waiting_of_all hleft (by omega)
    obtain ⟨hwf, hwait, hcnt, hrest, hslots⟩ := h.fetch_spec
    by_cases hz : q.fetch.2 = 0
    · -- the ring is empty, or the burst size is zero
      refine ⟨_, _, _, if_pos hz, hwf, by rw [hwait, hall], hslots, rfl, .inr ?_⟩
      rw [hwait, ← List.length_eq_zero_iff]
      omega
    · rw [if_neg hz]
      have hlen : q.fetch.1.queue.contents.length < fuel := by
        rw [hrest, List.length_drop]
        omega
      obtain ⟨q', x', out, hloop, hs⟩ := ih (k + 1) (fetched k q.fetch.1 x)
        (sent ++ q.mbufs.take n) hwf hlen
      refine ⟨q', x', q.mbufs.take n ++ out, by rw [hloop, List.append_assoc], hs.wf, ?_,
        hs.slots_eq.trans hslots, hs.burst_eq, hs.ended⟩
      rw [List.append_assoc, hs.order, hwait, hall]

/-- What the steps of the loop keep holds when it returns. -/
theorem sendLoop_invariant {P : Staged α → σ → Prop} {accept : ℕ → ℕ}
    {fetched : ℕ → Staged α → σ → σ}
    (hshift : ∀ q x n, n < q.cntMbufs → P q x → P (q.shift n) x)
    (hfetch : ∀ q x, P q x → P q.fetch.1 x) (hfetched : ∀ k q x, P q x → P q (fetched k q x)) :
    ∀ {fuel k : ℕ} {q : Staged α} {x : σ} {sent : List α} {r : Staged α × σ × List α},
      sendLoop accept fetched fuel k q x sent = some r → P q x → P r.1 r.2.1
  | 0, _, _, _, _, _, h, _ => by cases h
  | fuel + 1, k, q, x, sent, r, h, hx => by
    simp only [sendLoop] at h
    split_ifs at h with hleft hz
    · cases h
      exact hshift q x _ hleft hx
    · cases h
      exact hfetch q x hx
    · exact sendLoop_invariant hshift hfetch hfetched h (hfetched k _ x (hfetch q x hx))

/-- No `RunTask` sends more packets than can wait. -/
theorem Staged.WF.length_waiting_le (h : q.WF) :
    q.waiting.length ≤ kMaxBurst + q.queue.slots := by
  have hcnt := h.cnt_le
  have hring := h.ring.length_le_mask
  have hmask := h.ring.mask_eq
  rw [Staged.waiting, List.length_append, List.length_take]
  omega

end Spec

end Backdraft.OutQueue

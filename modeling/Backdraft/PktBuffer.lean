import Backdraft.Llring
import Backdraft.Lib.Slots

/-!
# The packet buffer of a flow

`pktbuffer_t` of `bkdrft_queue_out.h`: a ring with a small array in front of it.  Packets enter
the ring; `pktbuffer_prime` moves them to the array, from which they are sent, and
`pktbuffer_flush` drops what was sent and shifts the rest to the front.

* `PktBuffer`, `pktbufferEnqueue`, `pktbufferPrime`, `pktbufferFlush`;
* `contents`: the packets of the array, then those of the ring;
* `WF.enqueue_spec`, `WF.prime_spec`, `WF.flush_spec`: the buffer is a queue of its contents.
-/

namespace Backdraft

open Word Slots

/-- `peek_size`. -/
def peekSize : ℕ := 32

/-- `struct bkdrft_buffer`. -/
structure PktBuffer (α : Type) where
  ringQueue : Llring α
  tail : ℕ
  peek : List α

namespace PktBuffer

variable {α : Type} [Inhabited α]

/-- How an operation can end the program. -/
inductive Fatal
  /-- `"pktbuffer_prime: failed to dequee from ring"` -/
  | primeFailed
  /-- `"pktbuffer_flush: sent more packets than possible?!"` -/
  | flushedTooMany
  deriving DecidableEq

/-- `new_pktbuffer`; `none` when the ring cannot be made. -/
def newPktbuffer (maxBufferSize : ℕ) : Option (PktBuffer α) :=
  (Llring.init maxBufferSize).map fun r => ⟨r, 0, List.replicate peekSize default⟩

/-- `pktbuffer_count`. -/
def pktbufferCount (b : PktBuffer α) : ℕ := wadd 32 b.tail b.ringQueue.count

/-- `pktbuffer_enqueue`, with the number of packets that entered the ring. -/
def pktbufferEnqueue (b : PktBuffer α) (pkts : List α) : PktBuffer α × ℕ :=
  let (r, ret) := b.ringQueue.mpEnqueueBurst pkts
  ({ b with ringQueue := r }, ret &&& 0x7fffffff)

/-- `pktbuffer_prime`, with the number of packets in `peek`. -/
def pktbufferPrime (b : PktBuffer α) : Except Fatal (PktBuffer α × ℕ) :=
  let countPkts := b.ringQueue.count
  if wadd 32 countPkts b.tail = 0 then .ok (b, 0)
  else
    let space := wsub 32 peekSize b.tail
    let k := if countPkts > space then space else countPkts
    let (r, objs, ret) := b.ringQueue.scDequeueBulk k
    if ret ≠ 0 then .error .primeFailed
    else .ok (⟨r, wadd 32 b.tail k, overwrite b.peek b.tail objs⟩, wadd 32 b.tail k)

/-- `pktbuffer_flush`. -/
def pktbufferFlush (b : PktBuffer α) (sentPkts : ℕ) : Except Fatal (PktBuffer α) :=
  if sentPkts > b.tail then .error .flushedTooMany
  else .ok { b with
    peek := copyDown b.peek sentPkts (b.tail - sentPkts)
    tail := b.tail - sentPkts }

/-- What `DeallocateFlowState` does to the buffer. -/
def reset (b : PktBuffer α) (maxBufferSize : ℕ) : PktBuffer α :=
  { b with ringQueue := (Llring.init maxBufferSize).getD b.ringQueue, tail := 0 }

/-- The packets of the buffer, the oldest first. -/
def contents (b : PktBuffer α) : List α := b.peek.take b.tail ++ b.ringQueue.contents

/-- A buffer between two operations. -/
structure WF (b : PktBuffer α) (maxBufferSize : ℕ) : Prop where
  ring : b.ringQueue.WF
  slots_eq : b.ringQueue.slots = maxBufferSize
  tail_le : b.tail ≤ peekSize
  length_peek : b.peek.length = peekSize

variable {b : PktBuffer α} {size : ℕ}

theorem newPktbuffer_spec (h : Llring.PowTwo size) :
    ∃ b : PktBuffer α, newPktbuffer size = some b ∧ b.WF size ∧ b.contents = [] := by
  obtain ⟨r, hr, hwf, hslots, hcont⟩ := Llring.init_spec (α := α) h
  refine ⟨⟨r, 0, List.replicate peekSize default⟩, by rw [newPktbuffer, hr]; rfl,
    ⟨hwf, hslots, Nat.zero_le _, List.length_replicate⟩, ?_⟩
  simp [contents, hcont]

theorem WF.reset (h : b.WF size) : (b.reset size).WF size ∧ (b.reset size).contents = [] := by
  obtain ⟨r, hr, hwf, hslots, hcont⟩ := Llring.init_spec (α := α) (h.slots_eq ▸ h.ring.pow)
  rw [PktBuffer.reset, hr]
  exact ⟨⟨hwf, hslots, Nat.zero_le _, h.length_peek⟩, by simp [contents, hcont]⟩

theorem WF.length_contents (h : b.WF size) :
    b.contents.length = b.tail + b.ringQueue.contents.length := by
  rw [contents, List.length_append, List.length_take, h.length_peek, min_eq_left h.tail_le]

theorem WF.length_lt (h : b.WF size) : b.contents.length < 2 ^ 31 + 32 := by
  obtain ⟨k, hk, hslots⟩ := h.ring.pow
  have hmask := h.ring.mask_eq
  have hle := h.ring.length_le_mask
  have htail : b.tail ≤ 32 := h.tail_le
  have hpow := Nat.pow_le_pow_right (show 0 < 2 by omega) (show k ≤ 31 by omega)
  rw [h.length_contents]
  omega

/-- `pktbuffer_count` is the number of packets of the buffer. -/
theorem WF.count_eq (h : b.WF size) : b.pktbufferCount = b.contents.length := by
  have hlt := h.length_lt
  rw [pktbufferCount, h.ring.count_eq, h.length_contents]
  rw [h.length_contents] at hlt
  exact wadd_of_lt (by omega)

/-- An enqueue appends a part of the batch at the front of it. -/
theorem WF.enqueue_spec (h : b.WF size) (pkts : List α) :
    (b.pktbufferEnqueue pkts).1.WF size ∧
      (b.pktbufferEnqueue pkts).2 ≤ pkts.length ∧
      (b.pktbufferEnqueue pkts).1.contents =
        b.contents ++ pkts.take (b.pktbufferEnqueue pkts).2 := by
  obtain ⟨hwf, hcont, hslots, hret⟩ := h.ring.mpEnqueueBurst_spec pkts
  refine ⟨⟨hwf, hslots.trans h.slots_eq, h.tail_le, h.length_peek⟩, ?_, ?_⟩
  · exact hret.le.trans (min_le_left _ _)
  · have htake : pkts.take (min pkts.length (b.ringQueue.mask - b.ringQueue.contents.length)) =
        pkts.take (b.ringQueue.mask - b.ringQueue.contents.length) := by
      rw [min_comm]
      exact List.take_eq_take_min.symm
    simp only [pktbufferEnqueue, contents, hcont, hret, htake, List.append_assoc]

/-- An enqueue takes as many packets as the ring has room for. -/
theorem WF.enqueue_count (h : b.WF size) (pkts : List α) :
    (b.pktbufferEnqueue pkts).2 =
      min pkts.length (size - 1 - b.ringQueue.contents.length) := by
  obtain ⟨-, -, -, hret⟩ := h.ring.mpEnqueueBurst_spec pkts
  rw [h.ring.mask_eq, h.slots_eq] at hret
  exact hret

/-- Priming fills the array and keeps the order of the packets. -/
theorem WF.prime_spec (h : b.WF size) :
    ∃ b', b.pktbufferPrime = .ok (b', min peekSize b.contents.length) ∧ b'.WF size ∧
      b'.contents = b.contents ∧ b'.tail = min peekSize b.contents.length := by
  have hlt := h.length_lt
  have hlen := h.length_contents
  have htail := h.tail_le
  have hpeek : peekSize = 32 := rfl
  have hcount := h.ring.count_eq
  have hsum : wadd 32 b.ringQueue.count b.tail = b.contents.length := by
    rw [hcount, wadd_of_lt (by omega)]; omega
  simp only [pktbufferPrime, hsum]
  by_cases hzero : b.contents.length = 0
  · rw [if_pos hzero, hzero, Nat.min_zero]
    exact ⟨b, rfl, h, rfl, by omega⟩
  · rw [if_neg hzero, wsub_of_le htail (by omega)]
    -- as many packets of the ring as the array has room for
    set k := if b.ringQueue.count > peekSize - b.tail then peekSize - b.tail
      else b.ringQueue.count with hk
    have hk' : k = min (peekSize - b.tail) b.ringQueue.contents.length := by
      rw [hk, ← hcount]
      split_ifs <;> omega
    obtain ⟨hwf, hcont, hslots, hobjs, hret⟩ := h.ring.scDequeueBulk_spec (n := k) (by omega)
    have htot : wadd 32 b.tail k = min peekSize b.contents.length := by
      rw [wadd_of_lt (by omega)]; omega
    have hobjlen : (b.ringQueue.contents.take k).length = k := by
      rw [List.length_take]; omega
    simp only [hret, ne_eq, not_true_eq_false, if_false, htot, hobjs]
    refine ⟨_, rfl, ⟨hwf, hslots.trans h.slots_eq, by simp, ?_⟩, ?_, rfl⟩
    · rw [length_overwrite (by rw [hobjlen, h.length_peek]; omega), h.length_peek]
    · have hfront : (overwrite b.peek b.tail (b.ringQueue.contents.take k)).take
          (min peekSize b.contents.length) = b.peek.take b.tail ++ b.ringQueue.contents.take k := by
        rw [overwrite, List.take_left']
        rw [List.length_append, List.length_take, hobjlen, h.length_peek]
        omega
      change List.take _ _ ++ (b.ringQueue.scDequeueBulk k).1.contents = b.contents
      rw [hfront, hcont, List.append_assoc, List.take_append_drop, contents]

/-- Flushing drops the oldest packets. -/
theorem WF.flush_spec (h : b.WF size) {n : ℕ} (hn : n ≤ b.tail) :
    ∃ b', b.pktbufferFlush n = .ok b' ∧ b'.WF size ∧ b'.contents = b.contents.drop n := by
  have htail := h.tail_le
  have hlen := h.length_peek
  have hfit : b.tail - n + n ≤ b.peek.length := by omega
  rw [pktbufferFlush, if_neg (by omega), copyDown_eq b.peek hfit]
  have hmoved : ((b.peek.drop n).take (b.tail - n)).length = b.tail - n := by
    simp; omega
  refine ⟨_, rfl, ⟨h.ring, h.slots_eq, by simp; omega, ?_⟩, ?_⟩
  · simp; omega
  · simp only [contents]
    rw [List.take_left' hmoved, List.drop_append_of_le_length (by simp; omega), List.drop_take]

theorem ringQueue_flush {b' : PktBuffer α} {n : ℕ} (h : b.pktbufferFlush n = .ok b') :
    b'.ringQueue = b.ringQueue := by
  unfold pktbufferFlush at h
  split_ifs at h
  cases h
  rfl

/-- When the whole buffer fits the array, priming empties the ring. -/
theorem WF.ring_eq_nil {b' : PktBuffer α} (h : b'.WF size) (htail : b'.tail = b'.contents.length) :
    b'.ringQueue.contents = [] := by
  have hlen := h.length_contents
  exact List.eq_nil_of_length_eq_zero (by omega)

end PktBuffer

end Backdraft

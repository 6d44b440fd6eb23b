import Backdraft.PktBuffer
import Backdraft.Lib.Refine

/-!
# The packet buffer is a bounded first-in-first-out queue

What `pktbuffer_t` is for, without its array and its ring: `Fifo` remembers the packets that were
accepted and how many of them were flushed, and the rest are its items, in order.

* `Fifo.step`: an enqueue accepts the longest front of its batch for which there is room, a prime
  exposes the oldest items, a flush drops some of them;
* `Fifo.allowed`: a flush drops at most what the last prime returned, and there is a prime between
  two flushes;
* `PktBuffer.step`: the three functions of the source, with what they return;
* `Stores`: the buffer and the queue hold the same packets; every allowed step keeps it
  (`simulates_fifo`).

The room of the queue is that of the ring, so the exposed items do not count (`Fifo.room`).
-/

namespace Backdraft

open Refine

namespace PktBuffer

variable {α : Type}

/-- The calls of a buffer. -/
inductive Op (α : Type)
  | enqueue (pkts : List α)
  | prime
  | flush (sentPkts : ℕ)

/-- What a call returns; a prime also lets the caller read the packets in `peek`. -/
inductive Reply (α : Type)
  | enqueued (n : ℕ)
  | primed (n : ℕ) (peek : List α)
  | flushed
  deriving DecidableEq

/-- The abstract queue. -/
structure Fifo (α : Type) where
  /-- Every packet that was accepted. -/
  accepted : List α
  /-- How many of them were flushed. -/
  flushed : ℕ
  /-- How many of the oldest items are exposed. -/
  exposed : ℕ
  /-- What the last prime returned, if there was no flush since. -/
  lastPrime : Option ℕ
  deriving DecidableEq

namespace Fifo

def empty : Fifo α := ⟨[], 0, 0, none⟩

/-- The accepted packets that are not yet flushed. -/
def items (q : Fifo α) : List α := q.accepted.drop q.flushed

/-- The room behind the items that are not exposed. -/
def room (cap : ℕ) (q : Fifo α) : ℕ := cap - (q.items.length - q.exposed)

def step (cap : ℕ) (q : Fifo α) : Op α → Fifo α × Reply α
  | .enqueue pkts =>
    let n := min pkts.length (q.room cap)
    ({ q with accepted := q.accepted ++ pkts.take n }, .enqueued n)
  | .prime =>
    let n := min peekSize q.items.length
    ({ q with exposed := n, lastPrime := some n }, .primed n (q.items.take n))
  | .flush sentPkts =>
    ({ q with
        flushed := q.flushed + sentPkts
        exposed := q.exposed - sentPkts
        lastPrime := none }, .flushed)

def allowed (q : Fifo α) : Op α → Bool
  | .flush sentPkts => q.lastPrime.any (sentPkts ≤ ·)
  | _ => true

end Fifo

section Buffer

variable [Inhabited α] {b b' : PktBuffer α} {q : Fifo α} {size idx : ℕ}

/-- A call of the buffer. -/
def step (b : PktBuffer α) : Op α → Except Fatal (PktBuffer α × Reply α)
  | .enqueue pkts => .ok ((b.pktbufferEnqueue pkts).1, .enqueued (b.pktbufferEnqueue pkts).2)
  | .prime => do
    let (b', n) ← b.pktbufferPrime
    return (b', .primed n (b'.peek.take n))
  | .flush sentPkts => do
    let b' ← b.pktbufferFlush sentPkts
    return (b', .flushed)

/-- An empty buffer whose ring indices all stand at `idx`. -/
structure EmptyAt (b : PktBuffer α) (size idx : ℕ) : Prop where
  slots_eq : b.ringQueue.slots = size
  mask_eq : b.ringQueue.mask = size - 1
  length_ring : b.ringQueue.ring.length = size
  prodHead_eq : b.ringQueue.prodHead = idx
  prodTail_eq : b.ringQueue.prodTail = idx
  consHead_eq : b.ringQueue.consHead = idx
  consTail_eq : b.ringQueue.consTail = idx
  tail_eq : b.tail = 0
  length_peek : b.peek.length = peekSize

/-- The buffer holds the items of the queue, the exposed ones in its array. -/
structure Stores (size : ℕ) (b : PktBuffer α) (q : Fifo α) : Prop where
  wf : b.WF size
  contents_eq : b.contents = q.items
  tail_eq : b.tail = q.exposed
  flushed_le : q.flushed ≤ q.accepted.length
  lastPrime_eq : ∀ n, q.lastPrime = some n → n = q.exposed

/-! ### The parts of a buffer -/

omit [Inhabited α] in
theorem EmptyAt.wf (h : b.EmptyAt size idx) (hsize : Llring.PowTwo size) (hidx : idx < 2 ^ 32) :
    b.WF size where
  ring :=
    { pow := h.slots_eq ▸ hsize
      mask_eq := h.slots_eq ▸ h.mask_eq
      length_ring := h.length_ring.trans h.slots_eq.symm
      prod_eq := h.prodHead_eq.trans h.prodTail_eq.symm
      cons_eq := h.consHead_eq.trans h.consTail_eq.symm
      prod_lt := h.prodTail_eq ▸ hidx
      entries_lt := by
        rw [h.prodTail_eq, h.consHead_eq, Word.wsub_self, h.slots_eq]
        exact hsize.pos }
  slots_eq := h.slots_eq
  tail_le := h.tail_eq ▸ Nat.zero_le _
  length_peek := h.length_peek

theorem EmptyAt.contents_eq (h : b.EmptyAt size idx) : b.contents = [] := by
  have hring : b.ringQueue.contents = [] := by
    apply List.eq_nil_of_length_eq_zero
    rw [Llring.length_contents, h.prodTail_eq, h.consHead_eq, Word.wsub_self]
  rw [contents, h.tail_eq, List.take_zero, hring, List.append_nil]

/-- The array holds the oldest packets. -/
theorem WF.take_tail (h : b.WF size) : b.contents.take b.tail = b.peek.take b.tail := by
  apply List.take_left'
  rw [List.length_take, h.length_peek, min_eq_left h.tail_le]

theorem tail_flush {n : ℕ} (h : b.pktbufferFlush n = .ok b') : b'.tail = b.tail - n := by
  unfold pktbufferFlush at h
  split_ifs at h
  cases h
  rfl

/-! ### One call -/

theorem Stores.exposed_le (h : Stores size b q) : q.exposed ≤ q.items.length := by
  have hlen := h.wf.length_contents
  rw [h.contents_eq, h.tail_eq] at hlen
  omega

/-- The packets that are not exposed are those of the ring. -/
theorem Stores.room_eq (h : Stores size b q) :
    q.room (size - 1) = size - 1 - b.ringQueue.contents.length := by
  have hlen := h.wf.length_contents
  rw [h.contents_eq, h.tail_eq] at hlen
  rw [Fifo.room, hlen, Nat.add_sub_cancel_left]

theorem Stores.enqueue (h : Stores size b q) (pkts : List α) :
    Stores size (b.pktbufferEnqueue pkts).1 (q.step (size - 1) (.enqueue pkts)).1 ∧
      (b.pktbufferEnqueue pkts).2 = min pkts.length (q.room (size - 1)) := by
  obtain ⟨hwf, -, hcont⟩ := h.wf.enqueue_spec pkts
  have hn : (b.pktbufferEnqueue pkts).2 = min pkts.length (q.room (size - 1)) := by
    rw [h.wf.enqueue_count, h.room_eq]
  refine ⟨⟨hwf, ?_, h.tail_eq, ?_, h.lastPrime_eq⟩, hn⟩
  · rw [hcont, hn, h.contents_eq]
    exact (List.drop_append_of_le_length h.flushed_le).symm
  · have := h.flushed_le
    simp only [Fifo.step, List.length_append]
    omega

theorem Stores.prime (h : Stores size b q) :
    ∃ b', b.pktbufferPrime = .ok (b', min peekSize q.items.length) ∧
      b'.peek.take (min peekSize q.items.length) = q.items.take (min peekSize q.items.length) ∧
      Stores size b' (q.step (size - 1) .prime).1 := by
  obtain ⟨b', hprime, hwf, hcont, htail⟩ := h.wf.prime_spec
  rw [h.contents_eq] at hprime hcont htail
  refine ⟨b', hprime, ?_, hwf, hcont, htail, h.flushed_le, ?_⟩
  · rw [← htail, ← hwf.take_tail, hcont]
  · intro n hn
    exact (Option.some.inj hn).symm

theorem Stores.flush (h : Stores size b q) {n : ℕ} (hn : q.allowed (.flush n) = true) :
    ∃ b', b.pktbufferFlush n = .ok b' ∧ Stores size b' (q.step (size - 1) (.flush n)).1 := by
  have hle : n ≤ q.exposed := by
    cases hk : q.lastPrime with
    | none => simp [Fifo.allowed, hk] at hn
    | some k =>
      rw [← h.lastPrime_eq k hk]
      simpa [Fifo.allowed, hk] using hn
  have hitems : q.items.length = q.accepted.length - q.flushed := List.length_drop
  have hexp := h.exposed_le
  obtain ⟨b', hflush, hwf, hcont⟩ := h.wf.flush_spec (hle.trans h.tail_eq.ge)
  refine ⟨b', hflush, hwf, ?_, ?_, ?_, by simp [Fifo.step]⟩
  · rw [hcont, h.contents_eq]
    exact List.drop_drop
  · rw [tail_flush hflush, h.tail_eq]
    rfl
  · have := h.flushed_le
    simp only [Fifo.step]
    omega

/-- **The simulation.** -/
theorem simulates_fifo :
    Simulates (step (α := α)) (Fifo.step (size - 1)) Fifo.allowed (Stores size) := by
  intro b q op h hop
  cases op with
  | enqueue pkts =>
    obtain ⟨hstores, hn⟩ := h.enqueue pkts
    exact ⟨_, by rw [step, hn]; rfl, hstores⟩
  | prime =>
    obtain ⟨b', hprime, hpeek, hstores⟩ := h.prime
    refine ⟨b', ?_, hstores⟩
    rw [step, hprime]
    show Except.ok (b', Reply.primed _ (b'.peek.take _)) = _
    rw [hpeek]
    rfl
  | flush n =>
    obtain ⟨b', hflush, hstores⟩ := h.flush hop
    exact ⟨b', by rw [step, hflush]; rfl, hstores⟩

/-- **Every run.**  From an empty buffer at any ring index, allowed calls never end the program,
return what the queue returns, and leave the packets of the queue in the buffer. -/
theorem pktbuffer_refines_fifo (hsize : Llring.PowTwo size) (hidx : idx < 2 ^ 32)
    (hb : b.EmptyAt size idx) (ops : List (Op α))
    (hops : admissible (Fifo.step (size - 1)) Fifo.allowed Fifo.empty ops = true) :
    ∃ b', run step b ops = .ok (b', (specRun (Fifo.step (size - 1)) Fifo.empty ops).2) ∧
      b'.contents = (specRun (Fifo.step (size - 1)) Fifo.empty ops).1.items ∧
      b'.pktbufferCount = (specRun (Fifo.step (size - 1)) Fifo.empty ops).1.items.length ∧
      b'.tail = (specRun (Fifo.step (size - 1)) Fifo.empty ops).1.exposed ∧
      b'.tail ≤ peekSize := by
  have hstart : Stores size b Fifo.empty :=
    ⟨hb.wf hsize hidx, hb.contents_eq, hb.tail_eq, le_rfl, by simp [Fifo.empty]⟩
  obtain ⟨b', hrun, h⟩ := simulates_fifo.exists_run hstart ops hops
  exact ⟨b', hrun, h.contents_eq, h.wf.count_eq.trans (by rw [h.contents_eq]), h.tail_eq,
    h.wf.tail_le⟩

/-- A ring of four slots whose index passes `2 ^ 32`: five packets come, three are accepted and
exposed, two are flushed, and of four more the ring takes three. -/
theorem pktbuffer_refines_fifo_wrap :
    ∃ b' : PktBuffer ℕ,
      run step ⟨⟨4, 3, 4, 2 ^ 32 - 2, 2 ^ 32 - 2, 2 ^ 32 - 2, 2 ^ 32 - 2, [0, 0, 0, 0]⟩, 0,
          List.replicate peekSize 0⟩
          [.enqueue [1, 2, 3, 4, 5], .prime, .flush 2, .enqueue [6, 7, 8, 9], .prime] =
        .ok (b', [.enqueued 3, .primed 3 [1, 2, 3], .flushed, .enqueued 3,
          .primed 4 [3, 6, 7, 8]]) ∧ b'.contents = [3, 6, 7, 8] := by
  have hsize : Llring.PowTwo 4 := ⟨2, by decide, rfl⟩
  have hempty : EmptyAt (α := ℕ) ⟨⟨4, 3, 4, 2 ^ 32 - 2, 2 ^ 32 - 2, 2 ^ 32 - 2, 2 ^ 32 - 2,
      [0, 0, 0, 0]⟩, 0, List.replicate peekSize 0⟩ 4 (2 ^ 32 - 2) :=
    ⟨rfl, rfl, rfl, rfl, rfl, rfl, rfl, rfl, rfl⟩
  obtain ⟨b', hrun, hcont, -, -, -⟩ := pktbuffer_refines_fifo hsize (by decide) hempty
    [.enqueue [1, 2, 3, 4, 5], .prime, .flush 2, .enqueue [6, 7, 8, 9], .prime] (by decide)
  exact ⟨b', hrun, hcont⟩

end Buffer

end PktBuffer

end Backdraft

import Backdraft.Llring

/-!
# The marking of packets

`ECNMarker::ProcessBatch` of `ecn_marker.cc` puts a batch into the ring of the module, and marks the
packets that stand above the high-water mark there.

* `ecnMark`: the mark, on the header of a packet;
* `ECNMarker`, `processBatch`: the loop over the indices, as integers, with the headers of all
  packets;
* `headers_processBatch`: a packet is marked exactly if the loop comes to it;
* `marks_exactly_iff`: the loop stays inside the batch exactly if the ring was not above the
  high-water mark already;
* `marks_before_batch`: a batch that finds the ring above it.

Packets are pointers, which the ring holds, to headers in a common memory.
-/

namespace Backdraft

open Word

/-- The fields of an IPv4 header that `ecnMark` reads and writes. -/
structure EcnHeader where
  protocol : ℕ
  typeOfService : ℕ
  deriving DecidableEq

/-- `Ipv4::Proto::kTcp`. -/
def kTcp : ℕ := 0x06

/-- `ecnMark`. -/
def ecnMark (h : EcnHeader) : EcnHeader :=
  if h.protocol = kTcp then { h with typeOfService := 0x03 } else h

theorem ecnMark_ecnMark (h : EcnHeader) : ecnMark (ecnMark h) = ecnMark h := by
  unfold ecnMark
  split_ifs <;> rfl

/-- A word stored in an `int`. -/
def toInt (n : ℕ) : ℤ := Int.bmod n (2 ^ 32)

/-- A small difference of 64-bit words is stored with its sign. -/
theorem toInt_wsub {a b : ℕ} (hlt : (a : ℤ) - b < 2 ^ 31) (hle : -2 ^ 31 ≤ (a : ℤ) - b) :
    toInt (wsub 64 a b) = a - b := by
  have hmod := add_wsub_modEq (w := 64) a b
  unfold Nat.ModEq at hmod
  unfold toInt
  rw [Int.bmod_def]
  split_ifs
  · omega
  · omega

theorem toInt_of_lt {n : ℕ} (h : n < 2 ^ 31) : toInt n = n := by
  unfold toInt
  rw [Int.bmod_def]
  split_ifs
  · omega
  · omega

/-- A `PacketBatch`: `pkts i` is what `pkts()[i]` reads, be it in the batch or not. -/
structure PacketBatch (α : Type) where
  cnt : ℕ
  pkts : ℤ → α

/-- The packets of a batch. -/
def PacketBatch.packets {α : Type} (b : PacketBatch α) : List α :=
  (List.range b.cnt).map fun i : ℕ => b.pkts i

/-- `stats_`. -/
structure MarkerStats where
  enqueued : ℕ
  dequeued : ℕ
  dropped : ℕ
  deriving DecidableEq

/-- An `ECNMarker`, with the packets it has freed. -/
structure ECNMarker (α : Type) where
  queue : Llring α
  highWater : ℕ
  stats : MarkerStats
  maxQueueExperienced : ℕ
  freed : List α

/-- What a call of `ProcessBatch` does: the headers it leaves, the number of packets that the ring
took, and the indices that the loop came to. -/
structure Processed (α : Type) where
  marker : ECNMarker α
  headers : α → EcnHeader
  queued : ℕ
  touched : List ℤ

/-- The indices of `for (i = first; i < stop; i++)`. -/
def indices (first stop : ℤ) : List ℤ :=
  (List.range (stop - first).toNat).map fun k : ℕ => first + k

theorem mem_indices {first stop i : ℤ} : i ∈ indices first stop ↔ first ≤ i ∧ i < stop := by
  simp only [indices, List.mem_map, List.mem_range]
  constructor
  · rintro ⟨k, hk, rfl⟩
    omega
  · rintro ⟨hle, hlt⟩
    exact ⟨(i - first).toNat, by omega, by omega⟩

namespace ECNMarker

variable {α : Type} [DecidableEq α]

/-- The headers after the packets at these indices have been marked. -/
def markAt (b : PacketBatch α) (headers : α → EcnHeader) (is : List ℤ) : α → EcnHeader :=
  is.foldl (fun headers i =>
    Function.update headers (b.pkts i) (ecnMark (headers (b.pkts i)))) headers

/-- `ProcessBatch`. -/
def processBatch (s : ECNMarker α) (headers : α → EcnHeader) (b : PacketBatch α) : Processed α :=
  let prevSize := s.queue.count
  let (queue, queued) := s.queue.mpEnqueueBurst b.packets
  let currentSize := queue.count
  let touched :=
    if s.highWater < currentSize then indices (toInt (wsub 64 s.highWater prevSize)) (toInt queued)
    else []
  { marker :=
      { s with
        queue := queue
        stats :=
          { s.stats with
            enqueued := wadd 64 s.stats.enqueued queued
            dropped :=
              if queued < b.cnt then wadd 64 s.stats.dropped (b.cnt - queued)
              else s.stats.dropped }
        maxQueueExperienced := max s.maxQueueExperienced currentSize
        freed := s.freed ++ b.packets.drop queued }
    headers := markAt b headers touched
    queued := queued
    touched := touched }

/-- The loop comes to the packets of the batch that the ring took at a position above the
high-water mark, and to nothing else. -/
def MarksExactly (s : ECNMarker α) (r : Processed α) : Prop :=
  ∀ i : ℤ, i ∈ r.touched ↔
    0 ≤ i ∧ i < r.queued ∧ (s.highWater : ℤ) < s.queue.count + i + 1

theorem markAt_apply (b : PacketBatch α) (headers : α → EcnHeader) (is : List ℤ) (p : α) :
    markAt b headers is p = if ∃ i ∈ is, b.pkts i = p then ecnMark (headers p) else headers p := by
  unfold markAt
  induction is using List.reverseRecOn with
  | nil => simp
  | append_singleton is i ih =>
    rw [List.foldl_append, List.foldl_cons, List.foldl_nil, Function.update_apply]
    by_cases hp : p = b.pkts i
    · have hmem : ∃ j ∈ is ++ [i], b.pkts j = p := ⟨i, by simp, hp.symm⟩
      rw [if_pos hp, if_pos hmem, ← hp, ih]
      split_ifs
      · exact ecnMark_ecnMark _
      · rfl
    · rw [if_neg hp, ih]
      have hiff : (∃ j ∈ is ++ [i], b.pkts j = p) ↔ ∃ j ∈ is, b.pkts j = p := by
        constructor
        · rintro ⟨j, hj, hjp⟩
          rcases List.mem_append.1 hj with hmem | hmem
          · exact ⟨j, hmem, hjp⟩
          · exact absurd ((List.mem_singleton.1 hmem) ▸ hjp).symm hp
        · rintro ⟨j, hj, hjp⟩
          exact ⟨j, List.mem_append_left _ hj, hjp⟩
      simp only [hiff]

variable {s : ECNMarker α} {headers : α → EcnHeader} {b : PacketBatch α}

/-- The mark is on the packets that the loop came to. -/
theorem headers_processBatch (p : α) :
    (s.processBatch headers b).headers p =
      if ∃ i ∈ (s.processBatch headers b).touched, b.pkts i = p then ecnMark (headers p)
      else headers p :=
  markAt_apply b headers _ p

omit [DecidableEq α] in
theorem length_packets (b : PacketBatch α) : b.packets.length = b.cnt := by
  simp [PacketBatch.packets]

section Marks

variable [Inhabited α] (h : s.queue.WF) (hw : s.queue.watermark = s.queue.slots)
include h hw

/-- What the ring takes, and how long it is then. -/
theorem queued_processBatch :
    (s.processBatch headers b).queued = min b.cnt (s.queue.mask - s.queue.count) ∧
      (s.processBatch headers b).marker.queue.count =
        s.queue.count + (s.processBatch headers b).queued := by
  have hqueued : (s.processBatch headers b).queued = min b.cnt (s.queue.mask - s.queue.count) := by
    have hresult := h.mpEnqueueBurst_result hw b.packets
    rw [length_packets, ← h.count_eq] at hresult
    exact hresult
  refine ⟨hqueued, ?_⟩
  obtain ⟨hwf, hcont, -, -⟩ := h.mpEnqueueBurst_spec b.packets
  rw [hqueued, h.count_eq]
  change (s.queue.mpEnqueueBurst b.packets).1.count = _
  rw [hwf.count_eq, hcont, List.length_append, List.length_take, length_packets, min_comm]

/-- The indices that the loop comes to, without wrap-around. -/
theorem touched_processBatch :
    (s.processBatch headers b).touched =
      if s.highWater < s.queue.count + (s.processBatch headers b).queued then
        indices (s.highWater - s.queue.count) (s.processBatch headers b).queued
      else [] := by
  obtain ⟨hqueued, hcount⟩ : (s.processBatch headers b).queued = _ ∧ _ := queued_processBatch h hw
  have hmask : s.queue.mask < 2 ^ 31 := h.mask_lt
  have hle : s.queue.count ≤ s.queue.mask := h.count_eq ▸ h.length_le_mask
  rw [← hcount]
  change (if s.highWater < (s.processBatch headers b).marker.queue.count then
    indices (toInt (wsub 64 s.highWater s.queue.count)) (toInt (s.processBatch headers b).queued)
    else []) = _
  split_ifs with hover
  · rw [toInt_wsub (by omega) (by omega), toInt_of_lt (by omega)]
  · rfl

/-- **Marking is exact, and stays inside the batch, exactly if the ring was not above the high-water
mark when the batch came.**  Otherwise the loop starts at a negative index. -/
theorem marks_exactly_iff :
    s.MarksExactly (s.processBatch headers b) ↔ s.queue.count ≤ s.highWater := by
  unfold MarksExactly
  rw [touched_processBatch h hw]
  split_ifs with hover
  · simp only [mem_indices]
    constructor
    · intro hexact
      by_contra hlt
      have hbefore := (hexact (-1)).1 ⟨by omega, by omega⟩
      omega
    · intro hle i
      omega
  · refine iff_of_true (fun i => ⟨fun hi => ?_, fun hi => ?_⟩) (by omega)
    · cases hi
    · omega

end Marks

/-- A new marker with the high-water mark at one packet. -/
def markerOf (queue : Llring ℕ) : ECNMarker ℕ := ⟨queue, 1, ⟨0, 0, 0⟩, 0, []⟩

/-- The packets numbered from `first` on, with what stands before them in memory. -/
def batchFrom (first cnt : ℕ) : PacketBatch ℕ := ⟨cnt, fun i => (first + i).toNat⟩

/-- All packets are TCP packets without a mark. -/
def unmarked (_ : ℕ) : EcnHeader := ⟨kTcp, 0⟩

/-- Of three packets for an empty ring the last two are marked. -/
theorem marks_exactly_three :
    ∃ r, Llring.init 8 = some r ∧
      ((markerOf r).processBatch unmarked (batchFrom 20 3)).touched = [1, 2] ∧
      (markerOf r).MarksExactly ((markerOf r).processBatch unmarked (batchFrom 20 3)) := by
  have hrun : ((Llring.init 8).map fun r =>
      decide (((markerOf r).processBatch unmarked (batchFrom 20 3)).touched = [1, 2] ∧
        r.watermark = r.slots ∧ r.count = 0)) = some true := by
    decide +kernel
  obtain ⟨r, hr, hdec⟩ := Option.map_eq_some_iff.1 hrun
  obtain ⟨htouched, hw, hcount⟩ := of_decide_eq_true hdec
  obtain ⟨r', hr', hwf, -, -⟩ := Llring.init_spec (α := ℕ) ⟨3, by decide, rfl⟩
  obtain rfl : r' = r := Option.some.inj (hr'.symm.trans hr)
  refine ⟨r', hr, htouched, (marks_exactly_iff hwf hw).2 ?_⟩
  exact hcount.trans_le (Nat.zero_le _)

/-- **A batch that finds the ring above the mark.**  After three packets, a batch of one is marked
from index -2 on: the two words before the batch are taken for packets and written to. -/
theorem marks_before_batch :
    ∃ r, Llring.init 8 = some r ∧
      let s := ((markerOf r).processBatch unmarked (batchFrom 20 3)).marker
      (s.processBatch unmarked (batchFrom 30 1)).touched = [-2, -1, 0] ∧
      (s.processBatch unmarked (batchFrom 30 1)).headers 28 = ⟨kTcp, 3⟩ ∧
      28 ∉ (batchFrom 30 1).packets ∧
      ¬s.MarksExactly (s.processBatch unmarked (batchFrom 30 1)) := by
  have hrun : ((Llring.init 8).map fun r =>
      let s := ((markerOf r).processBatch unmarked (batchFrom 20 3)).marker
      decide ((s.processBatch unmarked (batchFrom 30 1)).touched = [-2, -1, 0] ∧
        (s.processBatch unmarked (batchFrom 30 1)).headers 28 = ⟨kTcp, 3⟩ ∧
        28 ∉ (batchFrom 30 1).packets)) = some true := by
    decide +kernel
  obtain ⟨r, hr, hdec⟩ := Option.map_eq_some_iff.1 hrun
  obtain ⟨htouched, hheader, hnot⟩ := of_decide_eq_true hdec
  refine ⟨r, hr, htouched, hheader, hnot, fun hexact => ?_⟩
  have hneg := ((hexact (-2)).1 (by rw [htouched]; simp)).1
  omega

end ECNMarker

end Backdraft

import Backdraft.Lib.Run
import Backdraft.Lib.Slots
import Backdraft.Lib.Word

/-!
# The batch of control packets

`SendCtrlPkt` and `TryFlushCtrlBatch` of `bkdrft_queue_out.cc`.  The module keeps an array of
`ctrl_batch_size` packets; the first `ctrl_batch_used_` of them carry messages that wait to be
sent.  A flush hands these to the port, moves what is left to the front and allocates new packets
for the places at the end.

* `CtrlBatch`, `flush`, `tryFlushCtrlBatch`, `sendCtrlPkt`;
* `Owned`: the packets of the batch are different, none was handed to the port, and no packet
  that was allocated is lost;
* `keepsOwnership`: when the port takes the whole of a batch that is neither empty nor full, the
  loop that moves the rest to the front is skipped, and the new packets replace unused ones while
  the packets sent stay;
* `ctrlBatch_owned`: `Owned` holds in every run without such a flush, and any such flush breaks it.

`flush` is over what `AllocBulk` of the packet pool gives.  In `tryFlushCtrlBatch` these are new
packets, named in the order of their allocation; that freed packets come again from the pool is
part of the doorbell system, which has the receiver that frees them.  The failure of `AllocBulk`,
which ends the program, is not modelled.  `prepare_ctrl_packet` cannot fail, and no entry
of the batch is null, so the branches of `SendCtrlPkt` for these cases are left out.
-/

namespace Backdraft

open Word Slots

/-- `struct cdq_payload` of a control message. -/
structure CdqPayload where
  qid : ℕ
  prio : ℕ
  nbPkts : ℕ
  deriving DecidableEq, Inhabited

/-- `ctrl_batch_size`. -/
@[irreducible] def ctrlBatchSize : ℕ := 1024

/-- The fields of `BKDRFTQueueOut` for control packets, with the contents of the packets, the name
of the next packet to be allocated, and the packets handed to the port so far. -/
structure CtrlBatch where
  ctrlBatch : List ℕ
  ctrlBatchUsed : ℕ
  firstCtrlPktTs : ℕ
  currentNs : ℕ
  ctrlMsgTp : ℕ
  payload : ℕ → CdqPayload
  nextPkt : ℕ
  handed : List ℕ

namespace CtrlBatch

/-- The end of `BKDRFTQueueOut::Init`. -/
def init : CtrlBatch where
  ctrlBatch := List.range ctrlBatchSize
  ctrlBatchUsed := 0
  firstCtrlPktTs := 0
  currentNs := 0
  ctrlMsgTp := 0
  payload := fun _ => default
  nextPkt := ctrlBatchSize
  handed := []

/-- `can_flush` in `TryFlushCtrlBatch`. -/
def canFlush (s : CtrlBatch) : Bool :=
  31 < s.ctrlBatchUsed || 1000 < wsub 64 s.currentNs s.firstCtrlPktTs

/-- `TryFlushCtrlBatch`, with a port that takes at most `accept` packets and a pool that gives the
packets `alloc n` when `AllocBulk` asks for `n`. -/
def flush (s : CtrlBatch) (accept : ℕ) (alloc : ℕ → List ℕ) : CtrlBatch :=
  if s.canFlush then
    let sent := min accept s.ctrlBatchUsed
    let failed := s.ctrlBatchUsed - sent
    let healthy := ctrlBatchSize - s.ctrlBatchUsed
    let moved :=
      if failed > 0 then copyDown s.ctrlBatch sent (failed + healthy) else s.ctrlBatch
    { s with
      ctrlBatch := overwrite moved (failed + healthy) (alloc sent)
      ctrlBatchUsed := failed
      ctrlMsgTp := wadd 64 s.ctrlMsgTp sent
      nextPkt := s.nextPkt + sent
      handed := s.handed ++ s.ctrlBatch.take sent }
  else s

/-- `TryFlushCtrlBatch`, when the pool gives packets that were never used. -/
def tryFlushCtrlBatch (s : CtrlBatch) (accept : ℕ) : CtrlBatch :=
  s.flush accept (List.range' s.nextPkt)

/-- How a call can end the program. -/
inductive Fatal
  /-- `"ctrl_batch_limit reached"` -/
  | ctrlBatchLimit
  deriving DecidableEq

/-- The message of a control packet: `prepare_ctrl_packet` takes the queue as a `uint8_t`, and the
payload has 16 bits for the priority. -/
def prepareCtrlPacket (qid prio nbPkts : ℕ) : CdqPayload := ⟨qid % 2 ^ 8, prio % 2 ^ 16, nbPkts⟩

/-- `SendCtrlPkt` up to the flush. -/
def addCtrlPkt (s : CtrlBatch) (qid prio sentPkts : ℕ) : Except Fatal CtrlBatch :=
  if ctrlBatchSize ≤ s.ctrlBatchUsed then .error .ctrlBatchLimit
  else
    let pkt := s.ctrlBatch.getD s.ctrlBatchUsed default
    .ok { s with
      firstCtrlPktTs := if s.ctrlBatchUsed = 0 then s.currentNs else s.firstCtrlPktTs
      ctrlBatchUsed := s.ctrlBatchUsed + 1
      payload := Function.update s.payload pkt (prepareCtrlPacket qid prio (sentPkts % 2 ^ 16)) }

/-- `SendCtrlPkt`. -/
def sendCtrlPkt (s : CtrlBatch) (qid prio sentPkts accept : ℕ) : Except Fatal CtrlBatch :=
  match s.addCtrlPkt qid prio sentPkts with
  | .error e => .error e
  | .ok s => .ok (s.tryFlushCtrlBatch accept)

/-- A call, at the time `now`, with the number of packets the port is ready to take. -/
inductive Op
  | sendCtrlPkt (now qid prio sentPkts accept : ℕ)
  | tryFlush (now accept : ℕ)

/-- The acceptance of the port during a call. -/
def Op.accept : Op → ℕ
  | .sendCtrlPkt _ _ _ _ accept => accept
  | .tryFlush _ accept => accept

/-- The state in which the call comes to its flush. -/
def beforeFlush (s : CtrlBatch) : Op → Except Fatal CtrlBatch
  | .sendCtrlPkt now qid prio sentPkts _ => { s with currentNs := now }.addCtrlPkt qid prio sentPkts
  | .tryFlush now _ => .ok { s with currentNs := now }

/-- One call. -/
def step (s : CtrlBatch) : Op → Except Fatal CtrlBatch
  | .sendCtrlPkt now qid prio sentPkts accept =>
    { s with currentNs := now }.sendCtrlPkt qid prio sentPkts accept
  | .tryFlush now accept => .ok ({ s with currentNs := now }.tryFlushCtrlBatch accept)

/-- A flush in which the port takes the whole of a batch that is neither empty nor full. -/
def fullFlush (s : CtrlBatch) (accept : ℕ) : Bool :=
  s.canFlush && decide (0 < s.ctrlBatchUsed ∧ s.ctrlBatchUsed < ctrlBatchSize ∧
    s.ctrlBatchUsed ≤ accept)

/-- The call makes no such flush. -/
def keepsOwnership (s : CtrlBatch) (op : Op) : Bool :=
  match s.beforeFlush op with
  | .ok t => !t.fullFlush op.accept
  | .error _ => true

/-- The batch holds different packets, none of them handed to the port, and every packet ever
allocated for it is in the batch or was handed over. -/
structure Owned (s : CtrlBatch) : Prop where
  length_eq : s.ctrlBatch.length = ctrlBatchSize
  nodup : s.ctrlBatch.Nodup
  notHanded : ∀ p ∈ s.ctrlBatch, p ∉ s.handed
  kept : ∀ p < s.nextPkt, p ∈ s.ctrlBatch ∨ p ∈ s.handed

/-! ### One flush -/

/-- The array has all its places, and no more are used. -/
structure Filled (s : CtrlBatch) : Prop where
  length_eq : s.ctrlBatch.length = ctrlBatchSize
  used_le : s.ctrlBatchUsed ≤ ctrlBatchSize

/-- The invariant behind `Owned`: batch and handed packets are together those allocated. -/
structure Inv (s : CtrlBatch) : Prop extends Filled s where
  perm : (s.ctrlBatch ++ s.handed).Perm (List.range s.nextPkt)

theorem Inv.owned {s : CtrlBatch} (h : s.Inv) : s.Owned := by
  obtain ⟨hnd, -, hdis⟩ := List.nodup_append.1 (h.perm.nodup_iff.2 List.nodup_range)
  refine ⟨h.length_eq, hnd, fun p hp hh => hdis p hp p hh rfl, fun p hp => ?_⟩
  exact List.mem_append.1 (h.perm.mem_iff.2 (List.mem_range.2 hp))

variable {s t : CtrlBatch} {accept : ℕ} {alloc : ℕ → List ℕ}

theorem flush_of_not_canFlush (h : s.canFlush = false) : s.flush accept alloc = s := by
  simp [flush, h]

/-- A partial flush, or one that takes nothing, moves the rest to the front. -/
theorem ctrlBatch_flush_of_lt (h : s.Filled) (halloc : ∀ n, (alloc n).length = n)
    (hcan : s.canFlush = true) (hlt : accept < s.ctrlBatchUsed) :
    (s.flush accept alloc).ctrlBatch = s.ctrlBatch.drop accept ++ alloc accept := by
  have hle := h.used_le
  have hrest : s.ctrlBatchUsed - accept + (ctrlBatchSize - s.ctrlBatchUsed) +
      (alloc accept).length = s.ctrlBatch.length := by
    rw [h.length_eq, halloc]; omega
  have key := overwrite_copyDown hrest
  rw [halloc] at key
  simp only [flush, hcan, if_true, min_eq_left hlt.le]
  rw [if_pos (by omega), key]

/-- A flush that takes the whole batch overwrites the places at the end. -/
theorem ctrlBatch_flush_of_le (h : s.Filled) (halloc : ∀ n, (alloc n).length = n)
    (hcan : s.canFlush = true) (hle : s.ctrlBatchUsed ≤ accept) :
    (s.flush accept alloc).ctrlBatch =
      s.ctrlBatch.take (ctrlBatchSize - s.ctrlBatchUsed) ++ alloc s.ctrlBatchUsed := by
  have hused := h.used_le
  have hend : s.ctrlBatch.drop (ctrlBatchSize - s.ctrlBatchUsed + s.ctrlBatchUsed) = [] :=
    List.drop_eq_nil_of_le (by rw [h.length_eq]; omega)
  simp only [flush, hcan, if_true, min_eq_right hle, Nat.sub_self]
  rw [if_neg (by omega), overwrite, halloc, Nat.zero_add, hend, List.append_nil]

/-- The other fields after a flush. -/
theorem flush_fields (accept : ℕ) (alloc : ℕ → List ℕ) (hcan : s.canFlush = true) :
    (s.flush accept alloc).handed =
        s.handed ++ s.ctrlBatch.take (min accept s.ctrlBatchUsed) ∧
      (s.flush accept alloc).nextPkt = s.nextPkt + min accept s.ctrlBatchUsed ∧
      (s.flush accept alloc).ctrlBatchUsed =
        s.ctrlBatchUsed - min accept s.ctrlBatchUsed := by
  simp [flush, hcan]

/-- A flush leaves the array with all its places. -/
theorem Filled.flush (h : s.Filled) (halloc : ∀ n, (alloc n).length = n) (accept : ℕ) :
    (s.flush accept alloc).Filled := by
  cases hcan : s.canFlush with
  | false => rwa [flush_of_not_canFlush hcan]
  | true =>
    obtain ⟨-, -, hused⟩ := flush_fields accept alloc hcan
    have hlen := h.length_eq
    have hle := h.used_le
    refine ⟨?_, by omega⟩
    rcases Nat.lt_or_ge accept s.ctrlBatchUsed with hlt | hge
    · rw [ctrlBatch_flush_of_lt h halloc hcan hlt, List.length_append, List.length_drop, halloc]
      omega
    · rw [ctrlBatch_flush_of_le h halloc hcan hge, List.length_append, List.length_take, halloc]
      omega

/-- Dropping `n` packets at the front, handing them over and adding new ones keeps the account. -/
theorem perm_handOver {batch handed : List ℕ} {next : ℕ} (n : ℕ)
    (h : (batch ++ handed).Perm (List.range next)) :
    (batch.drop n ++ List.range' next n ++ (handed ++ batch.take n)).Perm
      (List.range (next + n)) := by
  have hrange : List.range (next + n) = List.range next ++ List.range' next n := by
    rw [List.range_eq_range', List.range_eq_range', List.range'_append_1.symm, Nat.zero_add]
  have hmove : (batch.drop n ++ List.range' next n ++ (handed ++ batch.take n)).Perm
      (batch.take n ++ batch.drop n ++ handed ++ List.range' next n) := by
    rw [List.perm_iff_count]
    intro a
    simp only [List.count_append]
    omega
  rw [List.take_append_drop] at hmove
  rw [hrange]
  exact hmove.trans (h.append_right _)

/-- Unless it takes the whole of a part of the batch, a flush drops what was sent. -/
theorem ctrlBatch_flush (h : s.Filled) (halloc : ∀ n, (alloc n).length = n)
    (hcan : s.canFlush = true) (hfull : s.fullFlush accept = false) :
    (s.flush accept alloc).ctrlBatch =
      s.ctrlBatch.drop (min accept s.ctrlBatchUsed) ++ alloc (min accept s.ctrlBatchUsed) := by
  rcases Nat.lt_or_ge accept s.ctrlBatchUsed with hlt | hge
  · rw [ctrlBatch_flush_of_lt h halloc hcan hlt, min_eq_left hlt.le]
  · rw [ctrlBatch_flush_of_le h halloc hcan hge, min_eq_right hge]
    simp only [fullFlush, hcan, Bool.true_and, decide_eq_false_iff_not] at hfull
    have hused := h.used_le
    congr 1
    rcases Nat.eq_zero_or_pos s.ctrlBatchUsed with hzero | hpos
    · rw [hzero, Nat.sub_zero, ← h.length_eq, List.take_length, List.drop_zero]
    · have hall : s.ctrlBatchUsed = ctrlBatchSize := by omega
      rw [hall, Nat.sub_self, List.take_zero, List.drop_eq_nil_of_le h.length_eq.le]

/-- A flush that is not a full one of a part of the batch keeps the invariant. -/
theorem Inv.tryFlush (h : s.Inv) (hfull : s.fullFlush accept = false) :
    (s.tryFlushCtrlBatch accept).Inv := by
  have halloc : ∀ n, (List.range' s.nextPkt n).length = n := fun _ => List.length_range'
  refine ⟨h.toFilled.flush halloc accept, ?_⟩
  unfold tryFlushCtrlBatch
  cases hcan : s.canFlush with
  | false => rw [flush_of_not_canFlush hcan]; exact h.perm
  | true =>
    obtain ⟨hhanded, hnext, -⟩ := flush_fields accept (List.range' s.nextPkt) hcan
    rw [ctrlBatch_flush h.toFilled halloc hcan hfull, hhanded, hnext]
    exact perm_handOver _ h.perm

/-- After a full flush of a part of the batch, its first packet is still there, though sent. -/
theorem not_owned_of_fullFlush (h : s.Inv) (hfull : s.fullFlush accept = true) :
    ¬ (s.tryFlushCtrlBatch accept).Owned := by
  intro howned
  obtain ⟨hcan, hcond⟩ := Bool.and_eq_true_iff.1 hfull
  obtain ⟨hpos, hlt, hle⟩ := of_decide_eq_true hcond
  obtain ⟨hhanded, -, -⟩ := flush_fields accept (List.range' s.nextPkt) hcan
  obtain ⟨p, l, hl⟩ : ∃ p l, s.ctrlBatch = p :: l :=
    List.exists_cons_of_length_pos (by rw [h.length_eq]; omega)
  obtain ⟨u, hu⟩ : ∃ u, s.ctrlBatchUsed = u + 1 := ⟨s.ctrlBatchUsed - 1, by omega⟩
  obtain ⟨v, hv⟩ : ∃ v, ctrlBatchSize - s.ctrlBatchUsed = v + 1 :=
    ⟨ctrlBatchSize - s.ctrlBatchUsed - 1, by omega⟩
  refine howned.notHanded p ?_ ?_
  · rw [tryFlushCtrlBatch, ctrlBatch_flush_of_le h.toFilled (fun _ => List.length_range') hcan hle,
      hv, hl]
    simp
  · rw [tryFlushCtrlBatch, hhanded, min_eq_right hle, hl, hu]; simp

/-! ### Runs -/

theorem Inv.init : init.Inv where
  length_eq := List.length_range
  used_le := Nat.zero_le _
  perm := by
    change (List.range ctrlBatchSize ++ []).Perm (List.range ctrlBatchSize)
    rw [List.append_nil]

/-- Up to its flush a call does not touch the ownership of packets. -/
theorem Inv.beforeFlush {op : Op} (h : s.Inv) (hb : s.beforeFlush op = .ok t) : t.Inv := by
  cases op with
  | tryFlush now accept =>
    simp only [CtrlBatch.beforeFlush, Except.ok.injEq] at hb
    subst hb
    exact ⟨⟨h.length_eq, h.used_le⟩, h.perm⟩
  | sendCtrlPkt now qid prio sentPkts accept =>
    simp only [CtrlBatch.beforeFlush, addCtrlPkt] at hb
    by_cases hlimit : ctrlBatchSize ≤ s.ctrlBatchUsed
    · simp [hlimit] at hb
    · rw [if_neg hlimit, Except.ok.injEq] at hb
      subst hb
      exact ⟨⟨h.length_eq, Nat.lt_of_not_le hlimit⟩, h.perm⟩

/-- A call is what it does before the flush, and the flush. -/
theorem step_eq (s : CtrlBatch) (op : Op) :
    s.step op = (s.beforeFlush op).map fun t => t.tryFlushCtrlBatch op.accept := by
  cases op with
  | tryFlush now accept => rfl
  | sendCtrlPkt now qid prio sentPkts accept =>
    simp only [step, sendCtrlPkt, CtrlBatch.beforeFlush, Op.accept]
    cases { s with currentNs := now }.addCtrlPkt qid prio sentPkts <;> rfl

theorem step_eq_ok {op : Op} (h : s.step op = .ok t) :
    ∃ u, s.beforeFlush op = .ok u ∧ t = u.tryFlushCtrlBatch op.accept := by
  rw [step_eq] at h
  cases hb : s.beforeFlush op with
  | error e => simp [hb, Except.map] at h
  | ok u => exact ⟨u, rfl, by simpa [hb, Except.map] using h.symm⟩

/-- A call keeps the invariant if it makes no full flush of a part of the batch. -/
theorem Inv.step {op : Op} (h : s.Inv) (hkeep : s.keepsOwnership op = true)
    (hs : s.step op = .ok t) : t.Inv := by
  obtain ⟨u, hb, rfl⟩ := step_eq_ok hs
  simp only [keepsOwnership, hb, Bool.not_eq_true'] at hkeep
  exact (h.beforeFlush hb).tryFlush hkeep

theorem Inv.reachable (hs : Run.ReachIf CtrlBatch.step keepsOwnership CtrlBatch.init s) : s.Inv :=
  hs.invariant Inv.init fun _ _ _ h hkeep hstep => h.step hkeep hstep

/-- **Ownership of the control batch.**  It holds in every run without a flush that takes the
whole of a part of the batch; and from any state of such a run, the next call keeps it exactly
if it makes no such flush. -/
theorem ctrlBatch_owned (hs : Run.ReachIf CtrlBatch.step keepsOwnership CtrlBatch.init s) :
    s.Owned ∧ ∀ op t, s.step op = .ok t → (t.Owned ↔ s.keepsOwnership op = true) := by
  have h := Inv.reachable hs
  refine ⟨h.owned, fun op t hstep => ⟨fun howned => ?_, fun hkeep => (h.step hkeep hstep).owned⟩⟩
  obtain ⟨u, hb, rfl⟩ := step_eq_ok hstep
  simp only [keepsOwnership, hb, Bool.not_eq_true']
  by_contra hfull
  exact not_owned_of_fullFlush (h.beforeFlush hb) (by simpa using hfull) howned

/-- Two messages, of which the port takes one at the flush, and then the next call. -/
theorem ctrlBatch_owned_after_partial_flush :
    ∃ s, Run.ReachIf CtrlBatch.step keepsOwnership CtrlBatch.init s ∧ s.handed = [0] ∧
      s.ctrlBatchUsed = 1 ∧ s.Owned := by
  have hrun : ((Run.exec CtrlBatch.step keepsOwnership CtrlBatch.init
      [.sendCtrlPkt 0 1 0 32 0, .sendCtrlPkt 0 2 0 32 0, .tryFlush 2000 1]).map fun s =>
        decide (s.handed = [0] ∧ s.ctrlBatchUsed = 1)) = some true := by
    decide +kernel
  obtain ⟨s, hreach, hdec⟩ := Run.exists_reachIf _ hrun
  obtain ⟨hhanded, hused⟩ := of_decide_eq_true hdec
  exact ⟨s, hreach, hhanded, hused, (ctrlBatch_owned hreach).1⟩

/-- One message and a flush in which the port takes it: the packet 0 was handed over and is still
the first of the batch, and the packet 1023 is lost. -/
theorem ctrlBatch_not_owned :
    ∃ s, Run.ReachIf CtrlBatch.step (fun _ _ => true) CtrlBatch.init s ∧
      (0 ∈ s.ctrlBatch ∧ 0 ∈ s.handed) ∧
      (1023 < s.nextPkt ∧ 1023 ∉ s.ctrlBatch ∧ 1023 ∉ s.handed) ∧ ¬ s.Owned := by
  have hrun : ((Run.exec CtrlBatch.step (fun _ _ => true) CtrlBatch.init
      [.sendCtrlPkt 0 1 0 32 0, .tryFlush 2000 1]).map fun s =>
        decide ((0 ∈ s.ctrlBatch ∧ 0 ∈ s.handed) ∧
          (1023 < s.nextPkt ∧ 1023 ∉ s.ctrlBatch ∧ 1023 ∉ s.handed))) = some true := by
    decide +kernel
  obtain ⟨s, hreach, hdec⟩ := Run.exists_reachIf _ hrun
  obtain ⟨hzero, hlost⟩ := of_decide_eq_true hdec
  exact ⟨s, hreach, hzero, hlost, fun h => h.notHanded 0 hzero.1 hzero.2⟩

end CtrlBatch

end Backdraft

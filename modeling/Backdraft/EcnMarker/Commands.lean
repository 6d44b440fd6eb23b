import Backdraft.Core
import Backdraft.EcnMarker.Marking
import Backdraft.Lib.Binary64

/-!
# The commands and the task of the marker

The rest of `ecn_marker.cc`: `Init`, `RunTask`, and the commands that change the size of the ring,
which move the packets to a new ring one by one.

* `MarkerModule`: the marker with its settings;
* `Migration.next`, `Migration.loop`: the loop of `Resize`, and `Migration.loop_spec`: it ends, with
  the oldest packets in the new ring and the others freed;
* `resize`, `setSize`, `setRuntimeConfig`, `setBurst`, `init`, `runTask`;
* `setSize_eq_ok`: what an accepted size does.

The prefetching of packets and the log are left out.  `allocs` says whether there is memory for a
new ring.
-/

namespace Backdraft

open Word

/-- `ECNMarkerArg`. -/
structure ECNMarkerArg where
  size : ℕ
  prefetch : Bool
  backpressure : Bool
  highWater : ℕ

/-- An `ECNMarker` with what `ProcessBatch` does not use. -/
structure MarkerModule (α : Type) extends ECNMarker α where
  size : ℕ
  lowWater : ℕ
  burst : ℕ
  prefetch : Bool
  backpressure : Bool

/-- The loop of `Resize`: the two rings, and the packets freed by the module. -/
structure Migration (α : Type) where
  old : Llring α
  new : Llring α
  freed : List α

/-- `struct task_result`. -/
structure MarkerModule.TaskResult where
  block : Bool
  packets : ℕ
  bits : ℕ
  deriving DecidableEq

/-- What `RunTask` does: the batch it hands on, its result, and whether it calls
`SignalUnderload`. -/
structure MarkerModule.TaskRun (α : Type) where
  marker : MarkerModule α
  batch : List α
  result : MarkerModule.TaskResult
  signalUnderload : Bool

/-- `DEFAULT_QUEUE_SIZE`. -/
def MarkerModule.defaultQueueSize : ℕ := 1024

/-- `kHighWaterRatio`. -/
def MarkerModule.kHighWaterRatio : ℚ := Binary64.round (9 / 10)

/-- `kLowWaterRatio`. -/
def MarkerModule.kLowWaterRatio : ℚ := Binary64.round (3 / 20)

variable {α : Type} [Inhabited α]

namespace Migration

/-- One pass; `none` when there is no packet in the old ring. -/
def next (m : Migration α) : Option (Migration α) :=
  let (old, objs, ret) := m.old.scDequeue
  if ret ≠ 0 then none
  else
    let pkt := objs.headD default
    let (new, ret) := m.new.spEnqueue pkt
    some ⟨old, new, if ret = Llring.errNobuf then m.freed ++ [pkt] else m.freed⟩

/-- The loop, for at most `fuel` passes. -/
def loop : ℕ → Migration α → Migration α
  | 0, m => m
  | fuel + 1, m =>
    match m.next with
    | none => m
    | some m' => loop fuel m'

end Migration

namespace MarkerModule

/-- The ring that `Resize` makes. -/
def newQueue (slots : ℕ) (allocs : Bool) : Except ℤ (Llring α) :=
  if !allocs then .error (-enomem)
  else
    match Llring.init slots with
    | none => .error (-einval)
    | some queue => .ok queue

/-- `AdjustWaterLevels`. -/
def adjustWaterLevels (s : MarkerModule α) : MarkerModule α :=
  { s with
    highWater := Binary64.toNat (Binary64.mul (Binary64.ofNat s.size) kHighWaterRatio)
    lowWater := Binary64.toNat (Binary64.mul (Binary64.ofNat s.size) kLowWaterRatio) }

/-- `Resize` of a module that has a ring. -/
def resize (s : MarkerModule α) (slots : ℕ) (allocs : Bool) : Except ℤ (MarkerModule α) :=
  match newQueue slots allocs with
  | .error e => .error e
  | .ok queue =>
    let m := Migration.loop (s.queue.count + 1) ⟨s.queue, queue, s.freed⟩
    let s := { s with queue := m.new, freed := m.freed, size := slots }
    .ok (if s.backpressure then s.adjustWaterLevels else s)

/-- The checks of `SetSize`. -/
def checkSize (size : ℕ) : Except CommandError Unit :=
  if size < 4 ∨ size > 16384 then .error ⟨einval, "must be in [4, 16384]"⟩
  else if size &&& (size - 1) ≠ 0 then .error ⟨einval, "must be a power of 2"⟩
  else .ok ()

/-- `SetSize`, which is also `CommandSetSize`. -/
def setSize (s : MarkerModule α) (size : ℕ) (allocs : Bool) :
    Except CommandError (MarkerModule α) :=
  match checkSize size with
  | .error e => .error e
  | .ok () =>
    match s.resize size allocs with
    | .error ret => .error (commandFailure (-ret))
    | .ok s => .ok s

/-- `SetRuntimeConfig`. -/
def setRuntimeConfig (s : MarkerModule α) (arg : ECNMarkerArg) (allocs : Bool) :
    Except CommandError (MarkerModule α) :=
  if s.size ≠ arg.size ∧ arg.size ≠ 0 then
    match s.setSize arg.size allocs with
    | .error e => .error e
    | .ok s => .ok { s with prefetch := arg.prefetch, backpressure := arg.backpressure }
  else .ok { s with prefetch := arg.prefetch, backpressure := arg.backpressure }

/-- `CommandSetBurst`. -/
def setBurst (s : MarkerModule α) (burst : ℕ) : Except CommandError (MarkerModule α) :=
  if burst > kMaxBurst then
    .error ⟨einval, "burst size must be [0," ++ toString kMaxBurst ++ "]"⟩
  else .ok { s with burst := burst }

/-- A new module with its ring; `max_queue_experienced` is not initialised. -/
def fresh (arg : ECNMarkerArg) (queue : Llring α) (size maxQueueExperienced : ℕ) :
    MarkerModule α where
  queue := queue
  highWater := arg.highWater
  stats := ⟨0, 0, 0⟩
  maxQueueExperienced := maxQueueExperienced
  freed := []
  size := size
  lowWater := 0
  burst := kMaxBurst
  prefetch := arg.prefetch
  backpressure := false

/-- The part of `Init` that makes the ring, with its size. -/
def initQueue (arg : ECNMarkerArg) (allocs : Bool) : Except CommandError (Llring α × ℕ) :=
  if arg.size ≠ 0 then
    match checkSize arg.size with
    | .error e => .error e
    | .ok () =>
      match newQueue arg.size allocs with
      | .error ret => .error (commandFailure (-ret))
      | .ok queue => .ok (queue, arg.size)
  else
    match newQueue defaultQueueSize allocs with
    | .error ret => .error (commandFailure (-ret))
    | .ok queue => .ok (queue, defaultQueueSize)

/-- `Init`. -/
def init (arg : ECNMarkerArg) (registersTask allocs : Bool) (maxQueueExperienced : ℕ) :
    Except CommandError (MarkerModule α) :=
  if !registersTask then .error ⟨enomem, "Task creation failed"⟩
  else
    match initQueue arg allocs with
    | .error e => .error e
    | .ok (queue, size) =>
      if arg.highWater ≠ 0 then .ok (fresh arg queue size maxQueueExperienced)
      else .error (commandFailure (-1))

/-- `RunTask`; `totalLen` gives the lengths of packets. -/
def runTask (s : MarkerModule α) (childrenOverload : ℤ) (totalLen : α → ℕ) : TaskRun α :=
  if childrenOverload > 0 then ⟨s, [], ⟨true, 0, 0⟩, false⟩
  else
    let (queue, pkts, cnt) := s.queue.scDequeueBurst s.burst
    if cnt = 0 then ⟨{ s with queue := queue }, [], ⟨true, 0, 0⟩, false⟩
    else
      let stats := { s.stats with dequeued := wadd 64 s.stats.dequeued cnt }
      let totalBytes := (pkts.map totalLen).sum
      { marker := { s with queue := queue, stats := stats }
        batch := pkts
        result := ⟨false, cnt, (totalBytes + cnt * 24) * 8 % 2 ^ 64⟩
        signalUnderload := s.backpressure && decide (queue.count < s.lowWater) }

end MarkerModule

/-! ### The loop of `Resize` -/

namespace Migration

variable {m : Migration α}

/-- The rings of a migration under way. -/
structure WF (m : Migration α) : Prop where
  old : m.old.WF
  new : m.new.WF
  watermark_eq : m.new.watermark = m.new.slots

/-- The room in the new ring. -/
def room (m : Migration α) : ℕ := m.new.mask - m.new.contents.length

theorem next_of_nil (hnil : m.old.contents = []) : m.next = none := by
  have hret := Llring.scDequeue_of_nil hnil
  simp only [next, hret]
  rfl

/-- One pass moves the oldest packet to the new ring, or frees it if that is full. -/
theorem WF.next_of_cons (h : m.WF) {x : α} {rest : List α} (hcons : m.old.contents = x :: rest) :
    ∃ m', m.next = some m' ∧ m'.WF ∧ m'.old.contents = rest ∧ m'.new.slots = m.new.slots ∧
      m'.new.contents = m.new.contents ++ [x].take m.room ∧
      m'.freed = m.freed ++ [x].drop m.room ∧ m'.room = m.room - 1 := by
  obtain ⟨hold, hrest, hobjs, hret⟩ := h.old.scDequeue_of_cons hcons
  have hmask := h.new.mask_eq
  have hle := h.new.length_le_mask
  simp only [next, hret, hobjs, List.headD_cons, ne_eq, not_true_eq_false, if_false]
  refine ⟨_, rfl, ?_⟩
  by_cases hlt : m.new.contents.length < m.new.mask
  · obtain ⟨hnew, hcont, hslots, hwater, hzero⟩ := h.new.spEnqueue_of_lt h.watermark_eq x hlt
    obtain ⟨k, hk⟩ : ∃ k, m.room = k + 1 := ⟨m.room - 1, by unfold room; omega⟩
    have hmask' := hnew.mask_eq
    rw [hslots] at hmask'
    refine ⟨⟨hold, hnew, hwater.trans hslots.symm⟩, hrest, hslots, ?_, ?_, ?_⟩
    · rw [hcont, hk, List.take_succ_cons, List.take_nil]
    · rw [hzero, hk, if_neg (by decide), List.drop_succ_cons, List.drop_nil, List.append_nil]
    · simp only [room, hmask', hcont, List.length_append, List.length_singleton, hmask]
      omega
  · have hzero : m.room = 0 := by unfold room; omega
    rw [h.new.spEnqueue_of_full x (by omega)]
    refine ⟨⟨hold, h.new, h.watermark_eq⟩, hrest, rfl, ?_, ?_, ?_⟩
    · rw [hzero, List.take_zero, List.append_nil]
    · rw [hzero, if_pos rfl, List.drop_zero]
    · exact hzero ▸ hzero

/-- **The loop ends**, when it has emptied the old ring: as many of the oldest packets as there is
room for are in the new ring, and the others are freed. -/
theorem WF.loop_spec (h : m.WF) (fuel : ℕ) (hfuel : m.old.contents.length ≤ fuel) :
    (loop fuel m).WF ∧ (loop fuel m).old.contents = [] ∧
      (loop fuel m).new.slots = m.new.slots ∧
      (loop fuel m).new.contents = m.new.contents ++ m.old.contents.take m.room ∧
      (loop fuel m).freed = m.freed ++ m.old.contents.drop m.room := by
  induction fuel generalizing m with
  | zero =>
    have hnil : m.old.contents = [] := List.eq_nil_of_length_eq_zero (by omega)
    exact ⟨h, hnil, rfl, by simp [loop, hnil], by simp [loop, hnil]⟩
  | succ fuel ih =>
    cases hcons : m.old.contents with
    | nil =>
      rw [loop, next_of_nil hcons]
      exact ⟨h, hcons, rfl, by simp, by simp⟩
    | cons x rest =>
      obtain ⟨m', hnext, hwf, hrest, hslots, hcont, hfreed, hroom⟩ := h.next_of_cons hcons
      rw [hcons, List.length_cons] at hfuel
      obtain ⟨hwf', hnil, hslots', hcont', hfreed'⟩ := ih hwf (by rw [hrest]; omega)
      rw [loop, hnext]
      refine ⟨hwf', hnil, hslots'.trans hslots, ?_, ?_⟩
      · rw [hcont', hcont, hrest, hroom, List.append_assoc]
        cases m.room <;> simp
      · rw [hfreed', hfreed, hrest, hroom, List.append_assoc]
        cases m.room <;> simp

end Migration

/-! ### The commands -/

namespace MarkerModule

variable {s s' : MarkerModule α} {size : ℕ} {allocs : Bool}

omit [Inhabited α] in
@[simp] theorem queue_adjustWaterLevels (s : MarkerModule α) :
    s.adjustWaterLevels.queue = s.queue := rfl

omit [Inhabited α] in
theorem powTwo_of_checkSize (h : checkSize size = .ok ()) :
    Llring.PowTwo size ∧ 4 ≤ size := by
  unfold checkSize at h
  split_ifs at h with hrange hpow
  obtain ⟨k, rfl⟩ := eq_two_pow_of_and_pred (by omega) (not_not.1 hpow)
  have hlt : 2 ^ k < 2 ^ 32 := by omega
  exact ⟨⟨k, (Nat.pow_lt_pow_iff_right (by omega)).1 hlt, rfl⟩, by omega⟩

theorem newQueue_eq_ok {queue : Llring α} (h : newQueue size allocs = .ok queue)
    (hsize : Llring.PowTwo size) :
    queue.WF ∧ queue.slots = size ∧ queue.watermark = size ∧ queue.contents = [] := by
  obtain ⟨r, hr, hwf, hslots, hcont⟩ := Llring.init_spec (α := α) hsize
  unfold newQueue at h
  rw [hr] at h
  split_ifs at h
  cases h
  refine ⟨hwf, hslots, ?_, hcont⟩
  rw [Llring.init, if_neg (not_not.2 hsize.and_pred_self.2)] at hr
  cases hr
  rfl

/-- What an accepted size does: the ring holds the oldest packets, and the others are freed. -/
structure Resized (s s' : MarkerModule α) (size : ℕ) : Prop where
  queue_wf : s'.queue.WF
  watermark_eq : s'.queue.watermark = s'.queue.slots
  slots_eq : s'.queue.slots = size
  contents_eq : s'.queue.contents = s.queue.contents.take (size - 1)
  freed_eq : s'.freed = s.freed ++ s.queue.contents.drop (size - 1)
  stats_eq : s'.stats = s.stats

theorem resize_eq_ok (hwf : s.queue.WF) (hsize : Llring.PowTwo size)
    (h : s.resize size allocs = .ok s') : Resized s s' size := by
  unfold resize at h
  split at h
  · cases h
  rename_i queue hqueue
  obtain ⟨hnew, hslots, hwater, hnil⟩ := newQueue_eq_ok hqueue hsize
  have hm : Migration.WF ⟨s.queue, queue, s.freed⟩ := ⟨hwf, hnew, hwater.trans hslots.symm⟩
  have hroom : Migration.room ⟨s.queue, queue, s.freed⟩ = size - 1 := by
    simp only [Migration.room, hnil, List.length_nil, hnew.mask_eq, hslots, Nat.sub_zero]
  obtain ⟨hwf', -, hslots', hcont, hfreed⟩ :=
    hm.loop_spec (s.queue.count + 1) (by rw [hwf.count_eq]; exact Nat.le_succ _)
  rw [hroom] at hcont hfreed
  simp only [hnil, List.nil_append] at hcont
  simp only at h
  split_ifs at h <;> cases h <;>
    exact ⟨hwf'.new, hwf'.watermark_eq, hslots'.trans hslots, hcont, hfreed, rfl⟩

theorem setSize_eq_ok (hwf : s.queue.WF) (h : s.setSize size allocs = .ok s') :
    4 ≤ size ∧ Resized s s' size := by
  unfold setSize at h
  split at h
  · cases h
  rename_i hcheck
  obtain ⟨hpow, hle⟩ := powTwo_of_checkSize hcheck
  split at h
  · cases h
  rename_i hresize
  cases h
  exact ⟨hle, resize_eq_ok hwf hpow hresize⟩

theorem initQueue_eq_ok {arg : ECNMarkerArg} {queue : Llring α}
    (h : initQueue arg allocs = .ok (queue, size)) :
    queue.WF ∧ queue.watermark = queue.slots ∧ queue.contents = [] := by
  unfold initQueue at h
  split_ifs at h
  · split at h
    · cases h
    rename_i hcheck
    split at h
    · cases h
    rename_i hnew
    cases h
    obtain ⟨hwf, hslots, hwater, hnil⟩ := newQueue_eq_ok hnew (powTwo_of_checkSize hcheck).1
    exact ⟨hwf, hwater.trans hslots.symm, hnil⟩
  · split at h
    · cases h
    rename_i hnew
    cases h
    obtain ⟨hwf, hslots, hwater, hnil⟩ := newQueue_eq_ok hnew ⟨10, by decide, rfl⟩
    exact ⟨hwf, hwater.trans hslots.symm, hnil⟩

/-- A module that `Init` has accepted has an empty ring and zero statistics. -/
theorem init_eq_ok {arg : ECNMarkerArg} {registersTask : Bool} {max₀ : ℕ}
    (h : init arg registersTask allocs max₀ = .ok s) :
    s.queue.WF ∧ s.queue.watermark = s.queue.slots ∧ s.queue.contents = [] ∧
      s.stats = ⟨0, 0, 0⟩ := by
  unfold init at h
  split at h
  · cases h
  split at h
  · cases h
  rename_i hqueue
  split at h
  · cases h
    obtain ⟨hwf, hwater, hnil⟩ := initQueue_eq_ok hqueue
    exact ⟨hwf, hwater, hnil, rfl⟩
  · cases h

end MarkerModule

end Backdraft

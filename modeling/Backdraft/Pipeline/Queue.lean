import Backdraft.EcnMarker.Commands

/-!
# The module `Queue`

`core/modules/queue.cc`: a task that hands on what other tasks have put into its ring.  With
backpressure it tells its parent tasks when the ring rises above the high water mark and when it has
fallen below the low one.

* `QueueModule`: the fields of the module;
* `init`, `setSize`, `setRuntimeConfig`, `setBurst`: how it is made, and its commands;
* `processBatch`, `runTask`: the two ends of the ring;
* `Sound`: what these keep;
* `Sound.processBatch_spec`, `Sound.runTask_spec`: what they do to the packets in the ring;
* `levels_of_size`: the water marks of a ring with at least 512 slots.

Marking, the prefetching of packets and the log are left out.  `allocs` says whether there is memory
for a new ring.
-/

namespace Backdraft

open Word

/-- `QueueArg`. -/
structure QueueArg where
  size : ℕ
  prefetch : Bool
  backpressure : Bool

/-- A `Queue`, with `overload_` and the packets it has freed. -/
structure QueueModule (α : Type) where
  queue : Llring α
  prefetch : Bool
  backpressure : Bool
  burst : ℕ
  size : ℕ
  highWater : ℕ
  lowWater : ℕ
  stats : MarkerStats
  overload : Bool
  freed : List α

/-- What `RunTask` does: the batch it hands on, its result, and whether it calls
`SignalUnderload`. -/
structure QueueModule.TaskRun (α : Type) where
  module : QueueModule α
  batch : List α
  result : MarkerModule.TaskResult
  signalUnderload : Bool

variable {α : Type} [Inhabited α]

namespace QueueModule

/-- `AdjustWaterLevels`. -/
def adjustWaterLevels (s : QueueModule α) : QueueModule α :=
  { s with
    highWater :=
      Binary64.toNat (Binary64.mul (Binary64.ofNat s.size) MarkerModule.kHighWaterRatio)
    lowWater :=
      Binary64.toNat (Binary64.mul (Binary64.ofNat s.size) MarkerModule.kLowWaterRatio) }

/-- `Resize` of a module that has a ring. -/
def resize (s : QueueModule α) (slots : ℕ) (allocs : Bool) : Except ℤ (QueueModule α) :=
  match MarkerModule.newQueue slots allocs with
  | .error e => .error e
  | .ok queue =>
    let m := Migration.loop (s.queue.count + 1) ⟨s.queue, queue, s.freed⟩
    let s := { s with queue := m.new, freed := m.freed, size := slots }
    .ok (if s.backpressure then s.adjustWaterLevels else s)

/-- `SetSize`, which is also `CommandSetSize`. -/
def setSize (s : QueueModule α) (size : ℕ) (allocs : Bool) :
    Except CommandError (QueueModule α) :=
  match MarkerModule.checkSize size with
  | .error e => .error e
  | .ok () =>
    match s.resize size allocs with
    | .error ret => .error (commandFailure (-ret))
    | .ok s => .ok s

/-- `SetRuntimeConfig`.  The water marks are not touched when the size stays. -/
def setRuntimeConfig (s : QueueModule α) (arg : QueueArg) (allocs : Bool) :
    Except CommandError (QueueModule α) :=
  if s.size ≠ arg.size ∧ arg.size ≠ 0 then
    match s.setSize arg.size allocs with
    | .error e => .error e
    | .ok s => .ok { s with prefetch := arg.prefetch, backpressure := arg.backpressure }
  else .ok { s with prefetch := arg.prefetch, backpressure := arg.backpressure }

/-- `CommandSetBurst`. -/
def setBurst (s : QueueModule α) (burst : ℕ) : Except CommandError (QueueModule α) :=
  if burst > kMaxBurst then
    .error ⟨einval, "burst size must be [0," ++ toString kMaxBurst ++ "]"⟩
  else .ok { s with burst := burst }

/-- A new module with its ring. -/
def fresh (arg : QueueArg) (queue : Llring α) (size : ℕ) : QueueModule α :=
  let s : QueueModule α :=
    { queue := queue
      prefetch := arg.prefetch
      backpressure := arg.backpressure
      burst := kMaxBurst
      size := size
      highWater := 0
      lowWater := 0
      stats := ⟨0, 0, 0⟩
      overload := false
      freed := [] }
  if s.backpressure then s.adjustWaterLevels else s

/-- `Init`. -/
def init (arg : QueueArg) (registersTask allocs : Bool) : Except CommandError (QueueModule α) :=
  if !registersTask then .error ⟨enomem, "Task creation failed"⟩
  else if arg.size ≠ 0 then
    match MarkerModule.checkSize arg.size with
    | .error e => .error e
    | .ok () =>
      match MarkerModule.newQueue arg.size allocs with
      | .error ret => .error (commandFailure (-ret))
      | .ok queue => .ok (fresh arg queue arg.size)
  else
    match MarkerModule.newQueue MarkerModule.defaultQueueSize allocs with
    | .error ret => .error (commandFailure (-ret))
    | .ok queue => .ok (fresh arg queue MarkerModule.defaultQueueSize)

/-- `ProcessBatch`, and whether it calls `SignalOverload`. -/
def processBatch (s : QueueModule α) (batch : List α) : QueueModule α × Bool :=
  let (queue, queued) := s.queue.mpEnqueueBurst batch
  ({ s with
      queue := queue
      stats :=
        { s.stats with
          enqueued := wadd 64 s.stats.enqueued queued
          dropped :=
            if queued < batch.length then wadd 64 s.stats.dropped (batch.length - queued)
            else s.stats.dropped }
      freed := s.freed ++ batch.drop queued },
    s.backpressure && decide (s.highWater < queue.count))

/-- `RunTask`; `totalLen` gives the lengths of packets. -/
def runTask (s : QueueModule α) (childrenOverload : ℤ) (totalLen : α → ℕ) : TaskRun α :=
  if childrenOverload > 0 then ⟨s, [], ⟨true, 0, 0⟩, false⟩
  else
    let (queue, pkts, cnt) := s.queue.scDequeueBurst s.burst
    if cnt = 0 then ⟨{ s with queue := queue }, [], ⟨true, 0, 0⟩, false⟩
    else
      let stats := { s.stats with dequeued := wadd 64 s.stats.dequeued cnt }
      let totalBytes := (pkts.map totalLen).sum
      { module := { s with queue := queue, stats := stats }
        batch := pkts
        result := ⟨false, cnt, (totalBytes + cnt * 24) * 8 % 2 ^ 64⟩
        signalUnderload := s.backpressure && decide (queue.count < s.lowWater) }

/-! ### What the two ends do -/

/-- The ring is in order, with the mark of `llring_init`, and the burst within a batch. -/
structure Sound (s : QueueModule α) : Prop where
  wf : s.queue.WF
  watermark_eq : s.queue.watermark = s.queue.slots
  burst_le : s.burst ≤ kMaxBurst

/-- A step that keeps the settings and drops nothing. -/
structure Keeps (s s' : QueueModule α) : Prop where
  sound : s'.Sound
  slots_eq : s'.queue.slots = s.queue.slots
  backpressure_eq : s'.backpressure = s.backpressure
  burst_eq : s'.burst = s.burst
  highWater_eq : s'.highWater = s.highWater
  lowWater_eq : s'.lowWater = s.lowWater
  overload_eq : s'.overload = s.overload
  dropped_eq : s'.stats.dropped = s.stats.dropped
  freed_eq : s'.freed = s.freed

variable {s : QueueModule α}

/-- A batch that fits into the ring is taken whole. -/
theorem Sound.processBatch_spec (h : s.Sound) {batch : List α}
    (hfit : s.queue.contents.length + batch.length < s.queue.slots) :
    Keeps s (s.processBatch batch).1 ∧
      (s.processBatch batch).1.queue.contents = s.queue.contents ++ batch ∧
      (s.processBatch batch).2 = (s.backpressure &&
        decide (s.highWater < s.queue.contents.length + batch.length)) := by
  obtain ⟨hwf, hcont, hslots, -⟩ := h.wf.mpEnqueueBurst_spec batch
  have hres := h.wf.mpEnqueueBurst_result h.watermark_eq batch
  have hmask := h.wf.mask_eq
  have hall : batch.length ≤ s.queue.mask - s.queue.contents.length := by omega
  rw [min_eq_left hall] at hres
  rw [List.take_of_length_le hall] at hcont
  have hcount := hwf.count_eq
  rw [hcont, List.length_append] at hcount
  refine ⟨⟨⟨hwf, ?_, h.burst_le⟩, hslots, rfl, rfl, rfl, rfl, rfl, ?_, ?_⟩, hcont, ?_⟩
  · simp only [processBatch, Llring.watermark_mpEnqueueBurst]
    exact h.watermark_eq.trans hslots.symm
  · simp [processBatch, hres]
  · simp [processBatch, hres]
  · simp only [processBatch, hcount]

/-- A task that is not stopped takes the oldest packets, at most a burst. -/
theorem Sound.runTask_spec (h : s.Sound) {childrenOverload : ℤ} (hfree : childrenOverload ≤ 0)
    (totalLen : α → ℕ) :
    Keeps s (s.runTask childrenOverload totalLen).module ∧
      (s.runTask childrenOverload totalLen).module.queue.contents =
        s.queue.contents.drop s.burst ∧
      (s.runTask childrenOverload totalLen).batch = s.queue.contents.take s.burst ∧
      (s.runTask childrenOverload totalLen).signalUnderload =
        (s.backpressure && decide (s.queue.contents.take s.burst ≠ []) &&
          decide (s.queue.contents.length - s.burst < s.lowWater)) := by
  obtain ⟨hwf, hcont, hslots, hobjs, hcnt⟩ := h.wf.scDequeueBurst_spec s.burst
  have hwater : (s.queue.scDequeueBurst s.burst).1.watermark =
      (s.queue.scDequeueBurst s.burst).1.slots := by
    rw [Llring.watermark_scDequeueBurst, h.watermark_eq, hslots]
  have hcount := hwf.count_eq
  rw [hcont, List.length_drop] at hcount
  have hzero : (s.queue.scDequeueBurst s.burst).2.2 = 0 ↔ s.queue.contents.take s.burst = [] := by
    rw [hcnt, ← List.length_eq_zero_iff, List.length_take]
  simp only [runTask, if_neg hfree.not_gt]
  split_ifs with hcnt'
  · have hnil := hzero.mp hcnt'
    exact ⟨⟨⟨hwf, hwater, h.burst_le⟩, hslots, rfl, rfl, rfl, rfl, rfl, rfl, rfl⟩, hcont,
      hnil.symm, by simp [hnil]⟩
  · have hne := mt hzero.mpr hcnt'
    exact ⟨⟨⟨hwf, hwater, h.burst_le⟩, hslots, rfl, rfl, rfl, rfl, rfl, rfl, rfl⟩, hcont, hobjs,
      by simp [hcount, hne]⟩

theorem runTask_of_stopped {childrenOverload : ℤ} (h : 0 < childrenOverload) (totalLen : α → ℕ) :
    s.runTask childrenOverload totalLen = ⟨s, [], ⟨true, 0, 0⟩, false⟩ :=
  if_pos h

/-! ### Commands and the overload flag -/

theorem module_runTask (s : QueueModule α) (childrenOverload : ℤ) (totalLen : α → ℕ) :
    (s.runTask childrenOverload totalLen).module =
      { s with
        queue := (s.runTask childrenOverload totalLen).module.queue
        stats := (s.runTask childrenOverload totalLen).module.stats } := by
  simp only [runTask]
  split_ifs <;> rfl

/-- `SignalUnderload` is called with backpressure and a low water mark above zero only. -/
theorem of_signalUnderload {childrenOverload : ℤ} {totalLen : α → ℕ}
    (h : (s.runTask childrenOverload totalLen).signalUnderload = true) :
    s.backpressure = true ∧ 0 < s.lowWater := by
  simp only [runTask] at h
  split_ifs at h
  simp only [Bool.and_eq_true, decide_eq_true_eq] at h
  exact ⟨h.1, (Nat.zero_le _).trans_lt h.2⟩

variable {s' : QueueModule α}

omit [Inhabited α] in
theorem overload_setBurst {burst : ℕ} (h : s.setBurst burst = .ok s') :
    s'.overload = s.overload := by
  unfold setBurst at h
  split_ifs at h
  cases h
  rfl

theorem overload_setSize {size : ℕ} {allocs : Bool} (h : s.setSize size allocs = .ok s') :
    s'.overload = s.overload := by
  unfold setSize at h
  split at h
  · cases h
  split at h
  · cases h
  rename_i hresize
  cases h
  unfold resize at hresize
  split at hresize
  · cases hresize
  simp only at hresize
  split_ifs at hresize <;> cases hresize <;> rfl

theorem overload_setRuntimeConfig {arg : QueueArg} {allocs : Bool}
    (h : s.setRuntimeConfig arg allocs = .ok s') : s'.overload = s.overload := by
  unfold setRuntimeConfig at h
  split_ifs at h
  · split at h
    · cases h
    rename_i hsize
    cases h
    have hsame := overload_setSize hsize
    exact hsame
  · cases h
    rfl

/-! ### A new module -/

omit [Inhabited α] in
/-- The water marks of a ring with at least 512 slots leave room for a batch. -/
theorem levels_of_size {size : ℕ} (h : Llring.PowTwo size) (hmin : 512 ≤ size)
    (hmax : size ≤ 16384) (s : QueueModule α) (hs : s.size = size) :
    s.adjustWaterLevels.highWater + kMaxBurst < size ∧
      0 < s.adjustWaterLevels.lowWater ∧
      s.adjustWaterLevels.lowWater ≤ s.adjustWaterLevels.highWater := by
  obtain ⟨k, hk, rfl⟩ := h
  have hlow : 9 ≤ k := (Nat.pow_le_pow_iff_right (a := 2) (by decide)).mp hmin
  have hhigh : k ≤ 14 := (Nat.pow_le_pow_iff_right (a := 2) (by decide)).mp hmax
  simp only [adjustWaterLevels, hs]
  interval_cases k <;> decide +kernel

omit [Inhabited α] in
theorem overload_fresh (arg : QueueArg) (queue : Llring α) (size : ℕ) :
    (fresh arg queue size).overload = false := by
  simp only [fresh]
  split_ifs <;> rfl

theorem overload_of_init {arg : QueueArg} {registersTask allocs : Bool}
    (h : init arg registersTask allocs = .ok s) : s.overload = false := by
  unfold init at h
  split_ifs at h
  · split at h
    · cases h
    split at h
    · cases h
    cases h
    exact overload_fresh arg _ _
  · split at h
    · cases h
    cases h
    exact overload_fresh arg _ _

/-- An empty module with backpressure and a ring whose marks leave room for a batch. -/
structure Ready (s : QueueModule α) : Prop where
  sound : s.Sound
  backpressure_eq : s.backpressure = true
  burst_pos : 0 < s.burst
  high_lt : s.highWater + kMaxBurst < s.queue.slots
  low_pos : 0 < s.lowWater
  low_le : s.lowWater ≤ s.highWater
  contents_eq : s.queue.contents = []
  overload_eq : s.overload = false
  dropped_eq : s.stats.dropped = 0
  freed_eq : s.freed = []

theorem ready_fresh {arg : QueueArg} {queue : Llring α} {size : ℕ} (hpow : Llring.PowTwo size)
    (hmin : 512 ≤ size) (hmax : size ≤ 16384) (hback : arg.backpressure = true)
    (hwf : queue.WF) (hslots : queue.slots = size) (hwater : queue.watermark = size)
    (hnil : queue.contents = []) : Ready (fresh arg queue size) := by
  simp only [fresh, hback, if_true]
  obtain ⟨hhigh, hlow, hle⟩ := levels_of_size hpow hmin hmax
    (⟨queue, arg.prefetch, true, kMaxBurst, size, 0, 0, ⟨0, 0, 0⟩, false, []⟩ :
      QueueModule α) rfl
  exact ⟨⟨hwf, hwater.trans hslots.symm, le_rfl⟩, rfl, (by decide : 0 < kMaxBurst),
    hslots.symm ▸ hhigh, hlow, hle, hnil, rfl, rfl, rfl⟩

/-- A module that `Init` has accepted with backpressure, and with the default size or one of at
least 512. -/
theorem ready_of_init {arg : QueueArg} {registersTask allocs : Bool}
    (h : init arg registersTask allocs = .ok s) (hback : arg.backpressure = true)
    (hsize : arg.size = 0 ∨ 512 ≤ arg.size) : Ready s := by
  unfold init at h
  split_ifs at h with _ hzero
  · split at h
    · cases h
    rename_i hcheck
    split at h
    · cases h
    rename_i hnew
    cases h
    obtain ⟨hpow, -⟩ := MarkerModule.powTwo_of_checkSize hcheck
    obtain ⟨hwf, hslots, hwater, hnil⟩ := MarkerModule.newQueue_eq_ok hnew hpow
    have hmax : arg.size ≤ 16384 := by
      unfold MarkerModule.checkSize at hcheck
      split_ifs at hcheck
      omega
    exact ready_fresh hpow (by omega) hmax hback hwf hslots hwater hnil
  · split at h
    · cases h
    rename_i hnew
    cases h
    have hpow : Llring.PowTwo MarkerModule.defaultQueueSize := ⟨10, by decide, rfl⟩
    obtain ⟨hwf, hslots, hwater, hnil⟩ := MarkerModule.newQueue_eq_ok hnew hpow
    exact ready_fresh hpow (by decide) (by decide) hback hwf hslots hwater hnil

end QueueModule

end Backdraft

import Backdraft.Lib.Binary64
import Backdraft.OverlayCtrl.Book
import Backdraft.QueueOut.Moves

/-!
# Sending overlay messages

`SendOverlay` of `bkdrft_queue_out.cc`, and its call in `ProcessBatchWithBuffer`.  When the buffer
of a flow is long, the sender of the flow is asked to pause until the buffer is expected to be at
the low-water mark, and no other message is sent for that time.

* `lowWaterTime`, `sendOverlay`, `processBatchWithOverlay`: the functions;
* `processBatchWithOverlay_eq`: with the message left out, this is `processBatchWithBuffer`;
* `overlay_consumed_once_iff`: when the packet of a message is accepted or freed, and not more;
* `overlay_retried_iff`: when a message that no port accepted is sent again.

`SendOverlay` frees the packet after every failure, and `SendOverlayMessage` has freed it before if
the port refused it.  The hold-off is set whether or not the message went out; without a packet
`SendOverlay` does not set the variable from which it is taken.
-/

namespace Backdraft

open Bess Word FlowTable OverlayCtrl

/-- `max_overlay_pause_duration`. -/
def maxOverlayPauseDuration : ℕ := 5000000

namespace QueueOut

/-- What `SendOverlay` gets from outside: the packet that `Alloc` returns, the rate that the port
has measured for the queue, and whether the port of the flow takes the packet. -/
structure OverlayEnv where
  alloc : Option Mbuf
  rate : ℕ
  takes : Bool

/-- What `SendOverlay` did: its result, how often the packet was freed, the port that took it, and
what was stored in `*duration`. -/
structure OverlaySent where
  ret : ℤ
  frees : ℕ
  accepted : Option (ℕ × Mbuf)
  duration : Option ℕ

/-- The time, in `double` arithmetic, in which the packets above the low-water mark are sent. -/
def drainTime (excess rate : ℕ) : ℕ :=
  Binary64.toNat
    (Binary64.div (Binary64.mul (Binary64.ofNat excess) 1000000000) (Binary64.ofNat rate))

theorem drainTime_eq_zero_iff {excess rate : ℕ} (hrate : 0 < rate) :
    drainTime excess rate = 0 ↔
      Binary64.mul (Binary64.ofNat excess) 1000000000 < Binary64.ofNat rate := by
  have hexcess : Binary64.ofNat excess = 0 ∨ Binary64.Digits (Binary64.ofNat excess) := by
    rcases Nat.eq_zero_or_pos excess with rfl | hpos
    · exact .inl (by rw [Binary64.ofNat, Nat.cast_zero, Binary64.round_zero])
    · exact .inr (Binary64.digits_ofNat hpos)
  exact Binary64.toNat_div_eq_zero_iff
    (Binary64.eq_zero_or_digits_mul hexcess (by norm_num)) (Binary64.digits_ofNat hrate)

/-- `dt_lw` of a message that was triggered. -/
def lowWaterTime (bufferSize lowWater rate : ℕ) : ℕ :=
  if bufferSize < lowWater then 1000
  else if rate = 0 then 1000000
  else if maxOverlayPauseDuration < drainTime (bufferSize - lowWater) rate then
    maxOverlayPauseDuration
  else drainTime (bufferSize - lowWater) rate

/-- `SendOverlay`. -/
def sendOverlay (codec : OverlayCodec) (s : QueueOut) (c : OverlayCtrl) (flow : Flow) (i : ℕ)
    (state : OverlayState) (env : OverlayEnv) : OverlaySent :=
  match env.alloc with
  | none => ⟨-1, 0, none, none⟩
  | some pkt =>
    let dtLw :=
      match state with
      | .triggered => lowWaterTime (s.bufferOf i).pktbufferCount s.bufferLenLowWater env.rate
      | .safe => 0
    -- do not set rate to less than a batch
    let rate := if env.rate < 32 then 32 else env.rate
    let r := c.sendOverlayMessage codec flow pkt rate dtLw env.takes
    if r.ret = 0 then ⟨0, r.frees, r.accepted, some dtLw⟩
    else ⟨0, r.frees + 1, r.accepted, some dtLw⟩

/-- The condition under which `ProcessBatchWithBuffer` sends a message. -/
def OverlayDue (cfg : QueueOutConfig) (s : QueueOut) (now i : ℕ) : Prop :=
  cfg.overlay = true ∧ s.bufferLenHighWater ≤ (s.bufferOf i).pktbufferCount ∧
    (s.flowStatePool i).noOverlayDuration < wsub 64 now (s.flowStatePool i).tsLastOverlay

instance (cfg : QueueOutConfig) (s : QueueOut) (now i : ℕ) : Decidable (s.OverlayDue cfg now i) :=
  inferInstanceAs (Decidable (_ ∧ _ ∧ _))

/-- `ProcessBatchWithBuffer`, with what `SendOverlay` did if it was called; `uninit` is what the
local variable `duration` holds before. -/
def processBatchWithOverlay (codec : OverlayCodec) (cfg : QueueOutConfig) (s : QueueOut)
    (c : OverlayCtrl) (now : ℕ) (batch : List Packet) (env : OverlayEnv) (uninit : ℕ) :
    Except Fatal (QueueOut × Option OverlaySent) :=
  match s.toFlowTable.getFlowState cfg now (batch.headD default).flow with
  | .error e => .error (.table e)
  | .ok (t, i) =>
    let s := { s with toFlowTable := t }.bufferBatch i batch
    if s.OverlayDue cfg now i then
      let sent := s.sendOverlay codec c (batch.headD default).flow i .triggered env
      .ok ((s.overlay cfg now i (sent.duration.getD uninit)).backpressure cfg now i, some sent)
    else .ok (s.backpressure cfg now i, none)

variable {codec : OverlayCodec} {cfg : QueueOutConfig} {s : QueueOut} {c : OverlayCtrl}
  {now i : ℕ} {batch : List Packet} {env : OverlayEnv} {flow : Flow}

/-- The message aside, this is `processBatchWithBuffer` for some value of its argument. -/
theorem processBatchWithOverlay_eq (uninit : ℕ) :
    ∃ duration, (s.processBatchWithOverlay codec cfg c now batch env uninit).map Prod.fst =
      s.processBatchWithBuffer cfg now batch duration := by
  unfold processBatchWithOverlay processBatchWithBuffer
  cases hget : s.toFlowTable.getFlowState cfg now (batch.headD default).flow with
  | error e => exact ⟨0, rfl⟩
  | ok r =>
    obtain ⟨t, i⟩ := r
    by_cases hdue : OverlayDue cfg ({ s with toFlowTable := t }.bufferBatch i batch) now i
    · exact ⟨_, by simp only [if_pos hdue]; rfl⟩
    · refine ⟨0, ?_⟩
      have hover : QueueOut.overlay cfg ({ s with toFlowTable := t }.bufferBatch i batch) now i 0 =
          { s with toFlowTable := t }.bufferBatch i batch := if_neg hdue
      simp only [if_neg hdue, hover]
      rfl

/-! ### The packet -/

/-- The packet was accepted and not freed, or it was freed once. -/
def OverlaySent.ConsumedOnce (r : OverlaySent) : Prop :=
  r.accepted.isSome = true ∧ r.frees = 0 ∨ r.accepted = none ∧ r.frees = 1

/-- **The packet of an overlay message is accepted or freed once, exactly if the port takes it
whenever it is offered, that is, for a booked flow whose port is no vhost port.** -/
theorem overlay_consumed_once_iff {pkt : Mbuf} (halloc : env.alloc = some pkt)
    (state : OverlayState) :
    (s.sendOverlay codec c flow i state env).ConsumedOnce ↔
      ∀ entry, c.getOverlayEntry flow = some entry → (c.ports entry.port).ptype ≠ .vhost →
        env.takes = true := by
  unfold sendOverlay OverlaySent.ConsumedOnce sendOverlayMessage getOverlayEntry
  simp only [halloc]
  cases hlook : c.flowBook.lookup flow.toFlowTuple with
  | none => simp
  | some entry =>
    simp only [Option.some.injEq, forall_eq']
    by_cases hvhost : (c.ports entry.port).ptype = .vhost
    · simp [hvhost]
    · cases htakes : env.takes
      · simp [hvhost]
      · simp [hvhost]

/-- The state after `Init` with overlay messages, per-flow buffers and the given queue size. -/
def overlayConfig (maxBufferSize : ℕ) : QueueOutConfig :=
  ⟨maxBufferSize, [0], true, false, false, true, true⟩

/-- A packet from the pool. -/
def blankPkt : Mbuf := ⟨fun _ => 0, 0, 0, 0, 0, 0⟩

/-- The port takes the packet. -/
theorem overlay_consumed_once_taken :
    ∃ s, init (overlayConfig 4) = some s ∧
      (s.sendOverlay wireCodec oneBooked default 0 .triggered
        ⟨some blankPkt, 5, true⟩).ConsumedOnce := by
  obtain ⟨s, hs⟩ := Option.isSome_iff_exists.1
    (show (init (overlayConfig 4)).isSome = true by decide +kernel)
  exact ⟨s, hs, (overlay_consumed_once_iff rfl .triggered).2 fun _ _ _ => rfl⟩

/-- The port refuses the packet, and it is freed twice. -/
theorem overlay_freed_twice :
    ∃ s, init (overlayConfig 4) = some s ∧
      (s.sendOverlay wireCodec oneBooked default 0 .triggered ⟨some blankPkt, 5, false⟩).frees = 2 ∧
      ¬(s.sendOverlay wireCodec oneBooked default 0 .triggered
        ⟨some blankPkt, 5, false⟩).ConsumedOnce := by
  obtain ⟨s, hs⟩ := Option.isSome_iff_exists.1
    (show (init (overlayConfig 4)).isSome = true by decide +kernel)
  have hfrees : (s.sendOverlay wireCodec oneBooked default 0 .triggered
      ⟨some blankPkt, 5, false⟩).frees = 2 := rfl
  refine ⟨s, hs, hfrees, fun honce => ?_⟩
  rcases honce with ⟨-, hzero⟩ | ⟨-, hone⟩
  · exact absurd (hfrees.symm.trans hzero) (by decide)
  · exact absurd (hfrees.symm.trans hone) (by decide)

/-! ### The hold-off -/

/-- The time to the low-water mark is zero exactly if the excess, as a rate in packets per second,
is below the rate that was measured. -/
theorem lowWaterTime_eq_zero_iff {bufferSize lowWater rate : ℕ} :
    lowWaterTime bufferSize lowWater rate = 0 ↔
      lowWater ≤ bufferSize ∧ 0 < rate ∧
        Binary64.mul (Binary64.ofNat (bufferSize - lowWater)) 1000000000 <
          Binary64.ofNat rate := by
  unfold lowWaterTime
  split_ifs with hlow hrate hmax
  · simp [hlow]
  · simp [hrate]
  · -- the time is cut at a positive bound
    have hdrain : drainTime (bufferSize - lowWater) rate ≠ 0 := by
      intro hzero
      rw [hzero] at hmax
      exact absurd hmax (by decide)
    rw [Ne, drainTime_eq_zero_iff (Nat.pos_of_ne_zero hrate)] at hdrain
    simp [hdrain, maxOverlayPauseDuration]
  · rw [drainTime_eq_zero_iff (Nat.pos_of_ne_zero hrate)]
    simp [Nat.pos_of_ne_zero hrate, Nat.le_of_not_lt hlow]

/-- The value that `SendOverlay` stores for a message that was triggered. -/
theorem duration_sendOverlay :
    (s.sendOverlay codec c flow i .triggered env).duration =
      env.alloc.map fun _ =>
        lowWaterTime (s.bufferOf i).pktbufferCount s.bufferLenLowWater env.rate := by
  unfold sendOverlay
  cases env.alloc with
  | none => rfl
  | some pkt =>
    simp only
    split_ifs <;> rfl

theorem bufferLenHighWater_backpressure (cfg : QueueOutConfig) (s : QueueOut) (now i : ℕ) :
    (s.backpressure cfg now i).bufferLenHighWater = s.bufferLenHighWater :=
  backpressure_induction (P := fun u => u.bufferLenHighWater = s.bufferLenHighWater)
    (fun _ _ hu => hu) rfl cfg i

theorem bufferLenHighWater_overlay (cfg : QueueOutConfig) (s : QueueOut) (now i duration : ℕ) :
    (s.overlay cfg now i duration).bufferLenHighWater = s.bufferLenHighWater := by
  unfold QueueOut.overlay
  split_ifs <;> rfl

theorem bufferOf_of_sameStore {u : QueueOut} (h : SameStore s u) (j : ℕ) :
    u.bufferOf j = s.bufferOf j := by
  rw [bufferOf, bufferOf, h.buffers_eq, (h.block_eq j).1]

theorem bufferOf_overlay (cfg : QueueOutConfig) (s : QueueOut) (now i duration j : ℕ) :
    (s.overlay cfg now i duration).bufferOf j = s.bufferOf j :=
  bufferOf_of_sameStore (SameStore.overlay cfg s now i duration) j

theorem bufferOf_backpressure (cfg : QueueOutConfig) (s : QueueOut) (now i j : ℕ) :
    (s.backpressure cfg now i).bufferOf j = s.bufferOf j :=
  bufferOf_of_sameStore (SameStore.backpressure cfg s now i) j

/-- The fields of a block after a message was due. -/
theorem block_overlay (hdue : s.OverlayDue cfg now i) (duration : ℕ) :
    let u := (s.overlay cfg now i duration).backpressure cfg now i
    (u.flowStatePool i).noOverlayDuration = duration ∧ (u.flowStatePool i).tsLastOverlay = now := by
  have hover : s.overlay cfg now i duration = { s with
      flowStatePool := Function.update s.flowStatePool i { s.flowStatePool i with
        tsLastOverlay := now
        overlayState := .triggered
        noOverlayDuration := duration } } := if_pos hdue
  have hblock := unpaused_backpressure cfg (s.overlay cfg now i duration) now i i
  simp only [FlowState.unpaused, FlowState.mk.injEq] at hblock
  rw [hover] at hblock ⊢
  simp only [Function.update_self] at hblock
  exact ⟨hblock.2.2.2.2.2.1, hblock.2.2.2.2.1⟩

/-- A batch of a flow that has the block `i`: a message is sent if the buffer is long enough when
the batch is in it, and the hold-off of the block is over. -/
theorem processBatchWithOverlay_of_lookup (codec : OverlayCodec) (cfg : QueueOutConfig)
    (c : OverlayCtrl) (now : ℕ) (env : OverlayEnv) (uninit : ℕ)
    (hlook : s.flowBufferMapping.lookup (batch.headD default).flow.toFlowTuple = some i) :
    ∃ r, s.processBatchWithOverlay codec cfg c now batch env uninit = .ok r ∧
      r.1.bufferLenHighWater = s.bufferLenHighWater ∧
      (r.2.isSome = true ↔ cfg.overlay = true ∧
        r.1.bufferLenHighWater ≤ (r.1.bufferOf i).pktbufferCount ∧
        (s.flowStatePool i).noOverlayDuration <
          wsub 64 now (s.flowStatePool i).tsLastOverlay) := by
  unfold processBatchWithOverlay
  simp only [getFlowState_of_lookup hlook]
  split_ifs with hdue
  · refine ⟨_, rfl,
      (bufferLenHighWater_backpressure ..).trans (bufferLenHighWater_overlay ..), ?_⟩
    obtain ⟨hover, hlong, hpast⟩ := hdue
    simp only [Option.isSome_some, true_iff]
    refine ⟨hover, ?_, hpast⟩
    rw [bufferOf_backpressure, bufferOf_overlay, bufferLenHighWater_backpressure,
      bufferLenHighWater_overlay]
    exact hlong
  · refine ⟨_, rfl, bufferLenHighWater_backpressure .., ?_⟩
    simp only [Option.isSome_none, Bool.false_eq_true, false_iff]
    rintro ⟨hover, hlong, hpast⟩
    rw [bufferOf_backpressure, bufferLenHighWater_backpressure] at hlong
    exact hdue ⟨hover, hlong, hpast⟩

/-- In the state `later` the flow still has the block `i`, with the overlay fields it has in `s`. -/
structure HoldsOff (s later : QueueOut) (flow : Flow) (i : ℕ) : Prop where
  found : later.flowBufferMapping.lookup flow.toFlowTuple = some i
  ts_eq : (later.flowStatePool i).tsLastOverlay = (s.flowStatePool i).tsLastOverlay
  duration_eq : (later.flowStatePool i).noOverlayDuration = (s.flowStatePool i).noOverlayDuration

/-- The next batch of the flow that finds its buffer at or above the high-water mark, at any time
after `now`, makes the module call `SendOverlay`. -/
def Retriggers (codec : OverlayCodec) (cfg : QueueOutConfig) (s : QueueOut) (flow : Flow)
    (i now : ℕ) : Prop :=
  ∀ (later : QueueOut) (now' : ℕ) (batch : List Packet) c env uninit r,
    HoldsOff s later flow i → now < now' → now' < 2 ^ 64 →
    (batch.headD default).flow.equalTo flow = true →
    later.processBatchWithOverlay codec cfg c now' batch env uninit = .ok r →
    r.1.bufferLenHighWater ≤ (r.1.bufferOf i).pktbufferCount → r.2.isSome = true

/-- A block that was written at the time `now` is ready for the next message at any later time
exactly if its hold-off is zero, or `now` is the last time there is. -/
theorem retriggers_iff (hover : cfg.overlay = true)
    (hts : (s.flowStatePool i).tsLastOverlay = now) :
    Retriggers codec cfg s flow i now ↔
      (now + 1 < 2 ^ 64 → (s.flowStatePool i).noOverlayDuration = 0) := by
  constructor
  · intro h hnow
    -- the next batch comes at once, finds the block, and the mark was set to zero in between
    let later : QueueOut := { s with
      bufferLenHighWater := 0
      flowBufferMapping := (∅ : HashTable FlowTuple ℕ).insert flow.toFlowTuple i }
    have hlook' : later.flowBufferMapping.lookup
        (([⟨0, flow⟩] : List Packet).headD default).flow.toFlowTuple = some i :=
      HashTable.accepts_empty.lookup_insert _ _
    obtain ⟨r, hr, hhigh, hiff⟩ := processBatchWithOverlay_of_lookup codec cfg
      (OverlayCtrl.init fun _ => newPort .nic) (now + 1) ⟨none, 0, false⟩ 0 hlook'
    have hlong : r.1.bufferLenHighWater ≤ (r.1.bufferOf i).pktbufferCount := by
      rw [hhigh]
      exact Nat.zero_le _
    have hsome := h later (now + 1) [⟨0, flow⟩] _ _ _ r ⟨hlook', rfl, rfl⟩ (Nat.lt_succ_self now)
      hnow (Flow.equalTo_iff.2 rfl) hr hlong
    have hpast : (s.flowStatePool i).noOverlayDuration <
        wsub 64 (now + 1) (s.flowStatePool i).tsLastOverlay := (hiff.1 hsome).2.2
    rw [hts, wsub_of_le (Nat.le_succ now) hnow] at hpast
    omega
  · intro hzero later now' batch c env uninit r hheld hlt hnow' hflow hr hlong
    have hlook' : later.flowBufferMapping.lookup (batch.headD default).flow.toFlowTuple =
        some i := by
      rw [Flow.equalTo_iff.1 hflow]
      exact hheld.found
    obtain ⟨r', hr', -, hiff⟩ :=
      processBatchWithOverlay_of_lookup codec cfg c now' env uninit hlook'
    obtain rfl : r' = r := Except.ok.inj (hr'.symm.trans hr)
    refine hiff.2 ⟨hover, hlong, ?_⟩
    rw [hheld.duration_eq, hheld.ts_eq, hts, hzero (by omega), wsub_of_le hlt.le hnow']
    omega

section Triggered

variable {t : FlowTable}
  (hget : s.toFlowTable.getFlowState cfg now (batch.headD default).flow = .ok (t, i))
include hget

/-- A call that sends a message. -/
theorem processBatchWithOverlay_of_due (uninit : ℕ)
    (hdue : OverlayDue cfg ({ s with toFlowTable := t }.bufferBatch i batch) now i) :
    s.processBatchWithOverlay codec cfg c now batch env uninit =
      let stored := { s with toFlowTable := t }.bufferBatch i batch
      let sent := stored.sendOverlay codec c (batch.headD default).flow i .triggered env
      .ok ((stored.overlay cfg now i (sent.duration.getD uninit)).backpressure cfg now i,
        some sent) := by
  unfold processBatchWithOverlay
  simp only [hget, if_pos hdue]

/-- What a call that sends a message leaves in the block: the hold-off that `SendOverlay` computed,
or what the local variable held. -/
theorem block_of_triggered {s' : QueueOut} {sent : OverlaySent} {uninit : ℕ}
    (hcall : s.processBatchWithOverlay codec cfg c now batch env uninit = .ok (s', some sent)) :
    cfg.overlay = true ∧
    (s'.flowStatePool i).noOverlayDuration = (env.alloc.map fun _ => lowWaterTime
      (({ s with toFlowTable := t }.bufferBatch i batch).bufferOf i).pktbufferCount
      s.bufferLenLowWater env.rate).getD uninit ∧
    (s'.flowStatePool i).tsLastOverlay = now := by
  have hdue : OverlayDue cfg ({ s with toFlowTable := t }.bufferBatch i batch) now i := by
    by_contra hnot
    simp only [processBatchWithOverlay, hget, if_neg hnot, Except.ok.injEq, Prod.mk.injEq,
      reduceCtorEq, and_false] at hcall
  simp only [processBatchWithOverlay_of_due hget uninit hdue, duration_sendOverlay,
    Except.ok.injEq, Prod.mk.injEq] at hcall
  obtain ⟨rfl, -⟩ := hcall
  exact ⟨hdue.1, block_overlay hdue _⟩

/-- **A message that was triggered does not silence the flow exactly if its packet was allocated and
the time to the low-water mark comes out as zero.**  Then the hold-off has a defined value, and the
next batch that finds the buffer long triggers a message again, whatever became of the first one;
for a message that no port accepted nothing less will do. -/
theorem overlay_retried_iff {s' : ℕ → QueueOut} {sent : OverlaySent}
    (hrun : ∀ uninit, s.processBatchWithOverlay codec cfg c now batch env uninit =
      .ok (s' uninit, some sent)) :
    ((∀ u v, ((s' u).flowStatePool i).noOverlayDuration =
        ((s' v).flowStatePool i).noOverlayDuration) ∧
      ∀ uninit, Retriggers codec cfg (s' uninit) (batch.headD default).flow i now) ↔
    env.alloc.isSome = true ∧ (now + 1 < 2 ^ 64 →
      let bufferSize :=
        (({ s with toFlowTable := t }.bufferBatch i batch).bufferOf i).pktbufferCount
      s.bufferLenLowWater ≤ bufferSize ∧ 0 < env.rate ∧
        Binary64.mul (Binary64.ofNat (bufferSize - s.bufferLenLowWater)) 1000000000 <
          Binary64.ofNat env.rate) := by
  have hblock := fun uninit => block_of_triggered hget (hrun uninit)
  simp only [retriggers_iff (hblock 0).1 (hblock _).2.2, (hblock _).2.1]
  cases env.alloc with
  | none =>
    -- the variable was not set
    refine iff_of_false (fun h => ?_) (fun h => by simp at h)
    exact absurd (h.1 0 1) (by simp)
  | some pkt =>
    simp only [Option.map_some, Option.getD_some, forall_const, true_and, Option.isSome_some,
      lowWaterTime_eq_zero_iff]

end Triggered

/-- Three packets of one flow, which bring a buffer of four slots to its high-water mark. -/
def threePkts : List Packet := List.replicate 3 default

/-- With the low-water mark at the high-water mark there is nothing to wait for: the port refuses
the message, and the next batch triggers another one. -/
theorem overlay_retried_at_low_water :
    ∃ s t, (∃ s₀, init (overlayConfig 4) = some s₀ ∧
        step (overlayConfig 4) s₀ (.setOverlayThreshold 3 3) = .ok s) ∧
      s.toFlowTable.getFlowState (overlayConfig 4) 10 default = .ok (t, 0) ∧
      ∀ uninit, ∃ s' sent,
        s.processBatchWithOverlay wireCodec (overlayConfig 4) oneBooked 10 threePkts
          ⟨some blankPkt, 5, false⟩ uninit = .ok (s', some sent) ∧
        Retriggers wireCodec (overlayConfig 4) s' default 0 10 := by
  have hrun : ((init (overlayConfig 4)).bind fun s₀ =>
      (step (overlayConfig 4) s₀ (.setOverlayThreshold 3 3)).toOption.bind fun s =>
      (s.toFlowTable.getFlowState (overlayConfig 4) 10 default).toOption.map fun r =>
      let stored := { s with toFlowTable := r.1 }.bufferBatch 0 threePkts
      decide (r.2 = 0 ∧ s.bufferLenLowWater = 3 ∧ (stored.bufferOf 0).pktbufferCount = 3 ∧
        OverlayDue (overlayConfig 4) stored 10 0)) = some true := by
    decide +kernel
  obtain ⟨s₀, hs₀, hrun⟩ := Option.bind_eq_some_iff.1 hrun
  obtain ⟨s, hset, hrun⟩ := Option.bind_eq_some_iff.1 hrun
  obtain ⟨⟨t, i⟩, hget, hdec⟩ := Option.map_eq_some_iff.1 hrun
  rw [Run.toOption_eq_some] at hset hget
  obtain ⟨rfl, hlow, hcount, hdue⟩ := of_decide_eq_true hdec
  refine ⟨s, t, ⟨s₀, hs₀, hset⟩, hget, fun uninit => ?_⟩
  have hcall : ∀ uninit, s.processBatchWithOverlay wireCodec (overlayConfig 4) oneBooked 10
      threePkts ⟨some blankPkt, 5, false⟩ uninit = _ :=
    fun uninit => processBatchWithOverlay_of_due hget uninit hdue
  refine ⟨_, _, hcall uninit, ((overlay_retried_iff hget hcall).2 ⟨rfl, fun _ => ?_⟩).2 uninit⟩
  simp only
  rw [hcount, hlow]
  refine ⟨le_rfl, by decide, ?_⟩
  have hzero : Binary64.mul (Binary64.ofNat (3 - 3)) 1000000000 = 0 := by
    simp [Binary64.mul, Binary64.ofNat]
  rw [hzero]
  exact (Binary64.digits_ofNat (by decide)).pos

/-- Without a rate the flow is silent for a millisecond: the port refuses the message, and the next
batch, which finds the buffer as long, triggers none.  And if no packet can be allocated, the
hold-off is what the local variable held. -/
theorem overlay_not_retried :
    ∃ s s₁ sent s₂, init (overlayConfig 4) = some s ∧
      s.processBatchWithOverlay wireCodec (overlayConfig 4) oneBooked 10 threePkts
        ⟨some blankPkt, 0, false⟩ 0 = .ok (s₁, some sent) ∧
      sent.accepted = none ∧
      s₁.processBatchWithOverlay wireCodec (overlayConfig 4) oneBooked 20 threePkts
        ⟨some blankPkt, 0, true⟩ 0 = .ok (s₂, none) ∧
      s₂.bufferLenHighWater ≤ (s₂.bufferOf 0).pktbufferCount ∧
      ¬Retriggers wireCodec (overlayConfig 4) s₁ default 0 10 ∧
      ∀ uninit, ∃ s' sent',
        s.processBatchWithOverlay wireCodec (overlayConfig 4) oneBooked 10 threePkts
          ⟨none, 0, false⟩ uninit = .ok (s', some sent') ∧
        (s'.flowStatePool 0).noOverlayDuration = uninit := by
  have hrun : ((init (overlayConfig 4)).bind fun s =>
      (s.toFlowTable.getFlowState (overlayConfig 4) 10 default).toOption.bind fun r =>
      (s.processBatchWithOverlay wireCodec (overlayConfig 4) oneBooked 10 threePkts
        ⟨some blankPkt, 0, false⟩ 0).toOption.bind fun r₁ =>
      r₁.2.bind fun sent =>
      (r₁.1.processBatchWithOverlay wireCodec (overlayConfig 4) oneBooked 20 threePkts
        ⟨some blankPkt, 0, true⟩ 0).toOption.map fun r₂ =>
      decide (r.2 = 0 ∧
        OverlayDue (overlayConfig 4) ({ s with toFlowTable := r.1 }.bufferBatch 0 threePkts) 10 0 ∧
        sent.accepted.isNone = true ∧
        r₁.1.flowBufferMapping.lookup (default : Flow).toFlowTuple = some 0 ∧
        r₂.2.isNone = true ∧
        r₂.1.bufferLenHighWater ≤ (r₂.1.bufferOf 0).pktbufferCount)) = some true := by
    decide +kernel
  obtain ⟨s, hs, hrun⟩ := Option.bind_eq_some_iff.1 hrun
  obtain ⟨⟨t, i⟩, hget, hrun⟩ := Option.bind_eq_some_iff.1 hrun
  obtain ⟨⟨s₁, out₁⟩, hfirst, hrun⟩ := Option.bind_eq_some_iff.1 hrun
  obtain ⟨sent, rfl, hrun⟩ := Option.bind_eq_some_iff.1 hrun
  obtain ⟨⟨s₂, out₂⟩, hsecond, hdec⟩ := Option.map_eq_some_iff.1 hrun
  rw [Run.toOption_eq_some] at hget hfirst hsecond
  obtain ⟨rfl, hdue, haccept, hlook, hquiet, hlong⟩ := of_decide_eq_true hdec
  obtain rfl := Option.isNone_iff_eq_none.1 hquiet
  refine ⟨s, s₁, sent, s₂, hs, hfirst, Option.isNone_iff_eq_none.1 haccept, hsecond, hlong, ?_, ?_⟩
  · intro hretry
    have hsome := hretry s₁ 20 threePkts oneBooked _ 0 _ ⟨hlook, rfl, rfl⟩ (by decide)
      (by decide) (by decide) hsecond hlong
    cases hsome
  · intro uninit
    exact ⟨_, _, processBatchWithOverlay_of_due hget uninit hdue, (block_overlay hdue _).1⟩

end QueueOut

end Backdraft

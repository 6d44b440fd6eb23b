import Backdraft.EcnMarker.Commands
import Backdraft.Lib.Run

/-!
# The statistics of the marker

Every packet handed to `ProcessBatch` is put into the ring or counted in `stats_.dropped`, and
`RunTask` counts those it takes out in `stats_.dequeued`.  `Resize` moves the packets to a new ring;
those for which there is no room it frees, and does not count.

* `MarkerCall`, `MarkerRun`, `MarkerRun.step`, `MarkerRun.run`: the calls, with a record of what was
  handed in and handed on;
* `Balanced`, `InOrder`: the statistics add up, and no packet overtakes another;
* `tally_step`: what one call does to the sum of the statistics;
* `balanced_iff_resizes_fit`: the sum is right along a run exactly if every new ring has room for
  the packets it is given.

`Balanced` is about the sum as the code would compute it, in 64 bits.
-/

namespace Backdraft

open Word

/-- The calls of a marker. -/
inductive MarkerCall (α : Type)
  | processBatch (headers : α → EcnHeader) (b : PacketBatch α)
  | runTask (childrenOverload : ℤ) (totalLen : α → ℕ)
  | setSize (size : ℕ) (allocs : Bool)
  | setRuntimeConfig (arg : ECNMarkerArg) (allocs : Bool)
  | setBurst (burst : ℕ)

/-- The packets that a call hands in. -/
def MarkerCall.packets {α : Type} : MarkerCall α → List α
  | processBatch _ b => b.packets
  | _ => []

/-- A marker, with the packets handed to `ProcessBatch` and those handed on by `RunTask`. -/
structure MarkerRun (α : Type) where
  module : MarkerModule α
  handed : List α
  left : List α

namespace MarkerRun

variable {α : Type} [Inhabited α] [DecidableEq α]

/-- A command; one that fails changes nothing. -/
def command (s : MarkerRun α) (r : Except CommandError (MarkerModule α)) : MarkerRun α :=
  match r with
  | .ok m => { s with module := m }
  | .error _ => s

def step (s : MarkerRun α) : MarkerCall α → MarkerRun α
  | .processBatch headers b =>
    { s with
      module :=
        { s.module with toECNMarker := (s.module.toECNMarker.processBatch headers b).marker }
      handed := s.handed ++ b.packets }
  | .runTask childrenOverload totalLen =>
    let r := s.module.runTask childrenOverload totalLen
    { s with module := r.marker, left := s.left ++ r.batch }
  | .setSize size allocs => s.command (s.module.setSize size allocs)
  | .setRuntimeConfig arg allocs => s.command (s.module.setRuntimeConfig arg allocs)
  | .setBurst burst => s.command (s.module.setBurst burst)

/-- The calls one after the other, on a new module. -/
def run (m : MarkerModule α) (calls : List (MarkerCall α)) : MarkerRun α :=
  calls.foldl step ⟨m, [], []⟩

/-- `stats_.dequeued + stats_.dropped + llring_count(queue_)` is the number of packets handed in. -/
def Balanced (s : MarkerRun α) : Prop :=
  wadd 64 (wadd 64 s.module.stats.dequeued s.module.stats.dropped) s.module.queue.count =
    s.handed.length % 2 ^ 64

/-- What was handed on, and then what is in the ring, came in this order. -/
def InOrder (s : MarkerRun α) : Prop := (s.left ++ s.module.queue.contents).Sublist s.handed

/-- The size of the new ring, if the call makes one. -/
def resizesTo (s : MarkerRun α) : MarkerCall α → Option ℕ
  | .setSize size allocs => if (s.module.setSize size allocs).isOk then some size else none
  | .setRuntimeConfig arg allocs =>
    if (s.module.size ≠ arg.size ∧ arg.size ≠ 0) ∧ (s.module.setSize arg.size allocs).isOk then
      some arg.size
    else none
  | _ => none

/-- A new ring has room for the packets of the old one: one slot of it stays empty. -/
def Fits (s : MarkerRun α) (c : MarkerCall α) : Prop :=
  ∀ slots ∈ s.resizesTo c, s.module.queue.count ≤ slots - 1

instance (s : MarkerRun α) : Decidable s.Balanced := inferInstanceAs (Decidable (_ = _))

instance (s : MarkerRun α) (c : MarkerCall α) : Decidable (s.Fits c) :=
  inferInstanceAs (Decidable (∀ slots ∈ s.resizesTo c, s.module.queue.count ≤ slots - 1))

/-- The packets for which a new ring has no room. -/
def lost (s : MarkerRun α) (c : MarkerCall α) : ℕ :=
  match s.resizesTo c with
  | none => 0
  | some slots => s.module.queue.count - (slots - 1)

/-- The sum of the statistics. -/
def tally (s : MarkerRun α) : ℕ :=
  s.module.stats.dequeued + s.module.stats.dropped + s.module.queue.count

/-- A run between two calls. -/
structure WF (s : MarkerRun α) : Prop where
  queue : s.module.queue.WF
  watermark_eq : s.module.queue.watermark = s.module.queue.slots
  order : s.InOrder

variable {s : MarkerRun α} {c : MarkerCall α}

omit [Inhabited α] [DecidableEq α] in
theorem balanced_iff : s.Balanced ↔ s.tally ≡ s.handed.length [MOD 2 ^ 64] := by
  unfold Balanced tally wadd Nat.ModEq
  rw [Nat.mod_add_mod]

omit [DecidableEq α] in
theorem lost_eq_zero_iff : s.lost c = 0 ↔ s.Fits c := by
  unfold lost Fits
  cases s.resizesTo c with
  | none => simp
  | some slots => simp [Nat.sub_eq_zero_iff_le]

/-! ### `ProcessBatch` -/

section ProcessBatch

variable {headers : α → EcnHeader} {b : PacketBatch α}

omit [Inhabited α] in
theorem stats_processBatch (m : ECNMarker α) (headers : α → EcnHeader) (b : PacketBatch α) :
    (m.processBatch headers b).marker.stats.dequeued = m.stats.dequeued ∧
      (m.processBatch headers b).marker.stats.dropped ≡
        m.stats.dropped + (b.cnt - (m.processBatch headers b).queued) [MOD 2 ^ 64] := by
  refine ⟨rfl, ?_⟩
  show (if (m.processBatch headers b).queued < b.cnt then
      wadd 64 m.stats.dropped (b.cnt - (m.processBatch headers b).queued)
    else m.stats.dropped) ≡ _ [MOD 2 ^ 64]
  split_ifs with hlt
  · exact wadd_modEq _ _
  · rw [Nat.sub_eq_zero_of_le (Nat.le_of_not_lt hlt), Nat.add_zero]

theorem WF.processBatch (h : s.WF) : (s.step (.processBatch headers b)).WF := by
  obtain ⟨hwf, hcont, hslots, -⟩ := h.queue.mpEnqueueBurst_spec b.packets
  refine ⟨hwf, ?_, ?_⟩
  · show (s.module.queue.mpEnqueueBurst b.packets).1.watermark = _
    rw [Llring.watermark_mpEnqueueBurst, h.watermark_eq]
    exact hslots.symm
  · show (s.left ++ (s.module.queue.mpEnqueueBurst b.packets).1.contents).Sublist
      (s.handed ++ b.packets)
    rw [hcont, ← List.append_assoc]
    exact h.order.append (List.take_sublist _ _)

theorem WF.tally_processBatch (h : s.WF) :
    (s.step (.processBatch headers b)).tally ≡ s.tally + b.cnt [MOD 2 ^ 64] := by
  obtain ⟨hqueued, hcount⟩ :=
    @ECNMarker.queued_processBatch _ _ _ headers b _ h.queue h.watermark_eq
  obtain ⟨hdeq, hdrop⟩ := stats_processBatch s.module.toECNMarker headers b
  set r := s.module.toECNMarker.processBatch headers b with hr
  show r.marker.stats.dequeued + r.marker.stats.dropped + r.marker.queue.count ≡ _ [MOD 2 ^ 64]
  have hle : r.queued ≤ b.cnt := hqueued ▸ min_le_left _ _
  have hsum := (hdrop.add_left s.module.stats.dequeued).add_right (s.module.queue.count + r.queued)
  rw [hdeq, hcount]
  have heq : s.module.stats.dequeued + (s.module.stats.dropped + (b.cnt - r.queued)) +
      (s.module.queue.count + r.queued) = s.tally + b.cnt := by
    unfold tally
    omega
  exact heq ▸ hsum

end ProcessBatch

/-! ### `RunTask` -/

section RunTask

variable {childrenOverload : ℤ} {totalLen : α → ℕ}

omit [DecidableEq α] in
/-- `RunTask` takes some of the oldest packets out of the ring, and counts them. -/
theorem runTask_spec (m : MarkerModule α) (childrenOverload : ℤ) (totalLen : α → ℕ)
    (hwf : m.queue.WF) :
    ∃ n ≤ m.queue.contents.length,
      (m.runTask childrenOverload totalLen).batch = m.queue.contents.take n ∧
      (m.runTask childrenOverload totalLen).marker.queue.WF ∧
      (m.runTask childrenOverload totalLen).marker.queue.contents = m.queue.contents.drop n ∧
      (m.runTask childrenOverload totalLen).marker.queue.slots = m.queue.slots ∧
      (m.runTask childrenOverload totalLen).marker.queue.watermark = m.queue.watermark ∧
      (m.runTask childrenOverload totalLen).marker.stats.dropped = m.stats.dropped ∧
      (m.runTask childrenOverload totalLen).marker.stats.dequeued ≡
        m.stats.dequeued + n [MOD 2 ^ 64] := by
  by_cases hover : childrenOverload > 0
  · have hblocked : m.runTask childrenOverload totalLen = ⟨m, [], ⟨true, 0, 0⟩, false⟩ :=
      if_pos hover
    rw [hblocked]
    exact ⟨0, Nat.zero_le _, rfl, hwf, rfl, rfl, rfl, rfl, rfl⟩
  obtain ⟨hwf', -, hslots, -, -⟩ := hwf.scDequeueBurst_spec m.burst
  obtain ⟨hle, hobjs, hcont⟩ := hwf.scDequeueBurst_taken m.burst
  have hwater := Llring.watermark_scDequeueBurst m.queue m.burst
  simp only [MarkerModule.runTask, if_neg hover]
  by_cases hzero : (m.queue.scDequeueBurst m.burst).2.2 = 0
  · rw [if_pos hzero]
    rw [hzero, List.drop_zero] at hcont
    exact ⟨0, Nat.zero_le _, rfl, hwf', hcont, hslots, hwater, rfl, rfl⟩
  · rw [if_neg hzero]
    exact ⟨_, hle, hobjs, hwf', hcont, hslots, hwater, rfl, wadd_modEq _ _⟩

theorem WF.runTask (h : s.WF) : (s.step (.runTask childrenOverload totalLen)).WF := by
  obtain ⟨n, -, hbatch, hwf, hcont, hslots, hwater, -, -⟩ :=
    runTask_spec s.module childrenOverload totalLen h.queue
  refine ⟨hwf, hwater.trans (h.watermark_eq.trans hslots.symm), ?_⟩
  show (s.left ++ (s.module.runTask childrenOverload totalLen).batch ++
    (s.module.runTask childrenOverload totalLen).marker.queue.contents).Sublist s.handed
  rw [hbatch, hcont, List.append_assoc, List.take_append_drop]
  exact h.order

theorem WF.tally_runTask (h : s.WF) :
    (s.step (.runTask childrenOverload totalLen)).tally ≡ s.tally [MOD 2 ^ 64] := by
  obtain ⟨n, hn, -, hwf, hcont, -, -, hdrop, hdeq⟩ :=
    runTask_spec s.module childrenOverload totalLen h.queue
  set r := s.module.runTask childrenOverload totalLen
  show r.marker.stats.dequeued + r.marker.stats.dropped + r.marker.queue.count ≡ _ [MOD 2 ^ 64]
  have hcount : r.marker.queue.count = s.module.queue.count - n := by
    rw [hwf.count_eq, hcont, List.length_drop, h.queue.count_eq]
  rw [← h.queue.count_eq] at hn
  have hsum := (hdeq.add_right s.module.stats.dropped).add_right (s.module.queue.count - n)
  have heq : s.module.stats.dequeued + n + s.module.stats.dropped + (s.module.queue.count - n) =
      s.tally := by
    unfold tally
    omega
  rw [hdrop, hcount]
  exact heq ▸ hsum

end RunTask

/-! ### The commands -/

section Commands

/-- What a command does: it leaves the ring and the statistics as they are, or makes a new ring. -/
inductive CommandCase (s : MarkerRun α) (c : MarkerCall α) : Prop
  | kept (hsize : s.resizesTo c = none) (hqueue : (s.step c).module.queue = s.module.queue)
      (hstats : (s.step c).module.stats = s.module.stats)
  | resized (size : ℕ) (hsize : s.resizesTo c = some size)
      (h : MarkerModule.Resized s.module (s.step c).module size)

theorem WF.setSize_cases (h : s.WF) (size : ℕ) (allocs : Bool) :
    CommandCase s (.setSize size allocs) := by
  cases hr : s.module.setSize size allocs with
  | error e =>
    have hstep : s.step (.setSize size allocs) = s := by rw [step, hr]; rfl
    refine .kept ?_ (by rw [hstep]) (by rw [hstep])
    rw [resizesTo, hr]
    rfl
  | ok m =>
    have hstep : (s.step (.setSize size allocs)).module = m := by rw [step, hr]; rfl
    refine .resized size ?_ (hstep ▸ (MarkerModule.setSize_eq_ok h.queue hr).2)
    rw [resizesTo, hr]
    rfl

theorem WF.setRuntimeConfig_cases (h : s.WF) (arg : ECNMarkerArg) (allocs : Bool) :
    CommandCase s (.setRuntimeConfig arg allocs) := by
  by_cases hnew : s.module.size ≠ arg.size ∧ arg.size ≠ 0
  · cases hr : s.module.setSize arg.size allocs with
    | error e =>
      have hstep : s.step (.setRuntimeConfig arg allocs) = s := by
        rw [step, MarkerModule.setRuntimeConfig, if_pos hnew, hr]
        rfl
      refine .kept ?_ (by rw [hstep]) (by rw [hstep])
      rw [resizesTo, hr]
      exact if_neg fun hok => Bool.false_ne_true hok.2
    | ok m =>
      have hstep : (s.step (.setRuntimeConfig arg allocs)).module =
          { m with prefetch := arg.prefetch, backpressure := arg.backpressure } := by
        rw [step, MarkerModule.setRuntimeConfig, if_pos hnew, hr]
        rfl
      obtain ⟨-, hm⟩ := MarkerModule.setSize_eq_ok h.queue hr
      refine .resized arg.size ?_ ?_
      · rw [resizesTo, hr]
        exact if_pos ⟨hnew, rfl⟩
      · rw [hstep]
        exact ⟨hm.queue_wf, hm.watermark_eq, hm.slots_eq, hm.contents_eq, hm.freed_eq, hm.stats_eq⟩
  · have hstep : (s.step (.setRuntimeConfig arg allocs)).module =
        { s.module with prefetch := arg.prefetch, backpressure := arg.backpressure } := by
      rw [step, MarkerModule.setRuntimeConfig, if_neg hnew]
      rfl
    exact .kept (if_neg fun hok => hnew hok.1) (by rw [hstep]) (by rw [hstep])

theorem setBurst_cases (s : MarkerRun α) (burst : ℕ) : CommandCase s (.setBurst burst) := by
  refine .kept rfl ?_ ?_ <;>
    · simp only [step, MarkerModule.setBurst]
      split_ifs <;> rfl

/-- A command keeps the order of the packets, and loses those for which a new ring has no room. -/
theorem CommandCase.spec (hc : CommandCase s c) (h : s.WF)
    (hleft : (s.step c).left = s.left) (hhanded : (s.step c).handed = s.handed) :
    (s.step c).WF ∧ (s.step c).tally + s.lost c = s.tally := by
  cases hc with
  | kept hsize hqueue hstats =>
    refine ⟨⟨hqueue ▸ h.queue, hqueue ▸ h.watermark_eq, ?_⟩, ?_⟩
    · rw [InOrder, hleft, hhanded, hqueue]
      exact h.order
    · rw [lost, hsize, tally, tally, hqueue, hstats, Nat.add_zero]
  | resized size hsize hr =>
    refine ⟨⟨hr.queue_wf, hr.watermark_eq, ?_⟩, ?_⟩
    · rw [InOrder, hleft, hhanded, hr.contents_eq]
      exact ((List.take_sublist _ _).append_left s.left).trans h.order
    · have hcount : (s.step c).module.queue.count = min (size - 1) s.module.queue.count := by
        rw [hr.queue_wf.count_eq, hr.contents_eq, List.length_take, h.queue.count_eq]
      rw [lost, hsize, tally, tally, hr.stats_eq, hcount]
      simp only
      omega

omit [Inhabited α] [DecidableEq α] in
theorem command_left (s : MarkerRun α) (r : Except CommandError (MarkerModule α)) :
    (s.command r).left = s.left ∧ (s.command r).handed = s.handed := by
  cases r <;> exact ⟨rfl, rfl⟩

end Commands

/-! ### Runs -/

theorem handed_step (s : MarkerRun α) (c : MarkerCall α) :
    (s.step c).handed = s.handed ++ c.packets := by
  cases c with
  | processBatch headers b => rfl
  | runTask childrenOverload totalLen => exact (List.append_nil _).symm
  | setSize size allocs => exact (command_left s _).2.trans (List.append_nil _).symm
  | setRuntimeConfig arg allocs => exact (command_left s _).2.trans (List.append_nil _).symm
  | setBurst burst => exact (command_left s _).2.trans (List.append_nil _).symm

/-- **One call.**  The sum of the statistics grows by the packets handed in, without those for which
a new ring has no room. -/
theorem WF.step (h : s.WF) (c : MarkerCall α) :
    (s.step c).WF ∧ (s.step c).tally + s.lost c ≡ s.tally + c.packets.length [MOD 2 ^ 64] := by
  cases c with
  | processBatch headers b =>
    refine ⟨h.processBatch, ?_⟩
    rw [MarkerCall.packets, ECNMarker.length_packets]
    exact h.tally_processBatch
  | runTask childrenOverload totalLen => exact ⟨h.runTask, h.tally_runTask⟩
  | setSize size allocs =>
    obtain ⟨hleft, hhanded⟩ := command_left s (s.module.setSize size allocs)
    obtain ⟨hwf, htally⟩ := (h.setSize_cases size allocs).spec h hleft hhanded
    exact ⟨hwf, htally ▸ rfl⟩
  | setRuntimeConfig arg allocs =>
    obtain ⟨hleft, hhanded⟩ := command_left s (s.module.setRuntimeConfig arg allocs)
    obtain ⟨hwf, htally⟩ := (h.setRuntimeConfig_cases arg allocs).spec h hleft hhanded
    exact ⟨hwf, htally ▸ rfl⟩
  | setBurst burst =>
    obtain ⟨hleft, hhanded⟩ := command_left s (s.module.setBurst burst)
    obtain ⟨hwf, htally⟩ := (setBurst_cases s burst).spec h hleft hhanded
    exact ⟨hwf, htally ▸ rfl⟩

omit [DecidableEq α] in
theorem WF.lost_lt (h : s.WF) (c : MarkerCall α) : s.lost c < 2 ^ 64 := by
  have hcount : s.module.queue.count < 2 ^ 31 := by
    have hle := h.queue.length_le_mask
    have hmask := h.queue.mask_lt
    rw [h.queue.count_eq]
    omega
  unfold lost
  split <;> omega

/-- The statistics stay right exactly if nothing is lost. -/
theorem WF.balanced_step_iff (h : s.WF) (hb : s.Balanced) (c : MarkerCall α) :
    (s.step c).Balanced ↔ s.Fits c := by
  have htally := (h.step c).2.trans ((balanced_iff.1 hb).add_right c.packets.length)
  rw [balanced_iff, handed_step, List.length_append, ← lost_eq_zero_iff]
  constructor
  · intro heq
    have hzero : s.lost c ≡ 0 [MOD 2 ^ 64] :=
      Nat.ModEq.add_left_cancel' (s.step c).tally (htally.trans heq.symm)
    exact Nat.ModEq.eq_of_lt_of_lt hzero (h.lost_lt c) (by positivity)
  · intro hzero
    rwa [hzero, Nat.add_zero] at htally

theorem run_concat (m : MarkerModule α) (calls : List (MarkerCall α)) (c : MarkerCall α) :
    run m (calls ++ [c]) = (run m calls).step c := by
  rw [run, List.foldl_append, List.foldl_cons, List.foldl_nil, run]

section Init

variable {arg : ECNMarkerArg} {registersTask allocs : Bool} {max₀ : ℕ} {m : MarkerModule α}
  (hinit : MarkerModule.init arg registersTask allocs max₀ = .ok m)
include hinit

theorem wf_run (calls : List (MarkerCall α)) : (run m calls).WF := by
  induction calls using List.reverseRecOn with
  | nil =>
    obtain ⟨hwf, hwater, hnil, -⟩ := MarkerModule.init_eq_ok hinit
    refine ⟨hwf, hwater, ?_⟩
    show ([] ++ m.queue.contents).Sublist []
    rw [hnil]
    exact List.Sublist.refl _
  | append_singleton calls c ih =>
    rw [run_concat]
    exact (ih.step c).1

theorem balanced_nil : (run m []).Balanced := by
  obtain ⟨hwf, -, hnil, hstats⟩ := MarkerModule.init_eq_ok hinit
  rw [balanced_iff]
  show m.stats.dequeued + m.stats.dropped + m.queue.count ≡ 0 [MOD 2 ^ 64]
  rw [hstats, hwf.count_eq, hnil]
  rfl

/-- **When the statistics of the marker add up.**  After every call of a run, on a module that
`Init` has accepted, the packets dequeued, dropped and in the ring are together those handed in, and
leave in their order, exactly if every new ring has room for the packets it is given. -/
theorem balanced_iff_resizes_fit (calls : List (MarkerCall α)) :
    (∀ done, done <+: calls → (run m done).Balanced ∧ (run m done).InOrder) ↔
      ∀ done c, done ++ [c] <+: calls → (run m done).Fits c := by
  refine Run.forall_prefix_iff ⟨balanced_nil hinit, (wf_run hinit []).order⟩ calls
    fun done c _ hdone => ?_
  rw [run_concat, ← (wf_run hinit done).balanced_step_iff hdone.1 c]
  exact ⟨And.left, fun hb => ⟨hb, ((wf_run hinit done).step c).1.order⟩⟩

end Init

/-- Three packets fit the new ring of four slots, which takes none of the next four; then the three
are handed on. -/
theorem balanced_small_ring :
    ∃ m : MarkerModule ℕ, MarkerModule.init ⟨8, false, false, 8⟩ true true 0 = .ok m ∧
      (run m [.processBatch ECNMarker.unmarked (ECNMarker.batchFrom 20 3), .setSize 4 true,
        .processBatch ECNMarker.unmarked (ECNMarker.batchFrom 30 4),
        .runTask 0 fun _ => 64]).Balanced := by
  let calls : List (MarkerCall ℕ) :=
    [.processBatch ECNMarker.unmarked (ECNMarker.batchFrom 20 3), .setSize 4 true,
      .processBatch ECNMarker.unmarked (ECNMarker.batchFrom 30 4), .runTask 0 fun _ => 64]
  have hrun : ((MarkerModule.init (α := ℕ) ⟨8, false, false, 8⟩ true true 0).toOption.map fun m =>
      decide (∀ k (hk : k < calls.length), (run m (calls.take k)).Fits calls[k])) = some true := by
    decide +kernel
  obtain ⟨m, hm, hfits⟩ := Option.map_eq_some_iff.1 hrun
  have hinit := Run.toOption_eq_some.1 hm
  have hall := (balanced_iff_resizes_fit hinit calls).2
    (Run.forall_prefix_of_getElem (of_decide_eq_true hfits))
  exact ⟨m, hinit, (hall calls (List.prefix_refl _)).1⟩

/-- **A smaller ring loses packets without counting them.**  Five packets are in the ring when it is
resized to four slots: two are freed, none is dequeued and none is counted as dropped. -/
theorem resize_loses_packets :
    ∃ m : MarkerModule ℕ, MarkerModule.init ⟨8, false, false, 8⟩ true true 0 = .ok m ∧
      let s := run m [.processBatch ECNMarker.unmarked (ECNMarker.batchFrom 20 5), .setSize 4 true]
      s.handed.length = 5 ∧ s.module.stats = ⟨5, 0, 0⟩ ∧ s.module.queue.count = 3 ∧
        s.module.freed = [23, 24] ∧ ¬ s.Balanced := by
  have hrun : ((MarkerModule.init (α := ℕ) ⟨8, false, false, 8⟩ true true 0).toOption.map fun m =>
      let s := run m [.processBatch ECNMarker.unmarked (ECNMarker.batchFrom 20 5), .setSize 4 true]
      decide (s.handed.length = 5 ∧ s.module.stats = ⟨5, 0, 0⟩ ∧ s.module.queue.count = 3 ∧
        s.module.freed = [23, 24] ∧ ¬ s.Balanced)) = some true := by
    decide +kernel
  obtain ⟨m, hm, hdec⟩ := Option.map_eq_some_iff.1 hrun
  exact ⟨m, Run.toOption_eq_some.1 hm, of_decide_eq_true hdec⟩

end MarkerRun

end Backdraft

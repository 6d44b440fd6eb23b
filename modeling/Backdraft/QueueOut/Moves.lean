import Backdraft.QueueOut.Blocks
import Backdraft.QueueOut.Shared

/-!
# What the calls do to the flow table

Every call of the module, with any setting of the buffers, changes the flow table by lookups and by
changes that leave the blocks to their flows and queues.

* `FlowState.core`: a block without what pauses and overlay messages change;
* `Touched`: the tables agree on the blocks up to that, and on all else but the buffers;
* `Moves`: a sequence of lookups at one time and of such changes;
* `call_moves`: each call is such a sequence;
* `reach_induction`: what lookups and such changes keep, runs keep.
-/

namespace Backdraft

open Word

/-- A block without what pauses change. -/
def FlowState.unpaused (b : FlowState) : FlowState := { b with isPaused := false }

/-- A block without what pauses and overlay messages change. -/
def FlowState.core (b : FlowState) : FlowState :=
  { b with overlayState := .safe, tsLastOverlay := 0, noOverlayDuration := 0, isPaused := false }

namespace FlowTable

/-- The tables differ in buffers, pauses and overlay fields only. -/
structure Touched (t t' : FlowTable) : Prop where
  mapping_eq : t'.flowBufferMapping = t.flowBufferMapping
  flow_eq : t'.flowStateFlowId = t.flowStateFlowId
  top_eq : t'.fspTop = t.fspTop
  prioQueue_eq : t'.prioQueue = t.prioQueue
  lastVisit_eq : t'.lastVisit = t.lastVisit
  core_eq : ∀ j, (t'.flowStatePool j).core = (t.flowStatePool j).core

/-- A lookup at the time `now`, or a change of buffers, pauses and overlay fields. -/
inductive Move (cfg : QueueOutConfig) (now : ℕ) : FlowTable → FlowTable → Prop
  | lookup {t t' : FlowTable} {flow : Flow} {i : ℕ} :
    t.getFlowState cfg now flow = .ok (t', i) → Move cfg now t t'
  | touch {t t' : FlowTable} : Touched t t' → Move cfg now t t'

/-- Lookups and such changes. -/
def Moves (cfg : QueueOutConfig) (now : ℕ) : FlowTable → FlowTable → Prop :=
  Relation.ReflTransGen (Move cfg now)

variable {cfg : QueueOutConfig} {now i : ℕ} {t t' u : FlowTable} {flow : Flow}

/-- A field that pauses and overlay messages leave. -/
theorem Touched.field_eq {α : Type} {field : FlowState → α} (h : Touched t t')
    (hfield : ∀ b : FlowState, field b.core = field b) (j : ℕ) :
    field (t'.flowStatePool j) = field (t.flowStatePool j) := by
  rw [← hfield (t'.flowStatePool j), h.core_eq j, hfield]

theorem Touched.qid_eq (h : Touched t t') (j : ℕ) :
    (t'.flowStatePool j).qid = (t.flowStatePool j).qid :=
  h.field_eq (fun _ => rfl) j

theorem Touched.inUse_eq (h : Touched t t') (j : ℕ) :
    (t'.flowStatePool j).inUse = (t.flowStatePool j).inUse :=
  h.field_eq (fun _ => rfl) j

theorem Touched.lastUsed_eq (h : Touched t t') (j : ℕ) :
    (t'.flowStatePool j).lastUsed = (t.flowStatePool j).lastUsed :=
  h.field_eq (fun _ => rfl) j

theorem Touched.flowId_eq (h : Touched t t') (j : ℕ) :
    (t'.flowStatePool j).flowId = (t.flowStatePool j).flowId :=
  h.field_eq (fun _ => rfl) j

theorem Touched.refl (t : FlowTable) : Touched t t :=
  ⟨rfl, rfl, rfl, rfl, rfl, fun _ => rfl⟩

theorem Touched.trans (h : Touched t t') (h' : Touched t' u) : Touched t u where
  mapping_eq := h'.mapping_eq.trans h.mapping_eq
  flow_eq := h'.flow_eq.trans h.flow_eq
  top_eq := h'.top_eq.trans h.top_eq
  prioQueue_eq := h'.prioQueue_eq.trans h.prioQueue_eq
  lastVisit_eq := h'.lastVisit_eq.trans h.lastVisit_eq
  core_eq j := (h'.core_eq j).trans (h.core_eq j)

theorem Owned.touched (h : t.Owned) (htouch : Touched t t') : t'.Owned where
  mapped := fun i hin => by
    rw [htouch.mapping_eq, htouch.flow_eq]
    rw [htouch.inUse_eq] at hin
    exact h.mapped i hin
  accepts := htouch.mapping_eq ▸ h.accepts

theorem touched_buffers (t : FlowTable) (b : ℕ → PktBuffer Packet) :
    Touched t { t with buffers := b } :=
  ⟨rfl, rfl, rfl, rfl, rfl, fun _ => rfl⟩

theorem touched_setBlock (t : FlowTable) {b : FlowState}
    (hb : b.core = (t.flowStatePool i).core) :
    Touched t { t with flowStatePool := Function.update t.flowStatePool i b } :=
  ⟨rfl, rfl, rfl, rfl, rfl, field_update FlowState.core hb⟩

theorem Moves.refl (t : FlowTable) : Moves cfg now t t :=
  Relation.ReflTransGen.refl

theorem Moves.trans (h : Moves cfg now t t') (h' : Moves cfg now t' u) : Moves cfg now t u :=
  Relation.ReflTransGen.trans h h'

theorem Touched.moves (h : Touched t t') : Moves cfg now t t' :=
  Relation.ReflTransGen.single (.touch h)

theorem moves_lookup (h : t.getFlowState cfg now flow = .ok (t', i)) : Moves cfg now t t' :=
  Relation.ReflTransGen.single (.lookup h)

/-- What a lookup and a change of buffers, pauses and overlay fields keep, a sequence keeps. -/
theorem Moves.invariant {P : FlowTable → Prop} (h : Moves cfg now t t')
    (hlookup : ∀ t t' flow i, P t → t.getFlowState cfg now flow = .ok (t', i) → P t')
    (htouch : ∀ t t', P t → Touched t t' → P t') (ht : P t) : P t' := by
  induction h with
  | refl => exact ht
  | tail _ hmove ih =>
    cases hmove with
    | lookup hget => exact hlookup _ _ _ _ ih hget
    | touch htouched => exact htouch _ _ ih htouched

end FlowTable

namespace QueueOut

open FlowTable

variable {cfg : QueueOutConfig} {s s' : QueueOut} {now i : ℕ}

/-! ### Pauses and overlay fields -/

theorem unpaused_pause (s : QueueOut) (now i j : ℕ) :
    ((s.pause now i).flowStatePool j).unpaused = (s.flowStatePool j).unpaused :=
  field_update FlowState.unpaused (by rfl) j

theorem unpaused_backpressure (cfg : QueueOutConfig) (s : QueueOut) (now i j : ℕ) :
    ((s.backpressure cfg now i).flowStatePool j).unpaused = (s.flowStatePool j).unpaused :=
  backpressure_induction (P := fun u => (u.flowStatePool j).unpaused = (s.flowStatePool j).unpaused)
    (fun u k hu => (unpaused_pause u now k j).trans hu) rfl cfg i

theorem touched_pause (s : QueueOut) (now i : ℕ) :
    Touched s.toFlowTable (s.pause now i).toFlowTable :=
  touched_setBlock _ rfl

theorem touched_backpressure (cfg : QueueOutConfig) (s : QueueOut) (now i : ℕ) :
    Touched s.toFlowTable (s.backpressure cfg now i).toFlowTable :=
  backpressure_induction (P := fun u => Touched s.toFlowTable u.toFlowTable)
    (fun u k hu => hu.trans (touched_pause u now k)) (Touched.refl _) cfg i

theorem touched_overlay (cfg : QueueOutConfig) (s : QueueOut) (now i duration : ℕ) :
    Touched s.toFlowTable (s.overlay cfg now i duration).toFlowTable := by
  unfold QueueOut.overlay
  split_ifs
  · exact touched_setBlock _ rfl
  · exact Touched.refl _

theorem touched_resume (cfg : QueueOutConfig) (s : QueueOut) (now i : ℕ) :
    Touched s.toFlowTable (s.resume cfg now i).toFlowTable := by
  unfold QueueOut.resume
  split_ifs
  · exact touched_setBlock _ rfl
  · exact Touched.refl _

/-! ### The calls -/

theorem touched_setBuffer (s : QueueOut) (i : ℕ) (b : PktBuffer Packet) :
    Touched s.toFlowTable (s.setBuffer i b).toFlowTable :=
  touched_buffers _ _

theorem toFlowTable_sendPacket {pkts : List Packet} {accept : ℕ × ℕ} {sentPkts : ℕ}
    {sentCtrl : Bool} (h : s.sendPacket cfg i pkts accept = .ok (s', sentPkts, sentCtrl)) :
    s'.toFlowTable = s.toFlowTable := by
  obtain ⟨-, c, rfl⟩ := sendPacket_eq h
  rfl

/-- A round on a block changes buffers. -/
theorem sendOnce_touched {accept : ℕ × ℕ} {out : Option Bool}
    (h : s.sendOnce cfg i accept = .ok (s', out)) : Touched s.toFlowTable s'.toFlowTable := by
  unfold sendOnce at h
  split at h
  · cases h
  · rename_i b k hprime
    split_ifs at h
    · cases h
      exact touched_buffers _ _
    · split at h
      · cases h
      · rename_i u sentPkts sentCtrl hsend
        split at h
        · cases h
        · cases h
          have hsent : Touched s.toFlowTable u.toFlowTable := by
            rw [toFlowTable_sendPacket hsend]
            exact touched_setBuffer s i b
          exact hsent.trans (touched_setBuffer u i _)

theorem sendFlow_touched {accepts rest : List (ℕ × ℕ)}
    (h : s.sendFlow cfg i accepts = .ok (s', rest)) : Touched s.toFlowTable s'.toFlowTable := by
  induction accepts generalizing s with
  | nil =>
    cases honce : s.sendOnce cfg i (0, 0) with
    | error e => simp [sendFlow, honce] at h
    | ok r =>
      simp only [sendFlow, honce, Except.ok.injEq, Prod.mk.injEq] at h
      exact h.1 ▸ sendOnce_touched honce
  | cons accept accepts ih =>
    cases honce : s.sendOnce cfg i accept with
    | error e => simp [sendFlow, honce] at h
    | ok r =>
      obtain ⟨u, out⟩ := r
      have hu := sendOnce_touched honce
      -- the buffer was empty, the port took less than it was given, or there is more to send
      rcases out with _ | _ | _
      · simp only [sendFlow, honce, Except.ok.injEq, Prod.mk.injEq] at h
        exact h.1 ▸ hu
      · simp only [sendFlow, honce] at h
        exact hu.trans (ih h)
      · simp only [sendFlow, honce, Except.ok.injEq, Prod.mk.injEq] at h
        exact h.1 ▸ hu

theorem visitFlows_touched {is : List ℕ} {accepts rest : List (ℕ × ℕ)}
    (h : s.visitFlows cfg now is accepts = .ok (s', rest)) :
    Touched s.toFlowTable s'.toFlowTable := by
  induction is generalizing s accepts with
  | nil =>
    simp only [visitFlows, Except.ok.injEq, Prod.mk.injEq] at h
    exact h.1 ▸ Touched.refl _
  | cons i is ih =>
    cases hflow : s.sendFlow cfg i accepts with
    | error e => simp [visitFlows, hflow] at h
    | ok r =>
      obtain ⟨u, accepts'⟩ := r
      simp only [visitFlows, hflow] at h
      exact ((sendFlow_touched hflow).trans (touched_resume cfg u now i)).trans (ih h)

/-- With per-flow buffers `RunTask` looks up no flow. -/
theorem runTask_touched {ctrlAccept : ℕ} {accepts : List (ℕ × ℕ)}
    (h : s.runTask cfg now ctrlAccept accepts = .ok s') :
    Touched s.toFlowTable s'.toFlowTable := by
  have htry : ∀ {u : QueueOut}, u.trySendBufferPFQ cfg now accepts = .ok s' →
      Touched u.toFlowTable s'.toFlowTable := by
    intro u hu
    unfold trySendBufferPFQ at hu
    split at hu
    · cases hu
    · rename_i v rest hfirst
      split at hu
      · cases hu
      · rename_i w rest' hsecond
        cases hu
        exact (visitFlows_touched hfirst).trans (visitFlows_touched hsecond)
  unfold runTask at h
  simp only at h
  split_ifs at h with hcdq hpos hpos
  · have htouched := htry h
    exact htouched
  · exact (Except.ok.inj h) ▸ Touched.refl _
  · exact htry h
  · exact (Except.ok.inj h) ▸ Touched.refl _

theorem sendLimitedOnce_moves {q sentPkts burst : ℕ} {accept : ℕ × ℕ} {stop : Bool}
    (h : s.sendLimitedOnce cfg now q accept = .ok (s', sentPkts, burst, stop)) :
    Moves cfg now s.toFlowTable s'.toFlowTable := by
  unfold sendLimitedOnce at h
  split_ifs at h
  split at h
  · cases h
  · rename_i t i hget
    simp only at h
    split at h
    · cases h
    · rename_i b k hprime
      split_ifs at h
      split at h
      · cases h
      · rename_i u sentPkts' sentCtrl hsend
        split at h
        · cases h
        · rename_i b' hflush
          simp only [Except.ok.injEq, Prod.mk.injEq] at h
          obtain ⟨rfl, -⟩ := h
          have hsent : Touched t u.toFlowTable := by
            rw [toFlowTable_sendPacket hsend]
            exact touched_setBuffer { s with toFlowTable := t } i b
          exact (moves_lookup hget).trans (hsent.trans (touched_setBuffer u i b')).moves

theorem sendLimited_moves {q size : ℕ} {offered out : Bool} {accepts rest : List (ℕ × ℕ)}
    (h : s.sendLimited cfg now q size offered accepts = .ok (s', rest, out)) :
    Moves cfg now s.toFlowTable s'.toFlowTable := by
  induction accepts generalizing s size offered with
  | nil =>
    unfold sendLimited at h
    split_ifs at h
    · cases h
      exact Moves.refl _
    · split at h
      · cases h
      · rename_i u sentPkts burst stop honce
        split_ifs at h
        cases h
        exact sendLimitedOnce_moves honce
  | cons accept accepts ih =>
    unfold sendLimited at h
    split_ifs at h
    · cases h
      exact Moves.refl _
    · split at h
      · cases h
      · rename_i u sentPkts burst stop honce
        split_ifs at h
        · cases h
          exact sendLimitedOnce_moves honce
        · exact (sendLimitedOnce_moves honce).trans (ih h)

theorem visitLimited_moves {qs offered offered' : List ℕ} {accepts : List (ℕ × ℕ)}
    (h : s.visitLimited cfg now offered qs accepts = .ok (s', offered')) :
    Moves cfg now s.toFlowTable s'.toFlowTable := by
  induction qs generalizing s offered accepts with
  | nil =>
    cases h
    exact Moves.refl _
  | cons q qs ih =>
    unfold visitLimited at h
    split at h
    · cases h
    · rename_i u accepts' hsend
      exact (sendLimited_moves hsend).trans (ih h)
    · rename_i u accepts' hsend
      exact (sendLimited_moves hsend).trans (ih h)

theorem runTaskShared_moves {ctrlAccept : ℕ} {accepts : List (ℕ × ℕ)} {offered : List ℕ}
    (h : s.runTaskShared cfg now ctrlAccept accepts = .ok (s', offered)) :
    Moves cfg now s.toFlowTable s'.toFlowTable := by
  unfold runTaskShared trySendBuffer at h
  simp only at h
  split_ifs at h
  · have hmoves := visitLimited_moves h
    exact hmoves
  · cases h
    exact Moves.refl _
  · exact visitLimited_moves h
  · cases h
    exact Moves.refl _

/-- `ProcessBatch` gives the batch to `GetFlowState`: the port is up, the control batch has room,
and there is a packet. -/
def Admits (cfg : QueueOutConfig) (s : QueueOut) (adminUp : Bool) (batch : List Packet) : Prop :=
  adminUp = true ∧ ¬(cfg.cdq = true ∧ ctrlBatchSize - 1 ≤ s.ctrl.ctrlBatchUsed) ∧ 1 ≤ batch.length

instance (adminUp : Bool) (batch : List Packet) : Decidable (s.Admits cfg adminUp batch) :=
  inferInstanceAs (Decidable (_ ∧ _))

section ProcessBatch

variable {adminUp : Bool} {batch : List Packet} {accept : ℕ × ℕ} {duration : ℕ}

theorem processBatch_of_not_admits (hnot : ¬s.Admits cfg adminUp batch)
    (h : s.processBatch cfg now adminUp batch accept duration = .ok s') :
    s'.toFlowTable = s.toFlowTable := by
  unfold processBatch at h
  simp only at h
  split_ifs at h with hdown hfull hempty hbuf
  · cases h
    rfl
  · cases h
    rfl
  · cases h
    rfl
  · exact absurd ⟨by simpa using hdown, hfull, not_lt.1 hempty⟩ hnot
  · exact absurd ⟨by simpa using hdown, hfull, not_lt.1 hempty⟩ hnot

/-- One lookup is made for an admitted batch. -/
theorem processBatch_of_admits (hadmits : s.Admits cfg adminUp batch)
    (h : s.processBatch cfg now adminUp batch accept duration = .ok s') :
    ∃ t i, s.toFlowTable.getFlowState cfg now (batch.headD default).flow = .ok (t, i) ∧
      Touched t s'.toFlowTable := by
  obtain ⟨hup, hroom, hone⟩ := hadmits
  unfold processBatch at h
  simp only at h
  rw [if_neg (by simp [hup]), if_neg hroom, if_neg (by omega)] at h
  split_ifs at h with hbuf
  · unfold processBatchWithBuffer at h
    split at h
    · cases h
    · rename_i t i hget
      cases h
      refine ⟨t, i, hget, Touched.trans ?_ (touched_backpressure cfg _ now i)⟩
      refine Touched.trans ?_ (touched_overlay cfg _ now i duration)
      exact touched_buffers t _
  · unfold processBatchLossy at h
    split at h
    · cases h
    · rename_i t i hget
      split at h
      · cases h
      · rename_i u sentPkts sentCtrl hsend
        cases h
        refine ⟨t, i, hget, ?_⟩
        have htable := toFlowTable_sendPacket hsend
        change Touched t u.toFlowTable
        rw [htable]
        exact Touched.refl t

theorem processBatch_moves
    (h : s.processBatch cfg now adminUp batch accept duration = .ok s') :
    Moves cfg now s.toFlowTable s'.toFlowTable := by
  by_cases hadmits : s.Admits cfg adminUp batch
  · obtain ⟨t, i, hget, htouch⟩ := processBatch_of_admits hadmits h
    exact (moves_lookup hget).trans htouch.moves
  · rw [processBatch_of_not_admits hadmits h]
    exact Moves.refl _

end ProcessBatch

/-- The time of a call; the commands look up no flow. -/
def Op.time : Op → ℕ
  | .processBatch now _ _ _ _ => now
  | .runTask now _ _ => now
  | .setOverlayThreshold _ _ => 0
  | .setBackpressureThreshold _ => 0

/-- **Each call changes the flow table by lookups, and by changes that leave the blocks to their
flows and queues.** -/
theorem call_moves {op : Op} (h : s.call cfg op = .ok s') :
    Moves cfg op.time s.toFlowTable s'.toFlowTable := by
  cases op with
  | processBatch now adminUp batch accept duration =>
    exact processBatch_moves (Run.mapError_eq_ok.1 h)
  | runTask now ctrlAccept accepts =>
    simp only [call] at h
    split_ifs at h with hper
    · exact (runTask_touched (Run.mapError_eq_ok.1 h)).moves
    · cases hrun : s.runTaskShared cfg now ctrlAccept accepts with
      | error e => simp [hrun, Except.map] at h
      | ok r =>
        obtain ⟨u, offered⟩ := r
        simp only [hrun, Except.map, Except.ok.injEq] at h
        exact h ▸ runTaskShared_moves hrun
  | setOverlayThreshold lowWater highWater =>
    simp only [call, step, Except.mapError, Except.ok.injEq] at h
    exact h ▸ Moves.refl _
  | setBackpressureThreshold threshold =>
    simp only [call, step, Except.mapError, Except.ok.injEq] at h
    exact h ▸ Moves.refl _

/-- What lookups at the times of the calls and changes of buffers, pauses and overlay fields keep,
runs keep. -/
theorem reach_induction {P : FlowTable → Prop} {G : QueueOut → Op → Bool}
    (hlookup : ∀ s op t t' flow i, G s op = true → P t →
      t.getFlowState cfg op.time flow = .ok (t', i) → P t')
    (htouch : ∀ t t', P t → Touched t t' → P t') (hreach : Run.ReachIf (call cfg) G s s')
    (hs : P s.toFlowTable) : P s'.toFlowTable := by
  refine hreach.invariant (P := fun s => P s.toFlowTable) hs ?_
  intro u op v hu hop hstep
  exact (call_moves hstep).invariant (hlookup u op · · · · hop) htouch hu

end QueueOut

end Backdraft

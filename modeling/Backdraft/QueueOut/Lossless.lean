import Backdraft.QueueOut.Effects

/-!
# The lossless output module loses nothing

With per-flow buffers every packet that was given to the module is sent, or it is in the buffer of
a block, or it was freed because there was no room for it.  The packets of a flow are sent in the
order in which they came, and `count_packets_in_buffer_` counts the packets in the buffers.

* `Lossless`: the invariant; the packets of a flow are in the buffer of its block only;
* `Lossless.drained`, `Lossless.looked`, `Lossless.stocked`: packets leave a buffer, a flow is
  looked up, a batch comes in;
* `queueOut_lossless`: the result for every run.
-/

namespace Backdraft

open Word Slots

/-- The fields that tell to which flow a packet belongs. -/
def Packet.key (p : Packet) : FlowTuple := p.flow.toFlowTuple

/-- The packets of a flow. -/
def ofFlow (f : FlowTuple) (pkts : List Packet) : List Packet :=
  pkts.filter fun p => decide (p.key = f)

section OfFlow

variable {f : FlowTuple} {pkts : List Packet}

@[simp] theorem ofFlow_append (l : List Packet) :
    ofFlow f (pkts ++ l) = ofFlow f pkts ++ ofFlow f l :=
  List.filter_append ..

theorem ofFlow_eq_self (h : ∀ p ∈ pkts, p.key = f) : ofFlow f pkts = pkts :=
  List.filter_eq_self.2 fun p hp => decide_eq_true (h p hp)

theorem ofFlow_eq_nil (h : ∀ p ∈ pkts, p.key ≠ f) : ofFlow f pkts = [] :=
  List.filter_eq_nil_iff.2 fun p hp => by simpa using h p hp

end OfFlow

/-- The packets in the buffer of the block of a flow. -/
def FlowTable.storedOf (t : FlowTable) (f : FlowTuple) : List Packet :=
  match t.flowBufferMapping.lookup f with
  | some i => (t.buffers i).contents
  | none => []

theorem FlowTable.storedOf_eq {t : FlowTable} {f : FlowTuple} {i : ℕ}
    (h : t.flowBufferMapping.lookup f = some i) : t.storedOf f = (t.buffers i).contents := by
  rw [FlowTable.storedOf, h]

theorem FlowTable.storedOf_setBuffer (t : FlowTable) (f : FlowTuple) (i : ℕ)
    (b : PktBuffer Packet) :
    storedOf { t with buffers := Function.update t.buffers i b } f =
      if t.flowBufferMapping.lookup f = some i then b.contents else t.storedOf f := by
  unfold storedOf
  cases hlook : t.flowBufferMapping.lookup f with
  | none => simp
  | some j =>
    by_cases hji : j = i
    · subst hji; simp
    · simp [hji]

/-- A lookup moves no packet to another flow. -/
theorem FlowTable.Looked.storedOf_eq {cfg : QueueOutConfig} {t t' : FlowTable} {flow : Flow} {i : ℕ}
    (hl : Looked t t' flow i) (h : t.TableInv cfg) (h' : t'.TableInv cfg) (f : FlowTuple) :
    t'.storedOf f = t.storedOf f := by
  -- blocks with packets are found by the same flow before and after
  have hsame : ∀ j < maxAvailabeFlows, (t.buffers j).contents ≠ [] →
      (t'.flowBufferMapping.lookup f = some j ↔ t.flowBufferMapping.lookup f = some j) :=
    fun j _ hne => hl.lookup_iff h h' hne
  cases hold : t.flowBufferMapping.lookup f with
  | some j =>
    have hj := ((h.map_iff f j).1 hold).1
    by_cases hne : (t.buffers j).contents = []
    · rw [FlowTable.storedOf_eq hold, hne]
      cases hnew : t'.flowBufferMapping.lookup f with
      | none => rw [storedOf, hnew]
      | some k =>
        have hk := ((h'.map_iff f k).1 hnew).1
        rw [FlowTable.storedOf_eq hnew, hl.contents_eq k hk]
        by_contra hk'
        have hkj : k = j := Option.some.inj (((hsame k hk hk').1 hnew).symm.trans hold)
        exact hk' (hkj ▸ hne)
    · rw [FlowTable.storedOf_eq hold, FlowTable.storedOf_eq ((hsame j hj hne).2 hold),
        hl.contents_eq j hj]
  | none =>
    cases hnew : t'.flowBufferMapping.lookup f with
    | none => rw [storedOf, storedOf, hnew, hold]
    | some k =>
      have hk := ((h'.map_iff f k).1 hnew).1
      rw [FlowTable.storedOf_eq hnew, hl.contents_eq k hk, storedOf, hold]
      by_contra hk'
      exact absurd ((hsame k hk hk').1 hnew) (by rw [hold]; simp)

namespace QueueOut

variable {cfg : QueueOutConfig} {s s' u : QueueOut} {i n : ℕ} {b : PktBuffer Packet}
  {c : CtrlBatch} {batch : List Packet}

/-- The packets in the buffers of the blocks. -/
def stored (s : QueueOut) : List Packet :=
  pooled maxAvailabeFlows fun i => (s.bufferOf i).contents

/-- The invariant of the lossless module. -/
structure Lossless (cfg : QueueOutConfig) (s : QueueOut) : Prop where
  table : s.toFlowTable.TableInv cfg
  owner : ∀ i < maxAvailabeFlows, ∀ p ∈ (s.buffers i).contents,
    s.flowBufferMapping.lookup p.key = some i
  perm : s.received.Perm (s.sent ++ s.stored ++ s.freed)
  order : ∀ f, (ofFlow f s.sent ++ s.storedOf f).Sublist (ofFlow f s.received)
  count : s.countPacketsInBuffer = s.stored.length

theorem stored_eq (h : s.toFlowTable.TableInv cfg) :
    s.stored = pooled maxAvailabeFlows fun i => (s.buffers i).contents :=
  pooled_congr fun i hi => by rw [h.bufferOf_eq hi]

theorem length_stored_lt (h : s.toFlowTable.TableInv cfg) : s.stored.length < 2 ^ 64 := by
  have hle : s.stored.length ≤ maxAvailabeFlows * (2 ^ 31 + 32) := by
    rw [stored_eq h]
    exact length_pooled_le fun i hi => (h.wf i hi).length_lt.le
  have hmax : maxAvailabeFlows = 256 := rfl
  omega

/-- Replacing the buffer of a block replaces its packets. -/
theorem stored_update (hu : u.toFlowTable.TableInv cfg)
    (hbuf : u.buffers = Function.update s.buffers i b) :
    u.stored = pooled maxAvailabeFlows
      (Function.update (fun j => (s.buffers j).contents) i b.contents) := by
  rw [stored_eq hu, hbuf]
  exact congrArg _ (Function.comp_update PktBuffer.contents s.buffers i b)

namespace Lossless

theorem count_lt (h : Lossless cfg s) : s.countPacketsInBuffer < 2 ^ 64 := by
  rw [h.count]
  exact length_stored_lt h.table

/-- Only the flow of a block has packets in its buffer. -/
theorem key_eq (h : Lossless cfg s) {f : FlowTuple} (hi : i < maxAvailabeFlows)
    (hf : s.flowBufferMapping.lookup f = some i) : ∀ p ∈ (s.buffers i).contents, p.key = f := by
  intro p hp
  have hp' := h.owner i hi p hp
  rw [← ((h.table.map_iff f i).1 hf).2.2, ← ((h.table.map_iff _ i).1 hp').2.2]

theorem key_ne (h : Lossless cfg s) {f : FlowTuple} (hi : i < maxAvailabeFlows)
    (hf : s.flowBufferMapping.lookup f ≠ some i) : ∀ p ∈ (s.buffers i).contents, p.key ≠ f := by
  rintro p hp rfl
  exact hf (h.owner i hi p hp)

theorem sameStore (h : Lossless cfg s) (hsame : SameStore s u) : Lossless cfg u := by
  have htable := hsame.tableInv h.table
  have hstored : u.stored = s.stored := by
    rw [stored_eq htable, stored_eq h.table, hsame.buffers_eq]
  refine ⟨htable, ?_, ?_, fun f => ?_, ?_⟩
  · rw [hsame.buffers_eq, hsame.mapping_eq]; exact h.owner
  · rw [hsame.received_eq, hsame.sent_eq, hsame.freed_eq, hstored]; exact h.perm
  · have hof : u.storedOf f = s.storedOf f := by
      rw [FlowTable.storedOf, FlowTable.storedOf, hsame.mapping_eq, hsame.buffers_eq]
    rw [hsame.sent_eq, hsame.received_eq, hof]
    exact h.order f
  · rw [hsame.count_eq, hstored]; exact h.count

/-- Packets leave a buffer. -/
theorem drained (h : Lossless cfg s) (hi : i < maxAvailabeFlows) (hb : Remains cfg s i n b) :
    Lossless cfg (s.drained i n b c) := by
  have htable : (s.drained i n b c).toFlowTable.TableInv cfg := tableInv_drained h.table hi hb
  have hcut : (s.buffers i).contents = (s.buffers i).contents.take n ++ b.contents := by
    rw [hb.contents_eq, List.take_append_drop]
  -- the packets that were stored are those that leave and those that are still stored
  have hmoved : s.stored.Perm ((s.buffers i).contents.take n ++ (s.drained i n b c).stored) := by
    rw [stored_eq h.table, stored_update (s := s) htable rfl]
    exact perm_pooled_cut hi hcut
  refine ⟨htable, fun j hj p hp => ?_, ?_, fun f => ?_, ?_⟩
  · by_cases hji : j = i
    · subst hji
      have hp' : p ∈ b.contents := by simpa [QueueOut.drained] using hp
      exact h.owner j hj p (hcut ▸ List.mem_append_right _ hp')
    · exact h.owner j hj p (by simpa [QueueOut.drained, hji] using hp)
  · refine h.perm.trans (List.Perm.append_right _ ?_)
    simpa [QueueOut.drained] using hmoved.append_left s.sent
  · have hkeep := h.order f
    simp only [QueueOut.drained, ofFlow_append, FlowTable.storedOf_setBuffer]
    by_cases hf : s.flowBufferMapping.lookup f = some i
    · have hsent : ofFlow f ((s.buffers i).contents.take n) = (s.buffers i).contents.take n :=
        ofFlow_eq_self fun p hp => h.key_eq hi hf p (List.mem_of_mem_take hp)
      rw [FlowTable.storedOf_eq hf, hcut] at hkeep
      rw [if_pos hf, hsent, List.append_assoc]
      exact hkeep
    · have hsent : ofFlow f ((s.buffers i).contents.take n) = [] :=
        ofFlow_eq_nil fun p hp => h.key_ne hi hf p (List.mem_of_mem_take hp)
      rw [if_neg hf, hsent, List.append_nil]
      exact hkeep
  · have hlen : s.stored.length = n + (s.drained i n b c).stored.length := by
      rw [hmoved.length_eq, List.length_append, List.length_take, min_eq_left hb.le]
    change wsub 64 s.countPacketsInBuffer n = _
    rw [wsub_of_le (by rw [h.count]; omega) h.count_lt, h.count]
    omega

/-- A lookup moves no packet. -/
theorem looked {t : FlowTable} {flow : Flow} (h : Lossless cfg s) (htable : t.TableInv cfg)
    (hl : FlowTable.Looked s.toFlowTable t flow i) :
    Lossless cfg { s with toFlowTable := t } := by
  have hstored : stored { s with toFlowTable := t } = s.stored := by
    rw [stored_eq (s := { s with toFlowTable := t }) htable, stored_eq h.table]
    exact pooled_congr hl.contents_eq
  refine ⟨htable, fun j hj p hp => ?_, ?_, fun f => ?_, ?_⟩
  · have hp' : p ∈ (s.buffers j).contents := hl.contents_eq j hj ▸ hp
    exact (hl.lookup_iff h.table htable (List.ne_nil_of_mem hp')).2 (h.owner j hj p hp')
  · rw [hstored]; exact h.perm
  · rw [hl.storedOf_eq h.table htable]; exact h.order f
  · rw [hstored]; exact h.count

/-- A batch comes in that is freed. -/
theorem refused (h : Lossless cfg s) (batch : List Packet) (c : CtrlBatch) :
    Lossless cfg { s with
      received := s.received ++ batch, freed := s.freed ++ batch, ctrl := c } := by
  refine ⟨h.table, h.owner, ?_, fun f => ?_, h.count⟩
  · have hperm := h.perm.append_right batch
    rwa [List.append_assoc] at hperm
  · simp only [ofFlow_append]
    exact (h.order f).trans (List.sublist_append_left _ _)

/-- A batch comes in, and a part of it is stored. -/
theorem stocked {f : FlowTuple} (h : Lossless cfg s) (hf : s.flowBufferMapping.lookup f = some i)
    (hone : ∀ p ∈ batch, p.key = f) (hb : Extends cfg s i n b batch) (c : CtrlBatch) :
    Lossless cfg
      ({ s with received := s.received ++ batch, ctrl := c }.stocked i n b batch) := by
  obtain ⟨hi, hin, -⟩ := (h.table.map_iff f i).1 hf
  set v := { s with received := s.received ++ batch, ctrl := c }.stocked i n b batch with hv
  have htable : v.toFlowTable.TableInv cfg := tableInv_stocked (s := s) h.table hin hb
  -- what is stored now is what was stored and the front of the batch
  have hmoved : v.stored.Perm (s.stored ++ batch.take n) := by
    rw [stored_eq h.table, stored_update (s := s) htable rfl, hb.contents_eq]
    exact perm_pooled_append hi _ _
  refine ⟨htable, fun j hj p hp => ?_, ?_, fun g => ?_, ?_⟩
  · by_cases hji : j = i
    · subst hji
      have hp' : p ∈ b.contents := by simpa [hv, QueueOut.stocked] using hp
      rw [hb.contents_eq] at hp'
      rcases List.mem_append.1 hp' with hp' | hp'
      · exact h.owner j hj p hp'
      · rw [hone p (List.mem_of_mem_take hp')]
        exact hf
    · exact h.owner j hj p (by simpa [hv, QueueOut.stocked, hji] using hp)
  · refine (perm_append_split h.perm n batch).trans (List.Perm.append_right _ ?_)
    rw [List.append_assoc]
    exact hmoved.symm.append_left s.sent
  · have hkeep := h.order g
    simp only [hv, QueueOut.stocked, ofFlow_append, FlowTable.storedOf_setBuffer]
    by_cases hg : s.flowBufferMapping.lookup g = some i
    · have hgf : g = f := by
        rw [← ((h.table.map_iff g i).1 hg).2.2, ((h.table.map_iff f i).1 hf).2.2]
      have hall : ofFlow g batch = batch := ofFlow_eq_self (hgf ▸ hone)
      rw [FlowTable.storedOf_eq hg] at hkeep
      rw [if_pos hg, hb.contents_eq, ← List.append_assoc, hall]
      exact hkeep.append (List.take_sublist n batch)
    · rw [if_neg hg]
      exact hkeep.trans (List.sublist_append_left _ _)
  · have hlen : v.stored.length = s.countPacketsInBuffer + n := by
      rw [hmoved.length_eq, List.length_append, List.length_take, min_eq_left hb.le, h.count]
    have hlt := length_stored_lt htable
    change wadd 64 s.countPacketsInBuffer n = _
    rw [wadd_of_lt (by omega), hlen]

theorem init (hbuf : cfg.buffering = true) (hpow : Llring.PowTwo cfg.maxBufferSize)
    (h : QueueOut.init cfg = some s) : Lossless cfg s := by
  obtain ⟨t, ht, rfl⟩ := Option.map_eq_some_iff.1 h
  have htable := FlowTable.TableInv.setup hbuf hpow ht
  obtain ⟨b, rfl⟩ := FlowTable.setup_eq_some ht
  have hempty : ∀ j < maxAvailabeFlows, b.contents = [] := fun j hj => htable.empty j hj rfl
  have hstored : pooled maxAvailabeFlows (fun _ => b.contents) = [] :=
    List.flatMap_eq_nil_iff.2 fun j hj => hempty j (List.mem_range.1 hj)
  refine ⟨htable, fun j hj p hp => ?_, ?_, fun f => List.Sublist.slnil, ?_⟩
  · rw [show (FlowTable.withBuffers b).buffers j = b from rfl, hempty j hj] at hp
    cases hp
  · rw [stored_eq htable]
    change List.Perm [] ([] ++ pooled maxAvailabeFlows (fun _ => b.contents) ++ [])
    rw [hstored]
    rfl
  · rw [stored_eq htable]
    exact (congrArg List.length hstored).symm

end Lossless

/-- The packets of a batch belong to the flow of the first one. -/
def oneFlow (_ : QueueOut) : Op → Bool
  | .processBatch _ _ batch _ _ => batch.all fun p => decide (p.key = (batch.headD default).key)
  | _ => true

/-- **A call keeps the invariant.** -/
theorem Lossless.step {op : Op} (h : Lossless cfg s) (hbuf : cfg.buffering = true)
    (hper : cfg.perFlowBuffering = true) (hop : s.oneFlow op = true)
    (hok : s.step cfg op = .ok s') : Lossless cfg s' := by
  cases op with
  | processBatch now adminUp batch accept duration =>
    obtain ⟨c, rfl⟩ | ⟨c, t, i, hget, hcase⟩ := processBatch_cases hok
    · exact h.refused batch c
    · obtain ⟨htable, hl⟩ := h.table.getFlowState hper hget
      obtain ⟨-, rfl⟩ | ⟨hlossy, -⟩ := hcase
      · have hone : ∀ p ∈ batch, p.key = (batch.headD default).key := by
          simpa [oneFlow] using hop
        obtain ⟨n, b, hb, heq⟩ := bufferBatch_eq
          (s := { s with toFlowTable := t, received := s.received ++ batch, ctrl := c })
          htable hl.lt batch
        rw [heq]
        have hstocked := (h.looked htable hl).stocked hl.found hone ⟨hb.le, hb.wf, hb.contents_eq⟩ c
        exact (hstocked.sameStore (SameStore.overlay ..)).sameStore (SameStore.backpressure ..)
      · exact absurd (hbuf.symm.trans hlossy) (by decide)
  | runTask now ctrlAccept accepts =>
    refine runTask_induction (P := Lossless cfg) (fun u hu => ⟨hu.table, hu.count_lt⟩)
      (fun u i n b c hu hi hb => ?_) (fun u c hu => ?_) h hok
    · exact (hu.drained hi hb).sameStore (SameStore.resume ..)
    · exact ⟨hu.table, hu.owner, hu.perm, hu.order, hu.count⟩
  | setOverlayThreshold lowWater highWater =>
    cases hok
    exact ⟨h.table, h.owner, h.perm, h.order, h.count⟩
  | setBackpressureThreshold threshold =>
    cases hok
    exact ⟨h.table, h.owner, h.perm, h.order, h.count⟩

/-- **The lossless output module.**  In every run, the packets received are those sent, those in
the buffers of the blocks and those freed, each exactly once; the packets of a flow are sent in the
order in which they came; and `count_packets_in_buffer_` is the number of packets in the buffers. -/
theorem queueOut_lossless {s₀ : QueueOut} (hbuf : cfg.buffering = true)
    (hper : cfg.perFlowBuffering = true) (hpow : Llring.PowTwo cfg.maxBufferSize)
    (h₀ : QueueOut.init cfg = some s₀) (hs : Run.ReachIf (step cfg) oneFlow s₀ s) :
    s.received.Perm (s.sent ++ s.stored ++ s.freed) ∧
    (∀ f, (ofFlow f s.sent).Sublist (ofFlow f s.received)) ∧
    s.countPacketsInBuffer =
      ((List.range maxAvailabeFlows).map fun i => (s.bufferOf i).pktbufferCount).sum := by
  have h : Lossless cfg s := hs.invariant (P := Lossless cfg) (Lossless.init hbuf hpow h₀)
    fun u op v hu hop hok => hu.step hbuf hper hop hok
  refine ⟨h.perm, fun f => (List.sublist_append_left _ _).trans (h.order f), ?_⟩
  rw [h.count, stored, length_pooled]
  congr 1
  refine List.map_congr_left fun i hi => ?_
  have hi' := List.mem_range.1 hi
  rw [h.table.bufferOf_eq hi', (h.table.wf i hi').count_eq]

/-- Two flows, of which one has more packets than its buffer takes, and a port that takes two
packets of one and one of the other. -/
theorem queueOut_lossless_two_flows :
    ∃ s₀ s, QueueOut.init (FlowTable.perFlowConfig 4) = some s₀ ∧
      Run.ReachIf (step (FlowTable.perFlowConfig 4)) oneFlow s₀ s ∧
      (s.sent.map Packet.name = [3, 4, 1] ∧ s.freed.map Packet.name = [6, 7]) ∧
      s.received.Perm (s.sent ++ s.stored ++ s.freed) ∧
      (∀ f, (ofFlow f s.sent).Sublist (ofFlow f s.received)) ∧
      s.countPacketsInBuffer =
        ((List.range maxAvailabeFlows).map fun i => (s.bufferOf i).pktbufferCount).sum := by
  have hrun : ((QueueOut.init (FlowTable.perFlowConfig 4)).bind fun s₀ =>
      (Run.exec (step (FlowTable.perFlowConfig 4)) oneFlow s₀
        [.processBatch 5 true [⟨1, FlowTable.udpTo 80⟩, ⟨2, FlowTable.udpTo 80⟩] (0, 0) 0,
          .processBatch 6 true
            ([3, 4, 5, 6, 7].map fun name => ⟨name, FlowTable.udpTo 50⟩) (0, 0) 0,
          .runTask 7 0 [(2, 0), (1, 0)]]).map fun s =>
      decide (s.sent.map Packet.name = [3, 4, 1] ∧ s.freed.map Packet.name = [6, 7])) =
        some true := by
    decide +kernel
  obtain ⟨s₀, s, h₀, hreach, hdec⟩ := Run.exists_init_reachIf _ hrun
  exact ⟨s₀, s, h₀, hreach, of_decide_eq_true hdec,
    queueOut_lossless rfl rfl ⟨2, by decide, rfl⟩ h₀ hreach⟩

end QueueOut

end Backdraft

import Backdraft.Core
import Backdraft.Port.RateLimit
import Backdraft.QueueOut.Moves
import Backdraft.QueueOut.QueueChoice

/-!
# The start of the output module

`BKDRFTQueueOut::Init` reads the queue ids of its argument, acquires the queues from the port and
takes its settings.  With `cdq` the first queue is the doorbell queue, and the others are for data.

* `PortQueues`, `acquireQueues`: `Port::AcquireQueues`;
* `initModule`: `Init`, with its errors, and `initModule_eq_ok`: what it accepts;
* `Placed`: the blocks in use are on queues the module may use, kept by every run of the module;
* `data_queues_only`: no flow is put on the doorbell queue, or on a queue the module has not
  acquired, if there is a data queue and the doorbell queue is named once;
* `data_queue_misused`: `Init` looks at `cdq_` before it sets it, so that a new module accepts
  `cdq` with one queue.

The names and the statistics that `Init` also sets are left out.  Modules are named by numbers.
-/

namespace Backdraft

open Word LeastRecent

/-- The queues of a `Port`, and the module that uses each of them. -/
structure PortQueues where
  numQueues : PacketDir → ℕ
  users : PacketDir → ℕ → Option ℕ
  queueSize : PacketDir → ℕ
  numQueues_le : ∀ dir, numQueues dir ≤ maxQueuesPerDir

namespace PortQueues

variable {p p' : PortQueues} {m q : ℕ} {dir : PacketDir} {qs : List ℕ}

/-- The queue is already being used by someone else. -/
def Busy (p : PortQueues) (m : ℕ) (dir : PacketDir) (q : ℕ) : Prop :=
  p.users dir q ≠ none ∧ p.users dir q ≠ some m

instance : Decidable (p.Busy m dir q) := inferInstanceAs (Decidable (_ ∧ _))

/-- The first loop of `AcquireQueues`. -/
def checkQueues (p : PortQueues) (m : ℕ) (dir : PacketDir) : List ℕ → Except ℤ Unit
  | [] => .ok ()
  | q :: qs =>
    if p.numQueues dir ≤ q then .error (-einval)
    else if p.Busy m dir q then .error (-ebusy)
    else p.checkQueues m dir qs

/-- `Port::AcquireQueues`; without a list all queues are acquired. -/
def acquireQueues (p : PortQueues) (m : ℕ) (dir : PacketDir) (queues : Option (List ℕ)) :
    Except ℤ PortQueues :=
  let qs := queues.getD (List.range (p.numQueues dir))
  match p.checkQueues m dir qs with
  | .error e => .error e
  | .ok () => .ok { p with
      users := Function.update p.users dir
        (qs.foldl (fun users q => Function.update users q (some m)) (p.users dir)) }

theorem checkQueues_eq_ok (h : p.checkQueues m dir qs = .ok ()) :
    ∀ q ∈ qs, q < p.numQueues dir := by
  induction qs with
  | nil => simp
  | cons q qs ih =>
    rw [checkQueues] at h
    split_ifs at h with hle hbusy
    exact List.forall_mem_cons.2 ⟨not_le.1 hle, ih h⟩

/-- The second loop. -/
theorem foldl_update_of_mem (users : ℕ → Option ℕ) (hq : q ∈ qs) :
    qs.foldl (fun users q => Function.update users q (some m)) users q = some m := by
  induction qs using List.reverseRecOn with
  | nil => cases hq
  | append_singleton qs q' ih =>
    rw [List.foldl_append, List.foldl_cons, List.foldl_nil, Function.update_apply]
    split_ifs with heq
    · rfl
    · refine ih ((List.mem_append.1 hq).resolve_right fun hmem => heq ?_)
      exact List.mem_singleton.1 hmem

/-- The queues that were acquired are queues of the port, and the module has them. -/
theorem acquireQueues_eq_ok (h : p.acquireQueues m dir (some qs) = .ok p') :
    ∀ q ∈ qs, q < p.numQueues dir ∧ p'.users dir q = some m := by
  simp only [acquireQueues, Option.getD_some] at h
  split at h
  · cases h
  · rename_i hcheck
    cases h
    refine fun q hq => ⟨checkQueues_eq_ok hcheck q hq, ?_⟩
    change Function.update p.users dir _ dir q = some m
    rw [Function.update_self, foldl_update_of_mem _ hq]

end PortQueues

/-! ### `Init` -/

/-- `BKDRFTQueueOutArg`. -/
structure QueueOutArg where
  port : String
  qid : List ℕ
  cdq : Bool
  lossless : Bool
  backpressure : Bool
  perFlowBuffering : Bool
  overlay : Bool

/-- `count_queues_`. -/
def QueueOutArg.countQueues (arg : QueueOutArg) : ℕ := arg.qid.length % 2 ^ 16

/-- The settings that `Init` makes. -/
def QueueOutArg.config (arg : QueueOutArg) (p : PortQueues) : QueueOutConfig where
  maxBufferSize := p.queueSize .out % 2 ^ 32
  dataQueues := (arg.qid.take arg.countQueues).map (· % 2 ^ 16)
  buffering := arg.lossless
  backpressure := arg.backpressure
  cdq := arg.cdq
  perFlowBuffering := arg.perFlowBuffering
  overlay := arg.overlay

/-- `doorbell_queue_number_`. -/
def QueueOutConfig.doorbellQueueNumber (cfg : QueueOutConfig) : ℕ :=
  if cfg.cdq then cfg.dataQueues.headD 0 else 2 ^ 16 - 1

/-- Whether the rest of the program does what `Init` asks for: `RegisterTask`, and `AllocBulk` for
the control packets. -/
structure InitEnv where
  registersTask : Bool
  allocsCtrlBatch : Bool

/-- A module that `Init` has accepted: the port with its queues, the settings and the state. -/
structure Started where
  port : PortQueues
  cfg : QueueOutConfig
  state : QueueOut

/-- `Init` of the module `m`, whose `cdq_` is `cdq₀` before. -/
def initModule (ports : String → Option PortQueues) (m : ℕ) (cdq₀ : Bool) (arg : QueueOutArg)
    (env : InitEnv) : Except CommandError Started :=
  if arg.port.length = 0 then .error ⟨einval, "Field 'port' must be specified"⟩
  else
    match ports arg.port with
    | none => .error ⟨enodev, "Port " ++ arg.port ++ " not found"⟩
    | some p =>
      if arg.countQueues < 1 ∨ arg.countQueues < 2 ∧ cdq₀ = true then
        .error ⟨einval, "Count queues should be more than 2"⟩
      else if maxQueuesPerDir < arg.countQueues then
        .error ⟨einval, "Count queues should not be more than " ++ toString maxQueuesPerDir ++
          ", it is currently: " ++ toString arg.countQueues ++ "\n"⟩
      else
        let cfg := arg.config p
        match p.acquireQueues m .out (some cfg.dataQueues) with
        | .error ret => .error (commandFailure (-ret))
        | .ok p =>
          if (cfg.buffering || cfg.backpressure || cfg.cdq) = true ∧ env.registersTask = false then
            .error ⟨enomem, "Context creation failed"⟩
          else
            match QueueOut.init cfg with
            | none => .error ⟨enomem, "Failed to setup packet buffers\n"⟩
            | some s =>
              if env.allocsCtrlBatch = false then
                .error ⟨enomem, "Failed to allocate ctrl batch\n"⟩
              else .ok ⟨p, cfg, s⟩

/-- What `Init` has done when it succeeds. -/
structure Accepted (m : ℕ) (cdq₀ : Bool) (arg : QueueOutArg) (r : Started) : Prop where
  cdq_eq : r.cfg.cdq = arg.cdq
  dataQueues_eq : r.cfg.dataQueues = (arg.qid.take arg.countQueues).map (· % 2 ^ 16)
  queues : QueueOut.AcceptedQueues r.cfg
  two_le : cdq₀ = true → 2 ≤ r.cfg.dataQueues.length
  acquired : ∀ q ∈ r.cfg.dataQueues, r.port.users .out q = some m
  init_eq : QueueOut.init r.cfg = some r.state

variable {ports : String → Option PortQueues} {m : ℕ} {cdq₀ : Bool} {arg : QueueOutArg}
  {env : InitEnv} {r : Started}

theorem QueueOutArg.length_dataQueues (arg : QueueOutArg) (p : PortQueues) :
    (arg.config p).dataQueues.length = arg.countQueues := by
  simp only [config, List.length_map, List.length_take]
  exact min_eq_left (Nat.mod_le _ _)

theorem initModule_eq_ok (h : initModule ports m cdq₀ arg env = .ok r) :
    Accepted m cdq₀ arg r := by
  unfold initModule at h
  split at h
  · cases h
  split at h
  · cases h
  rename_i p hport
  split at h
  · cases h
  rename_i hfew
  split at h
  · cases h
  rename_i hmany
  simp only at h
  split at h
  · cases h
  rename_i p' hacquire
  split at h
  · cases h
  split at h
  · cases h
  rename_i s hinit
  split at h
  · cases h
  cases h
  have hlen := arg.length_dataQueues p
  have hone : 0 < (arg.config p).dataQueues.length := by omega
  have hmax : (arg.config p).dataQueues.length ≤ maxQueuesPerDir := by omega
  have htwo : cdq₀ = true → 2 ≤ (arg.config p).dataQueues.length := by
    intro hcdq
    by_contra hlt
    exact hfew (.inr ⟨by omega, hcdq⟩)
  have hqueues := PortQueues.acquireQueues_eq_ok hacquire
  exact ⟨rfl, rfl, ⟨hone, hmax, fun q hq => (hqueues q hq).1.trans_le (p.numQueues_le .out)⟩, htwo,
    fun q hq => (hqueues q hq).2, hinit⟩

/-! ### The queues of the blocks -/

/-- A queue for data: one of `data_queues_`, and not the doorbell queue. -/
def QueueOutConfig.MayUse (cfg : QueueOutConfig) (q : ℕ) : Prop :=
  q ∈ cfg.dataQueues ∧ (cfg.cdq = true → q ≠ cfg.doorbellQueueNumber)

/-- With a doorbell queue there is another one, and the doorbell queue is not named again. -/
def QueueOutConfig.Separate (cfg : QueueOutConfig) : Prop :=
  cfg.cdq = true → cfg.candidates ≠ [] ∧ cfg.doorbellQueueNumber ∉ cfg.candidates

instance (cfg : QueueOutConfig) (q : ℕ) : Decidable (cfg.MayUse q) :=
  inferInstanceAs (Decidable (_ ∧ _))

namespace FlowTable

variable {cfg : QueueOutConfig} {t t' : FlowTable} {now i : ℕ} {flow : Flow}

theorem chooseQueue_mayUse (hpos : cfg.dataQueues ≠ []) (hsep : cfg.Separate)
    (hlt : ∀ q, t.lastVisit q < 2 ^ 64 - 1) : cfg.MayUse (t.chooseQueue cfg) := by
  cases hcdq : cfg.cdq with
  | true =>
    obtain ⟨hcand, hdoor⟩ := hsep hcdq
    have hmem := (chooseQueue_firstMin (.inl hcdq) hcand hlt).mem
    refine ⟨?_, fun _ heq => hdoor (heq ▸ hmem)⟩
    rw [QueueOutConfig.candidates, if_pos hcdq] at hmem
    exact List.mem_of_mem_drop hmem
  | false =>
    refine ⟨?_, fun h => by simp [hcdq] at h⟩
    cases hper : cfg.perFlowBuffering with
    | true =>
      have hcand : cfg.candidates = cfg.dataQueues := by simp [QueueOutConfig.candidates, hcdq]
      have hmem := (chooseQueue_firstMin (.inr hper) (hcand ▸ hpos) hlt).mem
      rwa [hcand] at hmem
    | false =>
      obtain ⟨q, qs, hqs⟩ := List.exists_cons_of_ne_nil hpos
      simp [chooseQueue, hcdq, hper, hqs]

/-- The blocks in use are on queues for data.  They are those of the mapped flows, and the entries
of the priority lists. -/
structure Placed (cfg : QueueOutConfig) (t : FlowTable) : Prop where
  owned : t.Owned
  visit_lt : ∀ q, t.lastVisit q < 2 ^ 64 - 1
  flowId_eq : ∀ i, (t.flowStatePool i).flowId = i
  mapped : ∀ f i, t.flowBufferMapping.lookup f = some i → (t.flowStatePool i).inUse = true
  listed : ∀ p, ∀ i ∈ t.prioQueue p, (t.flowStatePool i).inUse = true
  mayUse : ∀ i, (t.flowStatePool i).inUse = true → cfg.MayUse (t.flowStatePool i).qid

namespace Placed

theorem setup (h : setup cfg = some t) : Placed cfg t := by
  have hown := Owned.setup h
  obtain ⟨b, rfl⟩ := setup_eq_some h
  refine ⟨hown, fun q => ?_, fun i => rfl, fun f i hf => ?_, fun p i hi => ?_, fun i hin => ?_⟩
  · change 0 < 2 ^ 64 - 1
    decide
  · cases hf
  · cases hi
  · cases hin

theorem touched (h : Placed cfg t) (htouch : Touched t t') : Placed cfg t' where
  owned := h.owned.touched htouch
  visit_lt := htouch.lastVisit_eq ▸ h.visit_lt
  flowId_eq := fun i => (htouch.flowId_eq i).trans (h.flowId_eq i)
  mapped := fun f i hf => by
    rw [htouch.inUse_eq]
    exact h.mapped f i (htouch.mapping_eq ▸ hf)
  listed := fun p i hi => by
    rw [htouch.inUse_eq]
    exact h.listed p i (htouch.prioQueue_eq ▸ hi)
  mayUse := fun i hin => by
    rw [htouch.qid_eq]
    exact h.mayUse i (htouch.inUse_eq i ▸ hin)

/-- A block in use stays in use, and a new one is. -/
theorem inUse_of_allocates (halloc : Allocates cfg t t' now flow i) {j : ℕ}
    (hj : j = i ∨ (t.flowStatePool j).inUse = true) : (t'.flowStatePool j).inUse = true := by
  by_cases heq : j = i
  · exact heq ▸ halloc.inUse
  · rw [halloc.pool_eq j heq]
    exact hj.resolve_left heq

theorem getFlowState (h : Placed cfg t) (hpos : cfg.dataQueues ≠ []) (hsep : cfg.Separate)
    (hnow : now < 2 ^ 64 - 1) (hget : t.getFlowState cfg now flow = .ok (t', i)) :
    Placed cfg t' := by
  have hvisit : ∀ q, t'.lastVisit q < 2 ^ 64 - 1 := by
    intro q
    rw [lastVisit_getFlowState hget, Function.update_apply]
    split_ifs
    · exact hnow
    · exact h.visit_lt q
  obtain ⟨hown, ⟨-, rfl⟩ | ⟨-, halloc⟩⟩ := h.owned.getFlowState hget
  · exact ⟨hown, hvisit, h.flowId_eq, h.mapped, h.listed, h.mayUse⟩
  refine ⟨hown, hvisit, fun j => ?_, fun f j hf => ?_, fun p j hj => ?_, fun j hin => ?_⟩
  · by_cases hj : j = i
    · rw [hj, halloc.flowId_eq, h.flowId_eq]
    · rw [halloc.pool_eq j hj, h.flowId_eq]
  · rw [halloc.lookup_eq] at hf
    split_ifs at hf
    · exact inUse_of_allocates halloc (.inl (Option.some.inj hf).symm)
    · exact inUse_of_allocates halloc (.inr (h.mapped f j hf))
  · rcases halloc.mem_prioQueue p j hj with hmem | heq
    · exact inUse_of_allocates halloc (.inr (h.listed p j hmem))
    · exact inUse_of_allocates halloc (.inl (heq.trans (h.flowId_eq i)))
  · by_cases hj : j = i
    · rw [hj, halloc.qid_eq]
      exact chooseQueue_mayUse hpos hsep h.visit_lt
    · rw [halloc.pool_eq j hj] at hin ⊢
      exact h.mayUse j hin

end Placed

end FlowTable

/-! ### The result -/

namespace QueueOut

/-- The clock is below `UINT64_MAX`. -/
def inTime (_ : QueueOut) (op : Op) : Bool := decide (op.time < 2 ^ 64 - 1)

theorem placed_of_reach {s : QueueOut} (h : Accepted m cdq₀ arg r) (hsep : r.cfg.Separate)
    (hs : Run.ReachIf (call r.cfg) inTime r.state s) : FlowTable.Placed r.cfg s.toFlowTable := by
  have hpos : r.cfg.dataQueues ≠ [] := List.length_pos_iff.1 h.queues.pos
  refine reach_induction (P := FlowTable.Placed r.cfg) ?_ (fun t t' ht => ht.touched) hs ?_
  · intro s op t t' flow i hop ht hget
    exact ht.getFlowState hpos hsep (of_decide_eq_true hop) hget
  · obtain ⟨t, ht, hstate⟩ := Option.map_eq_some_iff.1 h.init_eq
    rw [← hstate]
    exact .setup ht

/-- **Data goes to data queues.**  For every argument that `Init` accepts, with `cdq` or without, in
which the doorbell queue is followed by another one and not named again, and every run of the module
whose clock stays below `UINT64_MAX`: a block in use is on a queue that the module has acquired for
data, and never on the doorbell queue.  The module sends from blocks in use: from those of the
priority lists, and from those that a lookup returns. -/
theorem data_queues_only {s : QueueOut} (h : initModule ports m false arg env = .ok r)
    (hsep : r.cfg.Separate) (hs : Run.ReachIf (call r.cfg) inTime r.state s) :
    (∀ i, (s.flowStatePool i).inUse = true → r.cfg.MayUse (s.flowStatePool i).qid ∧
      r.port.users .out (s.flowStatePool i).qid = some m) ∧
    (∀ p, ∀ i ∈ s.prioQueue p, (s.flowStatePool i).inUse = true) ∧
    ∀ now flow t i, now < 2 ^ 64 - 1 → s.toFlowTable.getFlowState r.cfg now flow = .ok (t, i) →
      r.cfg.MayUse (t.flowStatePool i).qid := by
  have haccept := initModule_eq_ok h
  have hplaced := placed_of_reach haccept hsep hs
  refine ⟨fun i hin => ?_, hplaced.listed, fun now flow t i hnow hget => ?_⟩
  · have hmay := hplaced.mayUse i hin
    exact ⟨hmay, haccept.acquired _ hmay.1⟩
  · have hplaced' := hplaced.getFlowState (List.length_pos_iff.1 haccept.queues.pos) hsep hnow hget
    exact hplaced'.mayUse i (hplaced'.mapped _ i (hplaced.owned.lookup_getFlowState hget))

/-- A port with four queues, which nobody uses. -/
def fourQueues : PortQueues where
  numQueues := fun _ => 4
  users := fun _ _ => none
  queueSize := fun _ => 4
  numQueues_le := fun _ => by decide

/-- Buffers for each flow, a doorbell queue, and the given queues. -/
def cdqArg (qid : List ℕ) : QueueOutArg := ⟨"port", qid, true, true, false, true, false⟩

/-- `Init` of a new module with these queues, then one batch. -/
def firstBatch (qid : List ℕ) : Option (Started × QueueOut) :=
  match initModule (fun _ => some fourQueues) 7 false (cdqArg qid) ⟨true, true⟩ with
  | .error _ => none
  | .ok r => (Run.exec (call r.cfg) inTime r.state
      [.processBatch 5 true [default] (0, 0) 0]).map fun s => (r, s)

theorem reach_of_firstBatch {qid : List ℕ} {s : QueueOut} (h : firstBatch qid = some (r, s)) :
    initModule (fun _ => some fourQueues) 7 false (cdqArg qid) ⟨true, true⟩ = .ok r ∧
      Run.ReachIf (call r.cfg) inTime r.state s := by
  unfold firstBatch at h
  split at h
  · cases h
  · rename_i r' hinit
    obtain ⟨s', hrun, hpair⟩ := Option.map_eq_some_iff.1 h
    cases hpair
    exact ⟨hinit, Run.reachIf_of_exec _ hrun⟩

/-- The first flow on the first queue for data. -/
theorem data_queues_only_first_batch :
    ∃ r s, firstBatch [2, 3] = some (r, s) ∧ (s.flowStatePool 0).inUse = true ∧
      r.port.users .out (s.flowStatePool 0).qid = some 7 := by
  have hrun : ((firstBatch [2, 3]).map fun x => decide ((x.2.flowStatePool 0).inUse = true ∧
      x.1.cfg.cdq = true ∧ x.1.cfg.candidates = [3] ∧ x.1.cfg.doorbellQueueNumber = 2)) =
        some true := by
    decide +kernel
  obtain ⟨⟨r, s⟩, hfirst, hdec⟩ := Option.map_eq_some_iff.1 hrun
  obtain ⟨hin, -, hcand, hdoor⟩ := of_decide_eq_true hdec
  obtain ⟨hinit, hreach⟩ := reach_of_firstBatch hfirst
  have hsep : r.cfg.Separate := fun _ => by
    rw [hcand, hdoor]
    decide
  exact ⟨r, s, hfirst, hin, ((data_queues_only hinit hsep hreach).1 0 hin).2⟩

/-- **A new module accepts `cdq` with one queue**, here queue 1, and then puts the first flow on
queue 0, which it has not acquired.  And if the doorbell queue is named twice, data goes to it. -/
theorem data_queue_misused :
    (∃ r s, initModule (fun _ => some fourQueues) 7 false (cdqArg [1]) ⟨true, true⟩ = .ok r ∧
      Run.ReachIf (call r.cfg) inTime r.state s ∧ (s.flowStatePool 0).inUse = true ∧
      ¬r.cfg.MayUse (s.flowStatePool 0).qid ∧ r.port.users .out (s.flowStatePool 0).qid = none) ∧
    ∃ r s, initModule (fun _ => some fourQueues) 7 false (cdqArg [2, 2]) ⟨true, true⟩ = .ok r ∧
      Run.ReachIf (call r.cfg) inTime r.state s ∧ (s.flowStatePool 0).inUse = true ∧
      (s.flowStatePool 0).qid = r.cfg.doorbellQueueNumber := by
  constructor
  · have hrun : ((firstBatch [1]).map fun x => decide ((x.2.flowStatePool 0).inUse = true ∧
        ¬x.1.cfg.MayUse (x.2.flowStatePool 0).qid ∧
        x.1.port.users .out (x.2.flowStatePool 0).qid = none)) = some true := by
      decide +kernel
    obtain ⟨⟨r, s⟩, hfirst, hdec⟩ := Option.map_eq_some_iff.1 hrun
    obtain ⟨hinit, hreach⟩ := reach_of_firstBatch hfirst
    exact ⟨r, s, hinit, hreach, of_decide_eq_true hdec⟩
  · have hrun : ((firstBatch [2, 2]).map fun x => decide ((x.2.flowStatePool 0).inUse = true ∧
        (x.2.flowStatePool 0).qid = x.1.cfg.doorbellQueueNumber)) = some true := by
      decide +kernel
    obtain ⟨⟨r, s⟩, hfirst, hdec⟩ := Option.map_eq_some_iff.1 hrun
    obtain ⟨hinit, hreach⟩ := reach_of_firstBatch hfirst
    exact ⟨r, s, hinit, hreach, of_decide_eq_true hdec⟩

end QueueOut

end Backdraft

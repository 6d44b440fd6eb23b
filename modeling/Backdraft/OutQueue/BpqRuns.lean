import Backdraft.OutQueue.BpqNetwork

/-!
# What `BPQInc` and `BPQOut` guarantee

Results over all runs of a pipeline of `BPQInc` and `BPQOut` modules on one worker.

* `bpq_lossless`: as long as there are packets for the messages of overload, nothing is dropped;
* `bpq_blocked_iff`: a source is stopped exactly while a `BPQOut` behind it is overloaded;
* `exists_stall`: when no packet is left for the message that the overload is over, an empty
  `BPQOut` stops its sources for ever.
-/

namespace Backdraft.OutQueue.BpqState

open Backpressure Word

variable {V α : Type} [DecidableEq V] [Fintype V] [Inhabited α] {N : BpqNet V α}
  {outs : V → BPQOut V α} {incs : V → IncStats} {s : BpqState V α}

omit [DecidableEq V] [Fintype V] in
theorem contents_of_init {o : BPQOut V α} {stats : QueueStats} {net : State V}
    (h : BPQOut.init kMaxBurst stats net = some o) : o.queue.contents = [] := by
  rw [BPQOut.init] at h
  obtain ⟨st, hst, rfl⟩ := Option.map_eq_some_iff.mp h
  have hnil := (Staged.init_spec hst ⟨10, by decide, rfl⟩ le_rfl).2.1
  rw [Staged.waiting, List.append_eq_nil_iff] at hnil
  exact hnil.2

omit [Fintype V] in
theorem inv_start (h : Made N outs) (incs : V → IncStats) : Inv N outs (start outs incs) [] := by
  have hout : ∀ q, N.isOut q = true → OutInv (N.config q) (outs q) (outs q) := fun q hq => by
    obtain ⟨stats, hinit⟩ := h q hq
    exact OutInv.init hinit
  have hzero (q : V) : ((start outs incs).load N).count q = 0 := by
    simp only [load, start]
    split_ifs with hq
    · obtain ⟨stats, hinit⟩ := h q hq
      rw [contents_of_init hinit, List.length_nil]
    · rfl
  refine ⟨sound_idle, hout, fun q _ => ?_, fun q => ?_⟩
  · rw [hzero]
    exact Nat.zero_le _
  · rw [hzero, Headroom.pending_nil]
    exact Nat.zero_le _

theorem inv_of_reach [DecidableEq α] (h : Made N outs)
    (hreach : Run.ReachIf (step N) (permits N) (start outs incs) s) : Inv N outs s [] :=
  hreach.invariant (inv_start h incs) inv_step

/-- **Nothing is lost.**  Whatever one worker runs, and wherever the modules between bring packets,
without copying or holding them, no `BPQOut` frees a packet, provided there are packets for the
messages of overload: what its port has accepted, then the staged burst, then the ring, are the
packets that came to it, in order. -/
theorem bpq_lossless [DecidableEq α] (h : Made N outs)
    (hreach : Run.ReachIf (step N) (permits N) (start outs incs) s) {q : V}
    (hq : N.isOut q = true) :
    (s.outs q).freed = [] ∧
      (s.outs q).accepted ++ (s.outs q).waiting = (s.outs q).handedIn.map Prod.fst ∧
      ((N.outPort q).selfOutStats = false →
        (s.outs q).stats.dropped = (outs q).stats.dropped) := by
  have hinv := (inv_of_reach h hreach).out q hq
  refine ⟨hinv.freed_eq, ?_, fun hself => ?_⟩
  · rw [hinv.inv.order, BPQOut.kept, List.filter_eq_self.mpr]
    intro x hx
    rw [Bool.not_eq_true']
    by_contra hfreed
    have hmem : x ∈ (s.outs q).handedIn.filter (·.2) :=
      List.mem_filter.mpr ⟨hx, by simpa using hfreed⟩
    have hnil := List.map_eq_nil_iff.mp hinv.freed_eq
    rw [hnil] at hmem
    cases hmem
  · have hdropped := hinv.inv.dropped hself
    rw [hinv.freed_eq] at hdropped
    simpa using hdropped

/-- A `BPQInc`, a module that passes packets on, and a `BPQOut`. -/
def chain : BpqNet (Fin 3) ℕ where
  graph :=
    { igates := fun x =>
        if x.val = 0 then [] else [some ((List.finRange 3).filter fun m => m.val + 1 = x.val)]
      ogates := fun m => (List.finRange 3).filter fun x => m.val + 1 = x.val
      bpqInc := fun x => x.val = 0
      overlayPort := fun _ => false
      propagateWorkers := fun _ => true
      connected := by decide
      bpqInc_igates := by decide }
  isOut q := q.val = 2
  outPort _ := ⟨false, fun _ => 64⟩
  incPort _ := ⟨false, fun _ => 64⟩
  feeds t q := t.val = 0 ∧ q.val = 2
  ogates_out := by decide
  bpqInc_out := by decide
  leads t q h := by
    obtain ⟨ht, hq⟩ := of_decide_eq_true h
    obtain rfl : t = 0 := Fin.ext ht
    obtain rfl : q = 2 := Fin.ext hq
    exact ⟨1, by decide, .single ⟨⟨by decide, by decide, by decide⟩, by decide⟩⟩

/-- The counters of an input queue at the start. -/
def noStats : IncStats := ⟨0, 0, fun _ => 0, fun _ => 0, fun _ => 0⟩

theorem made_chain {o : BPQOut (Fin 3) ℕ}
    (ho : BPQOut.init kMaxBurst ⟨0, 0, 0⟩ State.idle = some o) : Made chain fun _ => o :=
  fun _ _ => ⟨_, ho⟩

theorem exists_init_chain : ∃ o : BPQOut (Fin 3) ℕ,
    BPQOut.init kMaxBurst ⟨0, 0, 0⟩ State.idle = some o :=
  Option.isSome_iff_exists.mp (by decide +kernel)

/-- Three packets come to the `BPQOut` of the chain, and its port takes two of them. -/
theorem bpq_lossless_chain :
    ∃ (o : BPQOut (Fin 3) ℕ) (s : BpqState (Fin 3) ℕ),
      BPQOut.init kMaxBurst ⟨0, 0, 0⟩ State.idle = some o ∧
      Run.ReachIf (step chain) (permits chain) (start (fun _ => o) fun _ => noStats) s ∧
      (s.outs 2).accepted = [7, 8] ∧ (s.outs 2).freed = [] ∧
      [7, 8] ++ (s.outs 2).waiting = (s.outs 2).handedIn.map Prod.fst := by
  have hrun : ∃ (o : BPQOut (Fin 3) ℕ) (s : BpqState (Fin 3) ℕ),
      BPQOut.init kMaxBurst ⟨0, 0, 0⟩ State.idle = some o ∧
      Run.ReachIf (step chain) (permits chain) (start (fun _ => o) fun _ => noStats) s ∧
      decide ((s.outs 2).accepted = [7, 8]) = true :=
    Run.exists_init_reachIf
      [.runInc 0 true [7, 8, 9] [⟨2, ⟨[7, 8, 9], by simp⟩, ⟨true, fun _ => false⟩⟩],
        .runOut 2 (fun _ => 2) fun _ => ⟨true, fun _ => false⟩] (by decide +kernel)
  obtain ⟨o, s, ho, hreach, hsent⟩ := hrun
  have hall := bpq_lossless (made_chain ho) hreach (q := 2) rfl
  rw [of_decide_eq_true hsent] at hall
  exact ⟨o, s, ho, hreach, of_decide_eq_true hsent, hall.1, hall.2.1⟩

/-! ### What stops a source -/

omit [Inhabited α] in
/-- A batch comes to a `BPQOut`, with room or without. -/
theorem Sound.deliver (h : Sound N s.net) {d : Delivery V α} (hq : N.isOut d.module = true) :
    Sound N (s.deliver N d).net := by
  simp only [BpqState.deliver, setOut, BPQOut.processBatch, BPQOut.buffer]
  split_ifs
  · exact (h.signal hq .overload d.message _).1
  · exact h

omit [Inhabited α] in
theorem Sound.foldl_deliver : ∀ (deliveries : List (Delivery V α)) {s : BpqState V α},
    Sound N s.net → (∀ d ∈ deliveries, N.isOut d.module = true) →
    Sound N (deliveries.foldl (BpqState.deliver N) s).net
  | [], _, h, _ => h
  | _ :: deliveries, _, h, hd =>
    Sound.foldl_deliver deliveries (h.deliver (hd _ List.mem_cons_self)) fun e he =>
      hd e (List.mem_cons_of_mem _ he)

/-- A `BPQOut` runs, whatever is in its ring; no other one has another flag then. -/
theorem Sound.runTask {o o' : BPQOut V α} (h : Sound N o.net) {q : V} (hq : N.isOut q = true)
    {accept : ℕ → ℕ} {m : ℕ → Message V} {r : TaskResult}
    (hrun : o.runTask (N.config q) accept m = some (o', r)) :
    Sound N o'.net ∧ ∀ y, N.isOut y = true → y ≠ q → o'.net.overload y = o.net.overload y := by
  obtain ⟨x, hloop, heq⟩ := Option.map_eq_some_iff.mp hrun
  obtain ⟨rfl, -⟩ := Prod.mk.inj heq
  refine sendLoop_invariant (P := fun _ (x : State V × UInt64) => Sound N x.1 ∧
      ∀ y, N.isOut y = true → y ≠ q → x.1.overload y = o.net.overload y)
    (fun _ _ _ _ hx => hx) (fun _ _ hx => hx) (fun k st x hx => ?_) hloop ⟨h, fun _ _ _ => rfl⟩
  unfold BPQOut.fetched
  split_ifs
  · obtain ⟨hsound, hflags⟩ := hx.1.signal hq .underload (m k) x.2
    refine ⟨hsound, fun y hy hne => ?_⟩
    rw [hflags y hy, if_neg fun hcon => hne hcon.1]
    exact hx.2 y hy hne
  · exact hx

theorem Sound.step (s : BpqState V α) (e : Event V α) (s' : BpqState V α) (h : Sound N s.net)
    (he : addresses N e = true) (hstep : BpqState.step N s e = .ok s') : Sound N s'.net := by
  cases e with
  | runInc t adminUp received deliveries =>
    cases hstep
    rw [addresses, List.all_eq_true] at he
    exact Sound.foldl_deliver deliveries h he
  | runOut q accept m =>
    simp only [BpqState.step] at hstep
    split at hstep
    · rename_i o r hrun
      cases hstep
      exact (Sound.runTask (o := s.out q) h he hrun).1
    · cases hstep

/-- **What stops a source.**  On one worker, in a graph without a cycle, and while the overlay is
silent, a source returns without receiving exactly while a `BPQOut` that it leads to, through
modules that propagate signals, is overloaded. -/
theorem bpq_blocked_iff {rank : V → ℕ} (hrank : ∀ m, ∀ x ∈ N.graph.ogates m, rank x < rank m)
    (hreach : Run.ReachIf (step N) (fun _ => addresses N) (start outs incs) s) (t : V) :
    s.net.Blocked t ↔
      ∃ q, N.isOut q = true ∧ Leads N.graph t q ∧ s.net.overload q = true := by
  have hsound : Sound N s.net := Run.ReachIf.invariant (P := fun s : BpqState V α => Sound N s.net)
    hreach sound_idle Sound.step
  rw [hsound.quiet.blocked_iff_exists hsound.exact hrank]
  constructor
  · rintro ⟨q, hdeaf, hleads, hover⟩
    refine ⟨q, ?_, hleads, hover⟩
    by_contra hout
    rw [hsound.under q hdeaf (by simpa using hout)] at hover
    cases hover
  · rintro ⟨q, hout, hleads, hover⟩
    exact ⟨q, N.deaf hout, hleads, hover⟩

/-- A source brings a full batch to a `BPQOut` behind it. -/
def fullBatch (t q : V) : Event V α :=
  .runInc t true (List.replicate kMaxBurst default)
    [⟨q, ⟨List.replicate kMaxBurst default, by simp [kMaxBurst]⟩, ⟨true, fun _ => false⟩⟩]

/-- It does so while it is not stopped; the ring gets above its high water mark, and the module
overloaded, or nothing is signalled. -/
theorem Inv.step_fullBatch [DecidableEq α] (h : Inv N outs s []) {t q : V}
    (hq : N.isOut q = true) (hfeeds : N.feeds t q = true) (hfree : s.net.childrenOverload t ≤ 0) :
    ∃ s', permits N s (fullBatch t q) = true ∧ step N s (fullBatch t q) = .ok s' ∧
      (s'.outs q).queue.contents.length = (s.outs q).queue.contents.length + kMaxBurst ∧
      if (marks V).high q < (s.outs q).queue.contents.length + kMaxBurst then
        s'.net.overload q = true
      else s'.net = s.net := by
  have hbatch : (s.runInc N t true (List.replicate kMaxBurst default)).batch =
      List.replicate kMaxBurst default := by
    rw [BpqState.runInc, batch_bpqIncRunTask, if_neg]
    rintro (hlt | hdown)
    · exact absurd hlt hfree.not_gt
    · cases hdown
  have hunder : (s.outs q).queue.contents.length ≤ (marks V).high q := by
    rw [← count_load hq]
    exact h.under q (h.sound.free hfree q hfeeds)
  let batch : Batch α := ⟨List.replicate kMaxBurst default, by simp [kMaxBurst]⟩
  let m : Message V := ⟨true, fun _ => false⟩
  have hfit : (s.out q).queue.contents.length + batch.pkts.length < bpqQueueSize := by
    rw [List.length_replicate]
    refine lt_of_le_of_lt (Nat.add_le_add_right hunder _) ?_
    show 1024 * 70 / 100 + 32 < 1024
    decide
  have hout : OutInv (N.config q) (outs q) (s.out q) := (h.out q hq).withNet s.net
  obtain ⟨-, hcont, hnet⟩ := hout.processBatch m hfit
  obtain ⟨-, hflags⟩ := Sound.processBatch hq hout h.sound (m := m) rfl hfit
  refine ⟨_, ?_, rfl, ?_, ?_⟩
  · simp only [permits, fullBatch, hbatch, List.flatMap_cons, List.flatMap_nil, List.append_nil]
    simp [hq, hfeeds, List.Subperm.refl]
  · simp only [List.foldl_cons, List.foldl_nil, BpqState.deliver, BpqState.setOut,
      Function.update_self]
    refine (congrArg List.length hcont).trans ?_
    rw [List.length_append, List.length_replicate]
    rfl
  · split_ifs with hhigh
    · refine (hflags q hq).trans ?_
      rw [if_pos rfl]
      have hdec : decide ((marks V).high q < (s.out q).queue.contents.length +
          batch.pkts.length) = true := decide_eq_true (by
            rw [List.length_replicate]
            exact hhigh)
      rw [hdec, Bool.or_true]
    · refine hnet.trans (if_neg fun hlt => hhigh ?_)
      rw [List.length_replicate] at hlt
      exact hlt

/-- Full batches fill the ring, and nothing is signalled before the high water mark. -/
theorem exists_reach_fullBatch [DecidableEq α] (h : Made N outs) (incs : V → IncStats) {t q : V}
    (hq : N.isOut q = true) (hfeeds : N.feeds t q = true) (n : ℕ) :
    n * kMaxBurst ≤ (marks V).high q →
      ∃ s, Run.ReachIf (step N) (permits N) (start outs incs) s ∧ s.net = .idle ∧
        (s.outs q).queue.contents.length = n * kMaxBurst := by
  induction n with
  | zero =>
    intro _
    obtain ⟨stats, hinit⟩ := h q hq
    refine ⟨start outs incs, .refl, rfl, ?_⟩
    rw [Nat.zero_mul, List.length_eq_zero_iff]
    exact contents_of_init hinit
  | succ n ih =>
    intro hn
    obtain ⟨s, hreach, hidle, hlen⟩ := ih ((Nat.mul_le_mul_right _ (Nat.le_succ n)).trans hn)
    have hfree : s.net.childrenOverload t ≤ 0 := by rw [hidle]; exact le_rfl
    obtain ⟨s', hpermits, hstep, hlen', hnet⟩ :=
      (inv_of_reach h hreach).step_fullBatch hq hfeeds hfree
    rw [hlen, ← Nat.succ_mul, if_neg hn.not_gt] at hnet
    exact ⟨s', hreach.tail ⟨_, hpermits, hstep⟩, hnet.trans hidle, by
      rw [hlen', hlen, Nat.succ_mul]⟩

/-- A `BPQOut` gets overloaded by the twenty-third full batch. -/
theorem exists_reach_overload [DecidableEq α] (h : Made N outs) (incs : V → IncStats) {t q : V}
    (hq : N.isOut q = true) (hfeeds : N.feeds t q = true) :
    ∃ s, Run.ReachIf (step N) (permits N) (start outs incs) s ∧ s.net.overload q = true := by
  obtain ⟨s, hreach, hidle, hlen⟩ :=
    exists_reach_fullBatch h incs hq hfeeds 22 (by show 22 * 32 ≤ 1024 * 70 / 100; decide)
  have hfree : s.net.childrenOverload t ≤ 0 := by rw [hidle]; exact le_rfl
  obtain ⟨s', hpermits, hstep, -, hover⟩ := (inv_of_reach h hreach).step_fullBatch hq hfeeds hfree
  rw [hlen, if_pos (by show 1024 * 70 / 100 < 22 * 32 + 32; decide)] at hover
  exact ⟨s', hreach.tail ⟨_, hpermits, hstep⟩, hover⟩

omit [Fintype V] [Inhabited α] in
theorem addresses_of_permits [DecidableEq α] {e : Event V α} (h : permits N s e = true) :
    addresses N e = true := by
  cases e with
  | runInc t adminUp received deliveries =>
    simp only [permits, decide_eq_true_eq] at h
    exact List.all_eq_true.mpr fun d hd => (h.2.2 d hd).1
  | runOut => exact h

/-- A full `BPQOut` stops the source of the chain. -/
theorem bpq_blocked_iff_chain :
    ∃ (o : BPQOut (Fin 3) ℕ) (s : BpqState (Fin 3) ℕ),
      BPQOut.init kMaxBurst ⟨0, 0, 0⟩ State.idle = some o ∧
      Run.ReachIf (step chain) (fun _ => addresses chain) (start (fun _ => o) fun _ => noStats) s ∧
      s.net.Blocked 0 := by
  obtain ⟨o, ho⟩ := exists_init_chain
  obtain ⟨s, hreach, hover⟩ :=
    exists_reach_overload (made_chain ho) (fun _ => noStats) (t := 0) (q := 2) rfl rfl
  have hreach' : Run.ReachIf (step chain) (fun _ => addresses chain)
      (start (fun _ => o) fun _ => noStats) s := hreach.mono fun _ _ => addresses_of_permits
  have hrank : ∀ m, ∀ x ∈ chain.graph.ogates m, 2 - x.val < 2 - m.val := by decide
  exact ⟨o, s, ho, hreach', (bpq_blocked_iff hrank hreach' 0).mpr
    ⟨2, rfl, chain.leads 0 2 rfl, hover⟩⟩

/-! ### A message that is never sent -/

/-- A `BPQOut` with nothing to send, and still overloaded. -/
structure Stalled (N : BpqNet V α) (q : V) (s : BpqState V α) : Prop where
  sound : Sound N s.net
  wf : (s.outs q).toStaged.WF
  overload : s.net.overload q = true
  waiting : (s.outs q).waiting = []

omit [Fintype V] in
/-- The sources of a stalled `BPQOut` hand nothing on. -/
theorem Stalled.batch_eq {q : V} (h : Stalled N q s) {t : V} (ht : N.feeds t q = true) :
    s.net.Blocked t ∧ ∀ adminUp received, (s.runInc N t adminUp received).batch = [] := by
  have hblocked := h.sound.quiet.blocked_of_leads h.sound.exact (N.leads t q ht) h.overload
  refine ⟨hblocked, fun adminUp received => ?_⟩
  rw [BpqState.runInc, batch_bpqIncRunTask, if_pos (.inl hblocked)]

/-- A batch comes to another `BPQOut`. -/
theorem Stalled.deliver {q : V} (h : Stalled N q s) (hq : N.isOut q = true) {d : Delivery V α}
    (hd : N.isOut d.module = true) (hne : q ≠ d.module) : Stalled N q (s.deliver N d) := by
  refine ⟨h.sound.deliver hd, ?_, ?_, ?_⟩
  · simp only [BpqState.deliver, setOut, Function.update_of_ne hne]
    exact h.wf
  · simp only [BpqState.deliver, setOut, BPQOut.processBatch, BPQOut.buffer]
    split_ifs
    · refine ((h.sound.signal hd .overload d.message _).2 q hq).trans ?_
      rw [if_neg fun hcon => hne hcon.1]
      exact h.overload
    · exact h.overload
  · simp only [BpqState.deliver, setOut, Function.update_of_ne hne]
    exact h.waiting

theorem Stalled.foldl_deliver {q : V} (hq : N.isOut q = true) :
    ∀ (deliveries : List (Delivery V α)) {s : BpqState V α}, Stalled N q s →
      (∀ d ∈ deliveries, N.isOut d.module = true ∧ q ≠ d.module) →
      Stalled N q (deliveries.foldl (BpqState.deliver N) s)
  | [], _, h, _ => h
  | d :: deliveries, _, h, hd => by
    obtain ⟨hout, hne⟩ := hd d List.mem_cons_self
    exact Stalled.foldl_deliver hq deliveries (h.deliver hq hout hne) fun e he =>
      hd e (List.mem_cons_of_mem _ he)

/-- With nothing to send the loop of `RunTask` ends in its first round. -/
theorem sendLoop_of_waiting {σ : Type} {st : Staged α} (hwf : st.WF) (hnil : st.waiting = [])
    (accept : ℕ → ℕ) (fetched : ℕ → Staged α → σ → σ) (fuel k : ℕ) (x : σ) (sent : List α) :
    ∃ st', sendLoop accept fetched (fuel + 1) k st x sent = some (st', x, sent) ∧ st'.WF ∧
      st'.waiting = [] := by
  obtain ⟨hstaged, hring⟩ := List.append_eq_nil_iff.mp hnil
  have hcnt : st.cntMbufs = 0 := by
    have hlen := congrArg List.length hstaged
    have hle := hwf.cnt_le
    rw [List.length_take, hwf.length_mbufs, List.length_nil] at hlen
    omega
  obtain ⟨hwf', hwait, hfetch, -, -⟩ := hwf.fetch_spec
  rw [hring, List.length_nil, Nat.min_zero] at hfetch
  refine ⟨st.fetch.1, ?_, hwf', hwait.trans hring⟩
  simp [sendLoop, hcnt, hfetch]

/-- Its own task runs: there is nothing to send, and no signal. -/
theorem Stalled.runOut_self {q : V} (h : Stalled N q s) {accept : ℕ → ℕ} {m : ℕ → Message V}
    {s' : BpqState V α} (hstep : BpqState.step N s (.runOut q accept m) = .ok s') :
    Stalled N q s' := by
  obtain ⟨st, hloop, hwf, hwaiting⟩ := sendLoop_of_waiting h.wf h.waiting accept
    (BPQOut.fetched (N.config q) (s.out q).lowWater m) (s.out q).queue.count 0
    ((s.out q).net, (s.out q).txResume) []
  have hrun : (s.out q).runTask (N.config q) accept m =
      some ({ s.out q with
        toStaged := st
        stats := (N.outPort q).countSent [] (s.outs q).stats
        accepted := (s.outs q).accepted ++ [] }, (N.outPort q).taskResult []) := by
    rw [BPQOut.runTask]
    exact congrArg _ hloop
  simp only [BpqState.step, hrun] at hstep
  cases hstep
  exact ⟨h.sound, by simpa [setOut] using hwf, h.overload, by simpa [setOut] using hwaiting⟩

/-- A stalled `BPQOut` stays so: its sources bring nothing, its own task gives no signal, and the
others signal for themselves. -/
theorem Stalled.step [DecidableEq α] {q : V} (hq : N.isOut q = true) (s : BpqState V α)
    (e : Event V α) (s' : BpqState V α) (h : Stalled N q s) (hcarries : carries N s e = true)
    (hstep : BpqState.step N s e = .ok s') : Stalled N q s' := by
  cases e with
  | runInc t adminUp received deliveries =>
    simp only [carries, decide_eq_true_eq] at hcarries
    cases hstep
    refine Stalled.foldl_deliver hq deliveries ⟨h.sound, h.wf, h.overload, h.waiting⟩ fun d hd => ?_
    obtain ⟨hout, hfeeds, hfrom⟩ := hcarries d hd
    refine ⟨hout, ?_⟩
    rintro rfl
    rw [(h.batch_eq hfeeds).2 adminUp received] at hfrom
    exact d.batch.ne_nil (List.eq_nil_iff_forall_not_mem.mpr fun p hp => nomatch hfrom p hp)
  | runOut r accept m =>
    by_cases hqr : q = r
    · subst hqr
      exact h.runOut_self hstep
    · simp only [BpqState.step] at hstep
      split at hstep
      · rename_i o res hrun
        cases hstep
        obtain ⟨hsound, hothers⟩ := Sound.runTask (o := s.out r) h.sound hcarries hrun
        refine ⟨hsound, ?_, (hothers q hq hqr).trans h.overload, ?_⟩
        · simpa [setOut, Function.update_of_ne hqr] using h.wf
        · simpa [setOut, Function.update_of_ne hqr] using h.waiting
      · cases hstep

/-- The task of a `BPQOut` runs; its port takes all, and no packet is left for a message. -/
def sendAll (q : V) : Event V α :=
  .runOut q (fun _ => kMaxBurst) fun _ => ⟨false, fun _ => false⟩

theorem Inv.exists_stalled (h : Inv N outs s []) {q : V} (hq : N.isOut q = true)
    (hover : s.net.overload q = true) :
    ∃ s', step N s (sendAll q) = .ok s' ∧ Stalled N q s' := by
  have hout : OutInv (N.config q) (outs q) (s.out q) := (h.out q hq).withNet s.net
  have hfuel : (s.out q).queue.contents.length < (s.out q).queue.count + 1 := by
    rw [hout.inv.wf.ring.count_eq]
    omega
  obtain ⟨st, x, sent, hloop, hsends⟩ := sendLoop_spec (fun _ => kMaxBurst)
    (BPQOut.fetched (N.config q) (s.out q).lowWater fun _ => ⟨false, fun _ => false⟩) 0
    ((s.out q).net, (s.out q).txResume) [] hout.inv.wf hfuel
  have hnet : x.1 = s.net := by
    refine sendLoop_invariant (P := fun _ (x : State V × UInt64) => x.1 = s.net)
      (fun _ _ _ _ hx => hx) (fun _ _ hx => hx) (fun k st x hx => ?_) hloop rfl
    simp only [BPQOut.fetched, BPQOut.signal, Bool.false_eq_true, if_false, ite_self]
    exact hx
  have hempty : st.waiting = [] := by
    rcases hsends.ended with ⟨k, hk⟩ | hzero | hnil
    · exact absurd hk (lt_irrefl _)
    · rw [hout.burst_eq] at hzero
      cases hzero
    · exact hnil
  simp only [BpqState.step, sendAll, BPQOut.runTask, hloop, Option.map_some]
  refine ⟨_, rfl, ?_, ?_, ?_, ?_⟩
  · simpa [BpqState.setOut, hnet] using h.sound
  · simpa [BpqState.setOut] using hsends.wf
  · simpa [BpqState.setOut, hnet] using hover
  · simpa [BpqState.setOut] using hempty

/-- **A stall.**  As soon as a source leads to a `BPQOut`, one worker has runs after which the
`BPQOut` has nothing to send, and yet all sources that lead to it are stopped and stay so whatever
it runs: no packet could be allocated for the message that the overload was over, and none is tried
again, also not when packets are there again. -/
theorem exists_stall [DecidableEq α] (h : Made N outs) (incs : V → IncStats) {t q : V}
    (hq : N.isOut q = true) (hfeeds : N.feeds t q = true) :
    ∃ s, Run.ReachIf (step N) (permits N) (start outs incs) s ∧
      ∀ s', Run.ReachIf (step N) (carries N) s s' →
        (s'.outs q).waiting = [] ∧ ∀ t', N.feeds t' q = true → s'.net.Blocked t' ∧
          ∀ adminUp received, (s'.runInc N t' adminUp received).batch = [] := by
  obtain ⟨s₂, hreach₂, hover⟩ := exists_reach_overload h incs hq hfeeds
  obtain ⟨s₃, hstep₃, hstalled⟩ := (inv_of_reach h hreach₂).exists_stalled hq hover
  have hreach₃ := hreach₂.tail ⟨sendAll q, hq, hstep₃⟩
  refine ⟨s₃, hreach₃, fun s' hlater => ?_⟩
  have hlast : Stalled N q s' := hlater.invariant hstalled (Stalled.step hq)
  exact ⟨hlast.waiting, fun t' ht' => hlast.batch_eq ht'⟩

/-- The chain can stall. -/
theorem exists_stall_chain :
    ∃ (o : BPQOut (Fin 3) ℕ) (s : BpqState (Fin 3) ℕ),
      BPQOut.init kMaxBurst ⟨0, 0, 0⟩ State.idle = some o ∧
      Run.ReachIf (step chain) (permits chain) (start (fun _ => o) fun _ => noStats) s ∧
      (s.outs 2).waiting = [] ∧ s.net.Blocked 0 := by
  obtain ⟨o, ho⟩ := exists_init_chain
  obtain ⟨s, hreach, hall⟩ :=
    exists_stall (made_chain ho) (fun _ => noStats) (t := 0) (q := 2) rfl rfl
  exact ⟨o, s, ho, hreach, (hall s .refl).1, ((hall s .refl).2 0 rfl).1⟩

end Backdraft.OutQueue.BpqState

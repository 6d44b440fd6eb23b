import Backdraft.Pipeline.GateInvariant
import Backdraft.Backpressure.Counters

/-!
# What the gates are for

A pipeline is a partial map from output gates to input gates.  The calls of the controller act on
this map, and the pointers between gates represent it: no call fails, and an input gate knows the
output gates that the map sends to it, each once.

* `edge`: the input gate an output gate leads to;
* `Wiring`, `Wiring.step`: the calls, on the map alone;
* `WF.edge_disconnectGate`, `WF.edge_disconnectModulesUpstream`, `WF.edge_destroy`,
  `WF.edge_connectModules`: what the calls do to the map;
* `WF.exists_step`: a call succeeds and keeps the invariant of the gates;
* `exists_run_wiring`: any sequence of calls;
* `toModuleGraph`, `exists_run_childrenOverload`: backpressure on the gates that the calls have
  left.
-/

namespace Backdraft.Gates

variable {V : Type*} [DecidableEq V] {lim : GateLimits V} {s : Gates V}

/-- The module and the index of the input gate that an output gate leads to. -/
def edge (s : Gates V) (m : V) (i : ℕ) : Option (V × ℕ) :=
  (s.ogates m i).bind fun p => (s.ogate p).map fun og => (og.next, og.igateIdx)

omit [DecidableEq V] in
theorem edge_eq_some_iff {m : V} {i : ℕ} {e : V × ℕ} :
    s.edge m i = some e ↔
      ∃ p og, s.ogates m i = some p ∧ s.ogate p = some og ∧ (og.next, og.igateIdx) = e := by
  simp [edge, Option.bind_eq_some_iff]

omit [DecidableEq V] in
theorem Consistent.edge_eq_none_iff (h : Consistent lim s) {m : V} {i : ℕ} :
    s.edge m i = none ↔ s.ogates m i = none := by
  rcases hmi : s.ogates m i with _ | p
  · simp [edge, hmi]
  · obtain ⟨og, hog, -⟩ := h.outs.live hmi
    simp [edge, hmi, hog]

omit [DecidableEq V] in
/-- The output gates that know an input gate are those that lead there. -/
theorem Consistent.mem_upstream_iff (h : Consistent lim s) {q : ℕ} {ig : IGate V}
    (hq : s.igate q = some ig) {p : ℕ} {og : OGate V} (hog : s.ogate p = some og) :
    p ∈ ig.ogatesUpstream ↔ (og.next, og.igateIdx) = (ig.module, ig.gateIdx) := by
  obtain ⟨ig', hig', hmem, hmod, hidx⟩ := h.leads hog
  constructor
  · intro hp
    obtain ⟨og', hog', rfl⟩ := h.upstream hq hp
    obtain rfl : og = og' := by simpa [hog] using hog'
    obtain rfl : ig = ig' := by simpa [hq] using hig'
    rw [hmod, hidx]
  · intro heq
    rw [Prod.mk.injEq] at heq
    have hback := h.ins.listed hig'
    rw [hmod, hidx, heq.1, heq.2, h.ins.listed hq, Option.some.injEq] at hback
    subst hback
    obtain rfl : ig = ig' := by simpa [hq] using hig'
    exact hmem

omit [DecidableEq V] in
/-- An input gate is there when an output gate leads to it. -/
theorem WF.igates_eq_none_iff (h : WF lim s) {x : V} {j : ℕ} :
    s.igates x j = none ↔ ∀ m i, s.edge m i ≠ some (x, j) := by
  constructor
  · intro hnone m i he
    obtain ⟨p, og, -, hog, hxj⟩ := edge_eq_some_iff.mp he
    obtain ⟨ig, hig, -, hmod, hidx⟩ := h.leads hog
    have hback := h.ins.listed hig
    rw [hmod, hidx] at hback
    simp only [Prod.mk.injEq] at hxj
    rw [hxj.1, hxj.2, hnone] at hback
    exact absurd hback (by simp)
  · intro hno
    by_contra hne
    obtain ⟨q, hq⟩ := Option.ne_none_iff_exists'.mp hne
    obtain ⟨ig, hig, rfl, rfl⟩ := h.ins.live hq
    obtain ⟨p, hp⟩ := List.exists_mem_of_ne_nil _ (h.nonempty hig)
    obtain ⟨og, hog, -⟩ := h.upstream hig hp
    exact hno og.module og.gateIdx (edge_eq_some_iff.mpr
      ⟨p, og, h.outs.listed hog, hog, (h.mem_upstream_iff hig hog).mp hp⟩)

omit [DecidableEq V] in
/-- No output gate is behind the end of its vector. -/
theorem WF.edge_eq_none_of_le (h : WF lim s) {m : V} {i : ℕ} (hi : s.ogatesSize m ≤ i) :
    s.edge m i = none := by
  rw [h.edge_eq_none_iff]
  by_contra hne
  obtain ⟨p, hp⟩ := Option.ne_none_iff_exists'.mp hne
  exact absurd (h.outs.lt_size hp) hi.not_gt

omit [DecidableEq V] in
/-- No input gate is behind the end of its vector. -/
theorem WF.lt_igatesSize (h : WF lim s) {m x : V} {i j : ℕ} (he : s.edge m i = some (x, j)) :
    j < s.igatesSize x := by
  have hne : s.igates x j ≠ none := fun hnone => h.igates_eq_none_iff.mp hnone m i he
  obtain ⟨q, hq⟩ := Option.ne_none_iff_exists'.mp hne
  exact h.ins.lt_size hq

/-- The vectors of a module without gates can be emptied. -/
theorem WF.clear (h : WF lim s) {x : V} (hogates : ∀ i, s.ogates x i = none)
    (higates : ∀ j, s.igates x j = none) :
    WF lim { s with ogatesSize := Function.update s.ogatesSize x 0
                    igatesSize := Function.update s.igatesSize x 0 } := by
  refine { h with
    outs := { h.outs with lt_size := fun {m i p} hp => ?_ }
    ins := { h.ins with lt_size := fun {y j q} hq => ?_ }
    igatesSize_le := fun y => ?_ }
  · have hm : m ≠ x := by
      rintro rfl
      simp [hogates] at hp
    simpa [hm] using h.outs.lt_size hp
  · have hy : y ≠ x := by
      rintro rfl
      simp [higates] at hq
    simpa [hy] using h.ins.lt_size hq
  · have := h.igatesSize_le y
    simp only [Function.update_apply]
    split <;> omega

/-! ### Disconnecting -/

omit [DecidableEq V] in
theorem edge_cut (s : Gates V) (gone : List ℕ) (m : V) (i : ℕ) :
    (s.cut gone).edge m i = if ∃ p ∈ gone, s.ogates m i = some p then none else s.edge m i := by
  rcases hmi : s.ogates m i with _ | p
  · simp [edge, cut, hmi]
  · by_cases hp : p ∈ gone
    · simp [edge, cut, hmi, hp, Option.filter_some]
    · simp [edge, cut, hmi, hp, Option.filter_some]

/-- `DisconnectGate` succeeds and takes one output gate out of the map. -/
theorem WF.edge_disconnectGate (h : WF lim s) (m : V) (i : ℕ) :
    ∃ s', s.disconnectGate m i = some s' ∧ WF lim s' ∧ s'.ogatesSize = s.ogatesSize ∧
      s'.edge = fun m' i' => if m' = m ∧ i' = i then none else s.edge m' i' := by
  rcases hmi : s.ogates m i with _ | p
  · refine ⟨s, by simp [disconnectGate, hmi], h, rfl, ?_⟩
    funext m' i'
    split_ifs with heq
    · rw [heq.1, heq.2, h.edge_eq_none_iff.mpr hmi]
    · rfl
  · obtain ⟨og, hog, rfl, rfl⟩ := h.outs.live hmi
    obtain ⟨ig, hig, hmem, -⟩ := h.leads hog
    have hcut : s.cut [p] = (s.setOgates og.module og.gateIdx none).deleteOgate p := by
      have := h.dropUpstream_cut (List.not_mem_nil (a := p)) hog
      simpa [cut_nil, dropUpstream, hog] using this.symm
    have hedge : (s.cut [p]).edge =
        fun m' i' => if m' = og.module ∧ i' = og.gateIdx then none else s.edge m' i' := by
      funext m' i'
      have hplace := @h.outs.live
      simp only [edge_cut, List.mem_singleton, exists_eq_left]
      grind
    by_cases hleft : ig.ogatesUpstream.erase p = []
    · have hall : ig.ogatesUpstream = [p] := by
        have := List.length_erase_of_mem hmem
        rw [hleft, List.length_nil] at this
        obtain ⟨a, ha⟩ := List.length_eq_one_iff.mp (show ig.ogatesUpstream.length = 1 by
          have := List.length_pos_of_mem hmem
          omega)
        rw [ha, List.mem_singleton] at hmem
        rw [ha, hmem]
      have hwf := h.dropIgate hig
      rw [hall] at hwf
      refine ⟨_, ?_, hwf, rfl, hedge⟩
      simp [disconnectGate, hmi, hog, hig, IGate.removeOgate, hmem, hleft, hcut, setIgates,
        deleteIgate, setOgates, deleteOgate]
    · refine ⟨_, ?_, h.detach hog hig hleft, rfl, hedge⟩
      simp [disconnectGate, hmi, hog, hig, IGate.removeOgate, hmem, hleft, hcut, setOgates,
        deleteOgate]

/-- `DisconnectModulesUpstream` succeeds and takes out what leads to one input gate. -/
theorem WF.edge_disconnectModulesUpstream (h : WF lim s) {x : V} {j : ℕ}
    (hj : j < lim.numIGates x) :
    ∃ s', s.disconnectModulesUpstream lim x j = some s' ∧ WF lim s' ∧
      s'.ogatesSize = s.ogatesSize ∧
      s'.edge = fun m i => (s.edge m i).filter (· ≠ (x, j)) := by
  rcases hxj : s.igates x j with _ | q
  · refine ⟨s, by simp [disconnectModulesUpstream, hxj, hj.not_ge], h, rfl, ?_⟩
    funext m i
    have hno := h.igates_eq_none_iff.mp hxj m i
    rcases he : s.edge m i with _ | e
    · simp
    · have : e ≠ (x, j) := fun heq => hno (heq ▸ he)
      simp [Option.filter_some, this]
  · obtain ⟨ig, hig, rfl, rfl⟩ := h.ins.live hxj
    have hloop := h.foldlM_dropUpstream ig.ogatesUpstream [] (by simpa using h.nodup hig)
      fun p hp => (h.upstream hig hp).imp fun _ hog => hog.1
    rw [cut_nil, List.nil_append] at hloop
    refine ⟨_, by simp [disconnectModulesUpstream, hxj, hj.not_ge, hig, hloop],
      h.dropIgate hig, rfl, ?_⟩
    funext m i
    rw [show
      (((s.cut ig.ogatesUpstream).setIgates ig.module ig.gateIdx none).deleteIgate q).edge m i
        = (s.cut ig.ogatesUpstream).edge m i from rfl, edge_cut]
    rcases hmi : s.ogates m i with _ | p
    · simp [edge, hmi]
    · obtain ⟨og, hog, -⟩ := h.outs.live hmi
      have hiff := h.mem_upstream_iff hig hog
      by_cases hp : p ∈ ig.ogatesUpstream
      · simp [edge, hmi, hog, hp, Option.filter_some, hiff.mp hp]
      · have hne := mt hiff.mpr hp
        simp [edge, hmi, hog, hp, Option.filter_some, hne]

/-- The first loop of `Destroy`. -/
theorem WF.edge_upstreamLoop (x : V) :
    ∀ {s : Gates V} (_ : WF lim s) (js : List ℕ), (∀ j ∈ js, j < lim.numIGates x) →
      ∃ s', js.foldlM (fun s j => s.disconnectModulesUpstream lim x j) s = some s' ∧ WF lim s' ∧
        s'.edge = fun m i => (s.edge m i).filter fun e => ¬ (e.1 = x ∧ e.2 ∈ js)
  | s, h, [], _ => by
    refine ⟨s, rfl, h, ?_⟩
    funext m i
    cases s.edge m i <;> simp [Option.filter_some]
  | s, h, j :: js, hjs => by
    obtain ⟨s₁, h₁, hwf₁, -, hedge₁⟩ :=
      h.edge_disconnectModulesUpstream (hjs j List.mem_cons_self)
    obtain ⟨s₂, h₂, hwf₂, hedge₂⟩ :=
      WF.edge_upstreamLoop x hwf₁ js fun k hk => hjs k (List.mem_cons_of_mem _ hk)
    refine ⟨s₂, by simp [h₁, h₂], hwf₂, ?_⟩
    funext m i
    simp only [hedge₂, hedge₁]
    rcases s.edge m i with _ | ⟨y, k⟩
    · rfl
    · simp only [Option.filter_some]
      grind

/-- The second loop of `Destroy`. -/
theorem WF.edge_downstreamLoop (x : V) :
    ∀ {s : Gates V} (_ : WF lim s) (is : List ℕ),
      ∃ s', is.foldlM (fun s i => s.disconnectGate x i) s = some s' ∧ WF lim s' ∧
        s'.edge = fun m i => if m = x ∧ i ∈ is then none else s.edge m i
  | s, h, [] => ⟨s, rfl, h, by simp⟩
  | s, h, i :: is => by
    obtain ⟨s₁, h₁, hwf₁, -, hedge₁⟩ := h.edge_disconnectGate x i
    obtain ⟨s₂, h₂, hwf₂, hedge₂⟩ := WF.edge_downstreamLoop x hwf₁ is
    refine ⟨s₂, by simp [h₁, h₂], hwf₂, ?_⟩
    funext m k
    simp only [hedge₂, hedge₁]
    grind

/-- `DestroyModule` succeeds and takes out what leads to or from a module. -/
theorem WF.edge_destroyModule (h : WF lim s) (x : V) :
    ∃ s', s.destroyModule lim x = some s' ∧ WF lim s' ∧
      s'.edge = fun m i => if m = x then none else (s.edge m i).filter fun e => e.1 ≠ x := by
  obtain ⟨s₁, h₁, hwf₁, hedge₁⟩ := WF.edge_upstreamLoop x h (List.range (s.igatesSize x))
    fun j hj => (List.mem_range.mp hj).trans_le (h.igatesSize_le x)
  obtain ⟨s₂, h₂, hwf₂, hedge₂⟩ := WF.edge_downstreamLoop x hwf₁ (List.range (s₁.ogatesSize x))
  -- no gate is behind the end of a vector, so that the loops meet all of them
  have hedge : s₂.edge =
      fun m i => if m = x then none else (s.edge m i).filter fun e => e.1 ≠ x := by
    funext m i
    simp only [hedge₂, List.mem_range]
    by_cases hm : m = x
    · by_cases hi : i < s₁.ogatesSize x
      · simp [hm, hi]
      · simp [hm, hi, hwf₁.edge_eq_none_of_le (not_lt.mp hi)]
    · simp only [hm, false_and, if_false, hedge₁, List.mem_range]
      rcases he : s.edge m i with _ | ⟨y, j⟩
      · rfl
      · have hlt := h.lt_igatesSize he
        simp only [Option.filter_some]
        grind
  have hogates (i : ℕ) : s₂.ogates x i = none := by
    rw [← hwf₂.edge_eq_none_iff, hedge]
    simp
  have higates (j : ℕ) : s₂.igates x j = none := by
    rw [hwf₂.igates_eq_none_iff, hedge]
    intro m i
    simp only
    split_ifs with hm
    · simp
    · simp [Option.filter_eq_some_iff]
  have hogates' : Function.update s₂.ogates x (fun _ => none) = s₂.ogates := by
    rw [← funext hogates, Function.update_eq_self]
  have higates' : Function.update s₂.igates x (fun _ => none) = s₂.igates := by
    rw [← funext higates, Function.update_eq_self]
  exact ⟨_, by simp [destroyModule, destroy, h₁, h₂, hogates', higates'],
    hwf₂.clear hogates higates, hedge⟩

/-! ### Connecting -/

/-- The input gate is there after it was looked for, and nothing else has changed. -/
structure Found (s : Gates V) (x : V) (j : ℕ) (r : Gates V × ℕ) : Prop where
  ogate : r.1.ogate = s.ogate
  ogates : r.1.ogates = s.ogates
  ogatesSize : r.1.ogatesSize = s.ogatesSize
  igate : ∀ q ≠ r.2, r.1.igate q = s.igate q
  found : ∃ ig, r.1.igate r.2 = some ig ∧ ig.module = x ∧ ig.gateIdx = j

theorem Consistent.found_findIgate (h : Consistent lim s) (x : V) (j : ℕ) :
    Found s x j (s.findIgate x j) := by
  rcases hxj : s.igates x j with _ | q
  · simp only [findIgate, hxj]
    refine ⟨rfl, rfl, rfl, fun q hq => ?_, ⟨x, j, [], false⟩, ?_, rfl, rfl⟩
    · exact Function.update_of_ne hq _ _
    · exact Function.update_self _ _ _
  · simp only [findIgate, hxj]
    exact ⟨rfl, rfl, rfl, fun _ _ => rfl, h.ins.live hxj⟩

/-- `ConnectGate` succeeds, and enters an output gate that is free. -/
theorem WF.edge_connectGate (h : WF lim s) (m : V) (i : ℕ) {x : V} {j : ℕ}
    (hj : j < lim.numIGates x) (hfree : s.ogates m i = none) :
    ∃ s', s.connectGate m i x j = some (s', 0) ∧ WF lim s' ∧
      s'.edge = fun m' i' => if m' = m ∧ i' = i then some (x, j) else s.edge m' i' := by
  have hgrow := h.toConsistent.grow m i hj
  have hi : i < (s.grow m i x j).ogatesSize m := by
    simp [grow]
  have hj' : j < (s.grow m i x j).igatesSize x := by
    simp [grow]
  obtain ⟨hogate, hogates, hsize, higate, ig, hig, rfl, rfl⟩ := hgrow.found_findIgate x j
  have hcons :
      Consistent lim ((s.grow m i ig.module ig.gateIdx).findIgate ig.module ig.gateIdx).1 := by
    rcases hxj : s.igates ig.module ig.gateIdx with _ | q
    · exact hgrow.addIgate hxj hj'
    · rw [findIgate, show (s.grow m i ig.module ig.gateIdx).igates ig.module ig.gateIdx = some q
        from hxj]
      exact hgrow
  generalize hr : (s.grow m i ig.module ig.gateIdx).findIgate ig.module ig.gateIdx = r at *
  have hfree' : r.1.ogates m i = none := by
    rw [hogates]
    exact hfree
  refine ⟨_, by simp only [connectGate, hfree, hr, hig, Option.isSome_none, Bool.false_eq_true,
    if_false, Option.map_some], ⟨hcons.attach hfree' (by rw [hsize]; exact hi) hig, ?_⟩, ?_⟩
  · intro q ig' hq
    simp only [Function.update_apply] at hq
    split_ifs at hq with hqr
    · obtain rfl := Option.some.inj hq
      simp [IGate.pushOgate]
    · rw [higate q hqr] at hq
      exact h.nonempty hq
  · funext m' i'
    have hlt := @hcons.outs.lt_fresh
    have hplace := @hcons.outs.live
    simp only [edge, setOgates]
    split_ifs with heq
    · simp
    · rw [hogates] at hplace ⊢
      rcases hmi : s.ogates m' i' with _ | p
      · rw [show (s.grow m i ig.module ig.gateIdx).ogates m' i' = none from hmi]
        rfl
      · obtain ⟨og, hog, -⟩ := hplace hmi
        have hp := (hlt hog).ne
        rw [show (s.grow m i ig.module ig.gateIdx).ogates m' i' = some p from hmi]
        simp [Function.update_of_ne hp, hogate, grow]

/-! ### Runs -/

/-- A pipeline: where each output gate leads. -/
abbrev Wiring (V : Type*) := V → ℕ → Option (V × ℕ)

/-- What a call of the controller is to do. -/
def Wiring.step (lim : GateLimits V) (w : Wiring V) : Call V → Wiring V
  | .connect m i x j =>
    if i < lim.numOGates m ∧ i < maxGates ∧ j < lim.numIGates x ∧ j < maxGates ∧ w m i = none then
      fun m' i' => if m' = m ∧ i' = i then some (x, j) else w m' i'
    else w
  | .disconnect m i =>
    if i < lim.numOGates m then fun m' i' => if m' = m ∧ i' = i then none else w m' i' else w
  | .destroy x => fun m i => if m = x then none else (w m i).filter fun e => e.1 ≠ x

/-- A call succeeds, keeps the invariant and acts on the map as it is to. -/
theorem WF.exists_step (h : WF lim s) (call : Call V) :
    ∃ s', s.step lim call = some s' ∧ WF lim s' ∧ s'.edge = Wiring.step lim s.edge call := by
  cases call with
  | connect m i x j =>
    simp only [step, connectModules, Wiring.step]
    split_ifs with hi hall hj hall hall
    · omega
    · exact ⟨s, rfl, h, rfl⟩
    · omega
    · exact ⟨s, rfl, h, rfl⟩
    · obtain ⟨s', hs', hwf, hedge⟩ :=
        h.edge_connectGate m i (x := x) (j := j) (by omega) (h.edge_eq_none_iff.mp hall.2.2.2.2)
      exact ⟨s', by rw [hs']; rfl, hwf, hedge⟩
    · have hbusy : (s.ogates m i).isSome := by
        rw [Option.isSome_iff_ne_none, ne_eq, ← h.edge_eq_none_iff]
        intro hnone
        exact hall ⟨by omega, by omega, by omega, by omega, hnone⟩
      exact ⟨s, by simp [connectGate, hbusy], h, rfl⟩
  | disconnect m i =>
    simp only [step, disconnectModule, Wiring.step]
    split_ifs with hi hi' hi'
    · omega
    · exact ⟨s, rfl, h, rfl⟩
    · obtain ⟨s', hs', hwf, -, hedge⟩ := h.edge_disconnectGate m i
      exact ⟨s', by simp [hs'], hwf, hedge⟩
    · omega
  | destroy x => exact h.edge_destroyModule x

theorem WF.exists_run : ∀ {s : Gates V} (_ : WF lim s) (calls : List (Call V)),
    ∃ s', s.run lim calls = some s' ∧ WF lim s' ∧
      s'.edge = calls.foldl (Wiring.step lim) s.edge
  | s, h, [] => ⟨s, rfl, h, rfl⟩
  | s, h, call :: calls => by
    obtain ⟨s₁, h₁, hwf₁, hedge₁⟩ := h.exists_step call
    obtain ⟨s₂, h₂, hwf₂, hedge₂⟩ := WF.exists_run hwf₁ calls
    refine ⟨s₂, ?_, hwf₂, ?_⟩
    · simpa [run, h₁] using h₂
    · rw [hedge₂, hedge₁, List.foldl_cons]

/-- The output gates that an input gate knows, with their modules. -/
def sources (s : Gates V) (x : V) (j : ℕ) : List (V × ℕ) :=
  match (s.igates x j).bind s.igate with
  | none => []
  | some ig =>
    ig.ogatesUpstream.filterMap fun p => (s.ogate p).map fun og => (og.module, og.gateIdx)

omit [DecidableEq V] in
theorem WF.mem_sources_iff (h : WF lim s) {x : V} {j : ℕ} {m : V} {i : ℕ} :
    (m, i) ∈ s.sources x j ↔ s.edge m i = some (x, j) := by
  rcases hxj : s.igates x j with _ | q
  · simp [sources, hxj, h.igates_eq_none_iff.mp hxj m i]
  · obtain ⟨ig, hig, rfl, rfl⟩ := h.ins.live hxj
    simp only [sources, hxj, Option.bind_some, hig, List.mem_filterMap, Option.map_eq_some_iff,
      Prod.mk.injEq, edge_eq_some_iff]
    constructor
    · rintro ⟨p, hp, og, hog, rfl, rfl⟩
      exact ⟨p, og, h.outs.listed hog, hog, Prod.mk.injEq .. ▸ (h.mem_upstream_iff hig hog).mp hp⟩
    · rintro ⟨p, og, hmi, hog, hxj'⟩
      obtain ⟨og', hog', rfl, rfl⟩ := h.outs.live hmi
      obtain rfl : og = og' := by simpa [hog] using hog'
      exact ⟨p, (h.mem_upstream_iff hig hog).mpr (Prod.ext hxj'.1 hxj'.2), og, hog, rfl, rfl⟩

omit [DecidableEq V] in
theorem WF.nodup_sources (h : WF lim s) (x : V) (j : ℕ) : (s.sources x j).Nodup := by
  rcases hxj : s.igates x j with _ | q
  · simp [sources, hxj]
  · obtain ⟨ig, hig, -⟩ := h.ins.live hxj
    simp only [sources, hxj, Option.bind_some, hig]
    refine (h.nodup hig).filterMap ?_
    -- two output gates at one place of a vector are one
    intro p p' e hp hp'
    obtain ⟨og, hog, rfl⟩ := Option.map_eq_some_iff.mp hp
    obtain ⟨og', hog', heq⟩ := Option.map_eq_some_iff.mp hp'
    rw [Prod.mk.injEq] at heq
    have := h.outs.listed hog'
    rw [heq.1, heq.2, h.outs.listed hog, Option.some.injEq] at this
    exact this

/-- Whatever the controller does, no call follows a pointer to a deleted gate or fails a `CHECK` of
the gate functions, the output gates lead where the calls have put them, and an input gate knows the
output gates that lead to it, each once. -/
theorem exists_run_wiring (lim : GateLimits V) (calls : List (Call V)) :
    ∃ s, (empty : Gates V).run lim calls = some s ∧
      s.edge = calls.foldl (Wiring.step lim) (fun _ _ => none) ∧
      ∀ x j, (s.sources x j).Nodup ∧ ∀ m i, (m, i) ∈ s.sources x j ↔ s.edge m i = some (x, j) := by
  have hempty : WF lim (empty : Gates V) := wf_empty
  obtain ⟨s, hrun, hwf, hedge⟩ := hempty.exists_run calls
  exact ⟨s, hrun, hedge, fun x j => ⟨hwf.nodup_sources x j, fun m i => hwf.mem_sources_iff⟩⟩

/-! ### The graph that backpressure runs on -/

/-- The modules that the output gates of a module lead to. -/
def nextModules (s : Gates V) (m : V) : List V :=
  (List.range (s.ogatesSize m)).filterMap fun i => (s.edge m i).map Prod.fst

/-- The modules before the input gates of a module. -/
def prevModules (s : Gates V) (x : V) : List (Option (List V)) :=
  (List.range (s.igatesSize x)).map fun j =>
    if (s.igates x j).isSome then some ((s.sources x j).map Prod.fst) else none

omit [DecidableEq V] in
theorem flatten_prevModules (s : Gates V) (x : V) :
    ((s.prevModules x).filterMap id).flatten =
      ((List.range (s.igatesSize x)).flatMap (s.sources x)).map Prod.fst := by
  rw [prevModules]
  induction List.range (s.igatesSize x) with
  | nil => rfl
  | cons j js ih =>
    rcases hj : s.igates x j with _ | q
    · have : s.sources x j = [] := by simp [sources, hj]
      simpa [hj, this] using ih
    · simpa [hj] using ih

omit [DecidableEq V] in
theorem WF.nodup_flatMap_sources (h : WF lim s) (x : V) (js : List ℕ) (hjs : js.Nodup) :
    (js.flatMap (s.sources x)).Nodup := by
  refine List.nodup_flatMap.mpr ⟨fun j _ => h.nodup_sources x j, ?_⟩
  refine hjs.imp fun {j k} hjk => ?_
  rintro ⟨m, i⟩ hj hk
  rw [h.mem_sources_iff] at hj hk
  simp [hj] at hk
  exact hjk hk

/-- A module leads to another one as often as the other one knows it. -/
theorem WF.count_nextModules (h : WF lim s) (m x : V) :
    (s.nextModules m).count x = ((s.prevModules x).filterMap id).flatten.count m := by
  have hperm : (((List.range (s.igatesSize x)).flatMap (s.sources x)).filter (·.1 == m)).Perm
      (((List.range (s.ogatesSize m)).filter fun i => (s.edge m i).map Prod.fst == some x).map
        (m, ·)) := by
    refine (List.perm_ext_iff_of_nodup ((h.nodup_flatMap_sources x _ List.nodup_range).filter _)
      ((List.nodup_range.filter _).map (Prod.mk_right_injective m))).mpr ?_
    rintro ⟨n, i⟩
    simp only [List.mem_filter, List.mem_flatMap, List.mem_range, h.mem_sources_iff,
      beq_iff_eq, List.mem_map, Option.map_eq_some_iff, Prod.mk.injEq]
    constructor
    · rintro ⟨⟨j, -, he⟩, rfl⟩
      obtain ⟨p, -, hp, -⟩ := edge_eq_some_iff.mp he
      exact ⟨i, ⟨h.outs.lt_size hp, (x, j), he, rfl⟩, rfl, rfl⟩
    · rintro ⟨i, ⟨-, ⟨_, j⟩, he, rfl⟩, rfl, rfl⟩
      refine ⟨⟨j, ?_, he⟩, rfl⟩
      have hne : s.igates _ j ≠ none := fun hnone => h.igates_eq_none_iff.mp hnone _ _ he
      obtain ⟨q, hq⟩ := Option.ne_none_iff_exists'.mp hne
      exact h.ins.lt_size hq
  have hlen := hperm.length_eq
  rw [List.length_map] at hlen
  rw [← List.countP_eq_length_filter, ← List.countP_eq_length_filter] at hlen
  rw [flatten_prevModules, nextModules, List.count_filterMap, List.count, List.countP_map]
  exact hlen.symm

/-- The graph of a pipeline, for backpressure.  `BPQInc` has no input gates. -/
def toModuleGraph (s : Gates V) (h : WF lim s) (bpqInc overlayPort propagateWorkers : V → Bool)
    (hinc : ∀ x, bpqInc x = true → lim.numIGates x = 0) : Backpressure.ModuleGraph V where
  igates := s.prevModules
  ogates := s.nextModules
  bpqInc := bpqInc
  overlayPort := overlayPort
  propagateWorkers := propagateWorkers
  connected := h.count_nextModules
  bpqInc_igates x hx := by
    have hsize : s.igatesSize x = 0 := Nat.le_zero.mp (hinc x hx ▸ h.igatesSize_le x)
    simp [prevModules, hsize]

omit [DecidableEq V] in
theorem countP_nextModules (s : Gates V) (overload : V → Bool) (m : V) :
    (s.nextModules m).countP overload =
      (List.range (s.ogatesSize m)).countP fun i => (s.edge m i).any fun e => overload e.1 := by
  rw [nextModules, List.countP_filterMap]
  refine congrFun (congrArg _ (funext fun i => ?_)) _
  cases s.edge m i <;> rfl

/-- **Backpressure on what the controller has connected.**  Whatever the calls, and whatever signals
with packets and underloads come after them, `children_overload_` of a module is the number of its
output gates that the calls have left connected to an overloaded module. -/
theorem exists_run_childrenOverload [Fintype V] (lim : GateLimits V) (calls : List (Call V))
    {bpqInc : V → Bool} (overlayPort propagateWorkers : V → Bool)
    (hinc : ∀ x, bpqInc x = true → lim.numIGates x = 0) :
    ∃ (s : Gates V) (h : WF lim s), (empty : Gates V).run lim calls = some s ∧
      ∀ signals : List (Backpressure.Call V), (∀ c ∈ signals, c.load = .underload ∨ c.pkt = true) →
        ∀ t, t = Backpressure.after
            (s.toModuleGraph h bpqInc overlayPort propagateWorkers hinc) signals →
          ∀ m, t.childrenOverload m = (List.range (s.ogatesSize m)).countP fun i =>
            (calls.foldl (Wiring.step lim) (fun _ _ => none) m i).any fun e => t.overload e.1 := by
  obtain ⟨s, hrun, hwf, hedge⟩ := (wf_empty : WF lim (empty : Gates V)).exists_run calls
  refine ⟨s, hwf, hrun, fun signals hsignals t ht m => ?_⟩
  have hexact := Backpressure.exact_of_no_overlay_overload
    (s.toModuleGraph hwf bpqInc overlayPort propagateWorkers hinc) signals hsignals m
  have hedge' : s.edge = calls.foldl (Wiring.step lim) fun _ _ => none := hedge
  rw [ht, hexact, ← hedge']
  exact congrArg _ (countP_nextModules s _ m)

end Backdraft.Gates

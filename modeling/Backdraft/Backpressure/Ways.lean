import Backdraft.Backpressure.Packets

/-!
# Backpressure: the ways of a pause or resume packet

Where a packet comes to is decided before the call, by the order of the gates, the flags and the
counters: a gate that the signal passes tells the module behind it when the counter of that
module, changed once for every gate of it that was passed, comes to the value at which the signal
goes on.

* `tells`, `moves`: what a gate and a module do when certain gates have been passed;
* `Way`: the signal passes gates, and at most one module on the way consumes the packet;
* `ConsumesOnce`: exactly one module does, for a call on a given module;
* `Follows`: the state in the middle of a call, told by the state before it and the gates passed;
* `consumed_once_iff`: the calls that consume a packet exactly once.

A gate is written as a pair: `(x, m)` leads from the module `m` to the module `x`.
-/

namespace Backdraft.Backpressure

variable {V : Type*} [DecidableEq V]

section Ways

variable (g : ModuleGraph V) (l : Load) (s : State V)

/-- `children_overload_` of `m` when the signal has passed the gates `p`. -/
def countAfter (p : List (V × V)) (m : V) : ℤ :=
  s.childrenOverload m + l.delta * (p.map Prod.snd).count m

/-- The next gate of `m` that is passed makes the signal go on to `m`. -/
def tells (p : List (V × V)) (m : V) : Bool :=
  g.propagateWorkers m && decide (countAfter l s p m + l.delta = l.turn)

/-- The signal does not end at `x`: it is no `BPQInc`, none of the gates passed leads to it, and
its flags change. -/
def moves (p : List (V × V)) (x : V) : Bool :=
  !g.bpqInc x && decide (x ∉ p.map Prod.fst) &&
    decide ((getBackpressureState (s.flags x) (l.action true)).2 ≠ -1)

/-- After the gates `p` the signal passes the gates of `gates` that lead to `x`, and all those it
comes to from there, in this order; then the gates `p'` have been passed.  The index is `none` when
no module was told, and else says whether one of the modules where the signal ended has consumed
the packet; two never have. -/
inductive Way : Option Bool → List (V × V) → V → List V → List (V × V) → Prop
  | nil (p : List (V × V)) (x : V) : Way none p x [] p
  | passed {o : Option Bool} {p q : List (V × V)} {x m : V} {gates : List V} :
    Way o p x gates q → tells g l s q m = false → Way o p x (gates ++ [m]) (q ++ [(x, m)])
  | ended {o : Option Bool} {p q : List (V × V)} {x m : V} {gates : List V} :
    Way o p x gates q → tells g l s q m = true → moves g l s (q ++ [(x, m)]) m = false →
    (alreadySignalled g l s m = false → o ≠ some true) →
    Way (some (!alreadySignalled g l s m || o == some true)) p x (gates ++ [m]) (q ++ [(x, m)])
  | onward {o o' : Option Bool} {p q q' : List (V × V)} {x m : V} {gates : List V} :
    Way o p x gates q → tells g l s q m = true → moves g l s (q ++ [(x, m)]) m = true →
    Way o' (q ++ [(x, m)]) m (g.upstream m) q' → (o' ≠ some false → o ≠ some true) →
    Way (some (o' != some false || o == some true)) p x (gates ++ [m]) q'

/-- A packet given to `v` is consumed exactly once: `v` is where the signal ends, and is no `BPQInc`
that was in that state before; or one module on the way from `v` consumes it, or `v` itself, when
no other module is told. -/
def ConsumesOnce (v : V) : Prop :=
  if moves g l s [] v then ∃ o p, Way g l s o [] v (g.upstream v) p ∧ o ≠ some false
  else alreadySignalled g l s v = false

end Ways

variable {g : ModuleGraph V} {l : Load} {s t : State V} {p q : List (V × V)} {v m x : V}

/-! ### The last gate of a way -/

theorem way_nil_iff {o : Option Bool} : Way g l s o p x [] q ↔ o = none ∧ q = p := by
  constructor
  · intro h
    generalize hgates : ([] : List V) = gates at h
    cases h with
    | nil => exact ⟨rfl, rfl⟩
    | passed | ended | onward => exact absurd hgates (by simp)
  · rintro ⟨rfl, rfl⟩
    exact .nil q x

/-- The last gate: it tells nobody, or a module where the signal ends, or one from which it goes
on. -/
theorem way_concat_iff {o : Option Bool} {gates : List V} :
    Way g l s o p x (gates ++ [m]) q ↔ ∃ o₁ q₁, Way g l s o₁ p x gates q₁ ∧
      (tells g l s q₁ m = false ∧ o = o₁ ∧ q = q₁ ++ [(x, m)] ∨
        tells g l s q₁ m = true ∧ moves g l s (q₁ ++ [(x, m)]) m = false ∧
          (alreadySignalled g l s m = false → o₁ ≠ some true) ∧
          o = some (!alreadySignalled g l s m || o₁ == some true) ∧ q = q₁ ++ [(x, m)] ∨
        tells g l s q₁ m = true ∧ moves g l s (q₁ ++ [(x, m)]) m = true ∧
          ∃ o₂, Way g l s o₂ (q₁ ++ [(x, m)]) m (g.upstream m) q ∧
            (o₂ ≠ some false → o₁ ≠ some true) ∧
            o = some (o₂ != some false || o₁ == some true)) := by
  constructor
  · intro h
    generalize hgates : gates ++ [m] = all at h
    cases h with
    | nil => exact absurd hgates (by simp)
    | passed hway htells =>
      obtain ⟨rfl, hlast⟩ := List.append_inj' hgates rfl
      cases hlast
      exact ⟨_, _, hway, .inl ⟨htells, rfl, rfl⟩⟩
    | ended hway htells hmoves honce =>
      obtain ⟨rfl, hlast⟩ := List.append_inj' hgates rfl
      cases hlast
      exact ⟨_, _, hway, .inr (.inl ⟨htells, hmoves, honce, rfl, rfl⟩)⟩
    | onward hway htells hmoves hnext honce =>
      obtain ⟨rfl, hlast⟩ := List.append_inj' hgates rfl
      cases hlast
      exact ⟨_, _, hway, .inr (.inr ⟨htells, hmoves, _, hnext, honce, rfl⟩)⟩
  · rintro ⟨o₁, q₁, hway, ⟨htells, rfl, rfl⟩ | ⟨htells, hmoves, honce, rfl, rfl⟩ |
      ⟨htells, hmoves, o₂, hnext, honce, rfl⟩⟩
    · exact .passed hway htells
    · exact .ended hway htells hmoves honce
    · exact .onward hway htells hmoves hnext honce

/-! ### The state in the middle of a call -/

/-- The state `t`, in which the module `v` is at work, comes from `s` by a signal that has passed
the gates `p`.  A module that may still be told has its flags from before the call, unless the
signal has come from it. -/
structure Follows (g : ModuleGraph V) (l : Load) (s : State V) (p : List (V × V)) (v : V)
    (t : State V) : Prop where
  count : ∀ m, t.childrenOverload m = countAfter l s p m
  source : ∀ x ≠ v, g.bpqInc x = true → l.Pending (t.childrenOverload x) →
    t.overload x = s.overload x
  fresh : ∀ x ≠ v, g.bpqInc x = false → l.Pending (t.childrenOverload x) →
    x ∉ p.map Prod.fst → t.flags x = s.flags x
  again : ∀ x, g.bpqInc x = false → x ∈ p.map Prod.fst →
    (getBackpressureState (t.flags x) (l.action true)).2 = -1

/-- The module that is called has its flags from before the call, unless the signal has come from
it. -/
structure Own (g : ModuleGraph V) (s : State V) (p : List (V × V)) (v : V) (t : State V) :
    Prop where
  source : g.bpqInc v = true → t.overload v = s.overload v
  fresh : g.bpqInc v = false → v ∉ p.map Prod.fst → t.flags v = s.flags v

theorem countAfter_concat (l : Load) (s : State V) (p : List (V × V)) (x m y : V) :
    countAfter l s (p ++ [(x, m)]) y = countAfter l s p y + if y = m then l.delta else 0 := by
  unfold countAfter
  rw [List.map_append, List.map_singleton, List.count_append]
  by_cases hy : y = m
  · subst hy
    simp
    ring
  · simp [hy, Ne.symm hy]

/-- A module moves exactly if its flags do. -/
theorem moves_iff (hf : Follows g l s p v t) (ho : Own g s p v t) :
    moves g l s p v = true ↔
      g.bpqInc v = false ∧ (getBackpressureState (t.flags v) (l.action true)).2 ≠ -1 := by
  simp only [moves, Bool.and_eq_true, Bool.not_eq_true', decide_eq_true_eq, and_assoc]
  refine and_congr_right fun hv => ?_
  by_cases hmem : v ∈ p.map Prod.fst
  · simp [hmem, hf.again v hv hmem]
  · rw [ho.fresh hv hmem]
    simp only [hmem, not_false_eq_true, true_and]

theorem tells_iff (hf : Follows g l s p v t) :
    tells g l s p m = true ↔
      g.propagateWorkers m = true ∧ t.childrenOverload m + l.delta = l.turn := by
  rw [tells, Bool.and_eq_true, decide_eq_true_eq, hf.count m]

/-- A local signal is ignored by a module to which it comes again. -/
theorem getBackpressureState_again (f : Flags) (l : Load) :
    (getBackpressureState (getBackpressureState f (l.action true)).1 (l.action true)).2 = -1 := by
  obtain ⟨o, r⟩ := f
  cases l <;> cases o <;> cases r <;> rfl

/-- The flags of other modules stay when those of `v` are set. -/
theorem Follows.setFlags (h : Follows g l s p v t) (hv : v ∉ p.map Prod.fst) (f : Flags) :
    Follows g l s p v (t.setFlags v f) := by
  have hsame : ∀ x ≠ v, (t.setFlags v f).flags x = t.flags x := by
    intro x hx
    simp [State.setFlags, State.flags, hx]
  refine ⟨h.count, fun x hx => ?_, fun x hx => ?_, fun x hb hmem => ?_⟩
  · rw [State.overload_setFlags, Function.update_of_ne hx]
    exact h.source x hx
  · rw [hsame x hx]
    exact h.fresh x hx
  · have hx : x ≠ v := fun hxv => hv (hxv ▸ hmem)
    rw [hsame x hx]
    exact h.again x hb hmem

/-- A gate of `m` that leads to `v` is passed. -/
theorem Follows.pass (h : Follows g l s p v t) (hv : g.bpqInc v = false)
    (hagain : (getBackpressureState (t.flags v) (l.action true)).2 = -1) (m : V) :
    Follows g l s (p ++ [(v, m)]) v (t.addChildren m l.delta) := by
  have hfst : ∀ x, x ∈ (p ++ [(v, m)]).map Prod.fst ↔ x ∈ p.map Prod.fst ∨ x = v := by
    simp
  refine ⟨fun y => ?_, fun x hx hb hp => ?_, fun x hx hb hp hmem => ?_, fun x hb hmem => ?_⟩
  · rw [State.childrenOverload_addChildren, countAfter_concat, h.count]
  · exact h.source x hx hb (State.pending_of_addChildren hp)
  · rw [hfst, not_or] at hmem
    exact h.fresh x hx hb (State.pending_of_addChildren hp) hmem.1
  · rcases (hfst x).1 hmem with hmem | rfl
    · exact h.again x hb hmem
    · exact hagain

/-- The module behind the gate is told. -/
theorem Follows.enter (h : Follows g l s p v t) (hv : g.bpqInc v = false)
    (hagain : (getBackpressureState (t.flags v) (l.action true)).2 = -1)
    (hm : t.childrenOverload m + l.delta = l.turn) :
    Follows g l s (p ++ [(v, m)]) m (t.addChildren m l.delta) ∧
      Own g s (p ++ [(v, m)]) m (t.addChildren m l.delta) := by
  have hpass := h.pass hv hagain m
  have hmem : v ∈ (p ++ [(v, m)]).map Prod.fst := by simp
  have hpending := Load.pending_of_turn hm
  refine ⟨⟨hpass.count, fun x hx hb hp => ?_, fun x hx hb hp hnot => ?_, hpass.again⟩,
    ⟨fun hb => ?_, fun hb hnot => ?_⟩⟩
  · refine hpass.source x (fun hxv => ?_) hb hp
    rw [hxv, hv] at hb
    exact absurd hb (by decide)
  · exact hpass.fresh x (fun hxv => hnot (hxv ▸ hmem)) hb hp hnot
  · refine h.source m (fun hmv => ?_) hb hpending
    rw [hmv, hv] at hb
    exact absurd hb (by decide)
  · have hmv : m ≠ v := fun hmv => hnot (hmv ▸ hmem)
    refine h.fresh m hmv hb hpending fun hold => hnot ?_
    rw [List.map_append]
    exact List.mem_append_left _ hold

/-- The call of a module returns to the one that has told it. -/
theorem Follows.leave (h : Follows g l s q m t) (hm : ¬ l.Pending (t.childrenOverload m))
    (hv : g.bpqInc v = false) (hmem : v ∈ q.map Prod.fst) :
    Follows g l s q v t ∧ (getBackpressureState (t.flags v) (l.action true)).2 = -1 := by
  refine ⟨⟨h.count, fun x _ hb hp => ?_, fun x _ hb hp hnot => ?_, h.again⟩, h.again v hv hmem⟩
  · exact h.source x (fun hxm => hm (hxm ▸ hp)) hb hp
  · exact h.fresh x (fun hxm => hm (hxm ▸ hp)) hb hp hnot

/-! ### The way of a call -/

/-- The index of the way that the loop of a call has gone. -/
def wayIndex (acc : Outcome V × Bool) : Option Bool :=
  if acc.2 then none else some (decide (acc.1.consumed.length = 1))

/-- The loop over the gates of `v` has come to the gates `q`: if the packet was consumed at most
once so far, it has gone a way, and no other way leads over these gates. -/
structure Going (g : ModuleGraph V) (l : Load) (s : State V) (p : List (V × V)) (v : V)
    (gates : List V) (acc : Outcome V × Bool) (q : List (V × V)) : Prop where
  follows : Follows g l s q v acc.1.state
  grows : p <+: q
  again : (getBackpressureState (acc.1.state.flags v) (l.action true)).2 = -1
  unread : acc.2 = true → acc.1.consumed.length = 0
  way : ∀ o q', Way g l s o p v gates q' ↔
    acc.1.consumed.length ≤ 1 ∧ o = wayIndex acc ∧ q' = q

/-- The same for a call that has returned. -/
structure Gone (g : ModuleGraph V) (l : Load) (s : State V) (p : List (V × V)) (v : V)
    (r : Outcome V) (q : List (V × V)) (o : Option Bool) : Prop where
  follows : Follows g l s q v r.state
  grows : p <+: q
  way : ∀ o' q', Way g l s o' p v (g.upstream v) q' ↔ r.consumed.length ≤ 1 ∧ o' = o ∧ q' = q
  consumed : r.consumed.length ≤ 1 → (o = some false ↔ r.consumed.length = 0)

omit [DecidableEq V] in
theorem wayIndex_eq_some_true {acc : Outcome V × Bool}
    (h : acc.2 = true → acc.1.consumed.length = 0) :
    wayIndex acc = some true ↔ acc.1.consumed.length = 1 := by
  unfold wayIndex
  split_ifs with hacc
  · simp [h hacc]
  · simp

omit [DecidableEq V] in
/-- One call more in the loop; `b` says whether the packet was consumed in it. -/
theorem wayIndex_andThen {acc : Outcome V × Bool} {r : Outcome V} {b : Bool} (o : Option Bool)
    (hunread : acc.2 = true → acc.1.consumed.length = 0) (hr : r.consumed.length ≤ 1)
    (hb : b = true ↔ r.consumed.length = 1) :
    (acc.1.consumed.length ≤ 1 ∧ (b = true → wayIndex acc ≠ some true) ∧
        o = some (b || wayIndex acc == some true)) ↔
      (acc.1.andThen r).consumed.length ≤ 1 ∧ o = wayIndex (acc.1.andThen r, false) := by
  have hidx := wayIndex_eq_some_true hunread
  have hnew : wayIndex (acc.1.andThen r, false) =
      some (decide ((acc.1.andThen r).consumed.length = 1)) := rfl
  have hsum : (acc.1.andThen r).consumed.length =
      acc.1.consumed.length + r.consumed.length := List.length_append
  rw [hnew, hsum, ne_eq, hidx, hb, ← and_assoc]
  have hle : (acc.1.consumed.length ≤ 1 ∧
      (r.consumed.length = 1 → ¬ acc.1.consumed.length = 1)) ↔
        acc.1.consumed.length + r.consumed.length ≤ 1 := by omega
  rw [hle]
  refine and_congr_right fun hone => ?_
  have hval : (b || wayIndex acc == some true) =
      decide (acc.1.consumed.length + r.consumed.length = 1) := by
    rw [Bool.eq_iff_iff, Bool.or_eq_true, beq_iff_eq, hidx, hb, decide_eq_true_iff]
    omega
  rw [hval]

/-- Before the first gate. -/
theorem Going.start (hf : Follows g l s p v t) (hv : g.bpqInc v = false)
    (hst : (getBackpressureState (t.flags v) (l.action true)).2 ≠ -1) :
    Going g l s p v []
      (moved v t (getBackpressureState (t.flags v) (l.action true)).1, true) p := by
  have hnot : v ∉ p.map Prod.fst := fun hmem => hst (hf.again v hv hmem)
  refine ⟨hf.setFlags hnot _, List.prefix_refl p, ?_, fun _ => rfl, fun o q' => ?_⟩
  · have hflags : (moved v t (getBackpressureState (t.flags v) (l.action true)).1).state.flags v =
        (getBackpressureState (t.flags v) (l.action true)).1 := by
      simp [moved, State.setFlags, State.flags]
    rw [hflags]
    exact getBackpressureState_again _ l
  · rw [way_nil_iff]
    simp [wayIndex, moved]

/-- A gate behind which nobody is told. -/
theorem Going.passed {gates : List V} {acc : Outcome V × Bool}
    (h : Going g l s p v gates acc q) (htells : tells g l s q m = false)
    (hv : g.bpqInc v = false) :
    Going g l s p v (gates ++ [m])
      ({ acc.1 with state := acc.1.state.addChildren m l.delta }, acc.2) (q ++ [(v, m)]) := by
  refine ⟨h.follows.pass hv h.again m, h.grows.trans (List.prefix_append _ _), h.again, h.unread,
    fun o q' => ?_⟩
  rw [way_concat_iff]
  simp only [h.way]
  constructor
  · rintro ⟨o₁, q₁, ⟨hle, rfl, rfl⟩, ⟨-, rfl, rfl⟩ | ⟨htrue, -⟩ | ⟨htrue, -⟩⟩
    · exact ⟨hle, rfl, rfl⟩
    all_goals exact absurd (htells.symm.trans htrue) (by decide)
  · rintro ⟨hle, rfl, rfl⟩
    exact ⟨_, _, ⟨hle, rfl, rfl⟩, .inl ⟨htells, rfl, rfl⟩⟩

/-- A call at a module where the signal ends. -/
theorem Going.ended {gates : List V} {acc : Outcome V × Bool} {r : Outcome V}
    (h : Going g l s p v gates acc q) (htells : tells g l s q m = true)
    (hmoves : moves g l s (q ++ [(v, m)]) m = false)
    (hr : Follows g l s (q ++ [(v, m)]) m r.state)
    (hlen : r.consumed.length = (!alreadySignalled g l s m).toNat)
    (hm : ¬ l.Pending (r.state.childrenOverload m)) (hv : g.bpqInc v = false) :
    Going g l s p v (gates ++ [m]) (acc.1.andThen r, false) (q ++ [(v, m)]) := by
  obtain ⟨hfollows, hagain⟩ := hr.leave hm hv (by simp)
  refine ⟨hfollows, h.grows.trans (List.prefix_append _ _), hagain,
    fun hf => absurd hf Bool.false_ne_true, fun o q' => ?_⟩
  have hb : (!alreadySignalled g l s m) = true ↔ r.consumed.length = 1 := by
    rw [hlen]
    cases alreadySignalled g l s m <;> decide
  have hle : r.consumed.length ≤ 1 := hlen ▸ Bool.toNat_le _
  have hindex := wayIndex_andThen o h.unread hle hb
  rw [Bool.not_eq_true'] at hindex
  rw [way_concat_iff, ← and_assoc, ← hindex]
  simp only [h.way]
  constructor
  · rintro ⟨o₁, q₁, ⟨hone, rfl, rfl⟩, ⟨hfalse, -⟩ | ⟨-, -, honce, ho, hq⟩ | ⟨-, htrue, -⟩⟩
    · exact absurd (htells.symm.trans hfalse) (by decide)
    · exact ⟨⟨hone, honce, ho⟩, hq⟩
    · exact absurd (hmoves.symm.trans htrue) (by decide)
  · rintro ⟨⟨hone, honce, ho⟩, hq⟩
    exact ⟨_, _, ⟨hone, rfl, rfl⟩, .inr (.inl ⟨htells, hmoves, honce, ho, hq⟩)⟩

/-- A call at a module from which the signal goes on. -/
theorem Going.onward {gates : List V} {acc : Outcome V × Bool} {r : Outcome V}
    {q₂ : List (V × V)} {o₂ : Option Bool}
    (h : Going g l s p v gates acc q) (htells : tells g l s q m = true)
    (hmoves : moves g l s (q ++ [(v, m)]) m = true)
    (hr : Gone g l s (q ++ [(v, m)]) m r q₂ o₂)
    (hm : ¬ l.Pending (r.state.childrenOverload m)) (hv : g.bpqInc v = false) :
    Going g l s p v (gates ++ [m]) (acc.1.andThen r, false) q₂ := by
  have hmem : v ∈ q₂.map Prod.fst := (hr.grows.map Prod.fst).subset (by simp)
  obtain ⟨hfollows, hagain⟩ := hr.follows.leave hm hv hmem
  refine ⟨hfollows, h.grows.trans ((List.prefix_append _ _).trans hr.grows), hagain,
    fun hf => absurd hf Bool.false_ne_true, fun o q' => ?_⟩
  have hindex : ∀ hle : r.consumed.length ≤ 1, _ ↔ _ := fun hle =>
    wayIndex_andThen (b := o₂ != some false) o h.unread hle (by
      rw [bne_iff_ne, ne_eq, hr.consumed hle]
      omega)
  simp only [bne_iff_ne] at hindex
  rw [way_concat_iff]
  simp only [h.way]
  constructor
  · rintro ⟨o₁, q₁, ⟨hone, rfl, rfl⟩, ⟨hfalse, -⟩ | ⟨-, hfalse, -⟩ | ⟨-, -, o', hnext, honce, ho⟩⟩
    · exact absurd (htells.symm.trans hfalse) (by decide)
    · exact absurd (hmoves.symm.trans hfalse) (by decide)
    · obtain ⟨hle, rfl, rfl⟩ := (hr.way _ _).1 hnext
      obtain ⟨hall, ho⟩ := (hindex hle).1 ⟨hone, honce, ho⟩
      exact ⟨hall, ho, rfl⟩
  · rintro ⟨hall, ho, rfl⟩
    have hle : r.consumed.length ≤ 1 := by
      rw [Outcome.andThen, List.length_append] at hall
      omega
    obtain ⟨hone, honce, ho⟩ := (hindex hle).2 ⟨hall, ho⟩
    have hnext := (hr.way o₂ q').2 ⟨hle, rfl, rfl⟩
    exact ⟨_, _, ⟨hone, rfl, rfl⟩, .inr (.inr ⟨htells, hmoves, _, hnext, honce, ho⟩)⟩

/-- After the last gate. -/
theorem Going.gone {acc : Outcome V × Bool} (h : Going g l s p v (g.upstream v) acc q) :
    Gone g l s p v (finish true v acc) q (wayIndex acc) := by
  have hway := h.way
  cases hacc : acc.2 with
  | true =>
    have hnil : acc.1.consumed = [] := List.length_eq_zero_iff.1 (h.unread hacc)
    refine ⟨?_, h.grows, fun o' q' => ?_, fun _ => ?_⟩
    · simpa [finish, hacc] using h.follows
    · rw [hway, hnil]
      simp [finish, hacc, hnil, free]
    · simp [finish, hacc, hnil, free, wayIndex]
  | false =>
    refine ⟨?_, h.grows, fun o' q' => ?_, fun hle => ?_⟩
    · simpa [finish, hacc] using h.follows
    · rw [hway]
      simp [finish, hacc]
    · simp only [finish, hacc, wayIndex, Bool.false_eq_true, if_false, Option.some.injEq,
        decide_eq_false_iff_not] at hle ⊢
      omega

/-- What a call with a packet is, by the way from the module called. -/
def Called (g : ModuleGraph V) (l : Load) (s : State V) (p : List (V × V)) (v : V)
    (r : Outcome V) : Prop :=
  (moves g l s p v = true → ∃ q o, Gone g l s p v r q o) ∧
    (moves g l s p v = false → Follows g l s p v r.state ∧
      r.consumed.length = (!alreadySignalled g l s v).toNat)

/-- The call of a `BPQInc`. -/
theorem called_bpqIncSignal (accepts : V → Bool) (hv : g.bpqInc v = true)
    (hf : Follows g l s p v t) (ho : Own g s p v t) :
    Called g l s p v (bpqIncSignal g l true accepts v t) := by
  refine ⟨fun hmoves => ?_, fun _ => ?_⟩
  · have := (moves_iff hf ho).1 hmoves
    exact absurd (this.1.symm.trans hv) (by decide)
  obtain ⟨hinv, hends⟩ := endsInv_bpqIncSignal (l := l) accepts hv t
  have hlen := hinv.consumed
  have hother : ∀ x ≠ v, (bpqIncSignal g l true accepts v t).state.flags x = t.flags x := by
    intro x hx
    simp only [bpqIncSignal]
    split_ifs <;> simp [State.flags, hx]
  have hcount : (bpqIncSignal g l true accepts v t).state.childrenOverload =
      t.childrenOverload := by
    simp only [bpqIncSignal]
    split_ifs <;> rfl
  rw [hends, List.countP_singleton] at hlen
  refine ⟨⟨fun m => by rw [hcount, hf.count], fun x hx hb hp => ?_, fun x hx hb hp hnot => ?_,
    fun x hb hmem => ?_⟩, ?_⟩
  · rw [hinv.untouched x hb (by simpa [hends] using hx)]
    exact hf.source x hx hb (hcount ▸ hp)
  · rw [hother x hx]
    exact hf.fresh x hx hb (hcount ▸ hp) hnot
  · have hx : x ≠ v := fun hxv => absurd (hb.symm.trans (hxv ▸ hv)) (by decide)
    rw [hother x hx]
    exact hf.again x hb hmem
  · rw [hlen, alreadySignalled, alreadySignalled, ho.source hv]
    cases g.bpqInc v && s.overload v == l.flag <;> rfl

/-- The induction for the way of a packet. -/
theorem wayRule (g : ModuleGraph V) (l : Load) (accepts : V → Bool) :
    CallRule g l true accepts
      (fun v t r => ∀ s p, Follows g l s p v t → Own g s p v t → Called g l s p v r)
      (fun v t gates acc => (getBackpressureState (t.flags v) (l.action true)).2 ≠ -1 ∧
        ∀ s p, Follows g l s p v t → Own g s p v t →
          g.bpqInc v = false → ∃ q, Going g l s p v gates acc q) where
  bpqInc v t hv s p hf ho := called_bpqIncSignal accepts hv hf ho
  ignored v t hv hst s p hf ho := by
    refine ⟨fun hmoves => absurd hst ((moves_iff hf ho).1 hmoves).2, fun _ => ⟨hf, ?_⟩⟩
    simp [free, alreadySignalled_of_not_bpqInc hv]
  moved v t hv hst := ⟨hst, fun s p hf ho _ => ⟨p, .start hf hv hst⟩⟩
  passed v t gates m acc _ hQ hm := by
    refine ⟨hQ.1, fun s p hf ho hv => ?_⟩
    obtain ⟨q, hgoing⟩ := hQ.2 s p hf ho hv
    have htells : tells g l s q m = false := by
      rw [← Bool.not_eq_true, tells_iff hgoing.follows]
      exact fun h => hm h.1 h.2
    exact ⟨q ++ [(v, m)], hgoing.passed htells hv⟩
  told v t gates m acc r _ hQ hprop hm hP hset := by
    refine ⟨hQ.1, fun s p hf ho hv => ?_⟩
    obtain ⟨q, hgoing⟩ := hQ.2 s p hf ho hv
    obtain ⟨henter, hown⟩ := hgoing.follows.enter hv hgoing.again hm
    have htells : tells g l s q m = true := (tells_iff hgoing.follows).2 ⟨hprop, hm⟩
    have hpending : ¬ l.Pending (r.state.childrenOverload m) :=
      fun hp => State.not_pending_of_turn hm (hset m hp)
    obtain ⟨hgone, hended⟩ := hP s _ henter hown
    cases hmove : moves g l s (q ++ [(v, m)]) m with
    | true =>
      obtain ⟨q', o, hgone⟩ := hgone hmove
      exact ⟨q', hgoing.onward htells hmove hgone hpending hv⟩
    | false =>
      obtain ⟨hfollows, hlen⟩ := hended hmove
      exact ⟨_, hgoing.ended htells hmove hfollows hlen hpending hv⟩
  finished v t acc hv hQ s p hf ho := by
    obtain ⟨q, hgoing⟩ := hQ.2 s p hf ho hv
    refine ⟨fun _ => ⟨q, wayIndex acc, hgoing.gone⟩, fun hmoves => ?_⟩
    exact absurd ((moves_iff hf ho).2 ⟨hv, hQ.1⟩) (by simp [hmoves])

variable [Fintype V]

omit [Fintype V] in
theorem follows_start (g : ModuleGraph V) (l : Load) (s : State V) (v : V) :
    Follows g l s [] v s ∧ Own g s [] v s :=
  ⟨⟨fun m => by simp [countAfter], fun _ _ _ _ => rfl, fun _ _ _ _ _ => rfl, by simp⟩,
    ⟨fun _ => rfl, fun _ _ => rfl⟩⟩

/-- A call consumes its packet exactly once when the state before the call says so. -/
theorem consumed_length_eq_one_iff (g : ModuleGraph V) (l : Load) (accepts : V → Bool) (v : V)
    (s : State V) :
    (signal g l true accepts v s).consumed.length = 1 ↔ ConsumesOnce g l s v := by
  obtain ⟨hf, ho⟩ := follows_start g l s v
  obtain ⟨hgone, hended⟩ := (wayRule g l accepts).signal v s s [] hf ho
  unfold ConsumesOnce
  cases hmoves : moves g l s [] v with
  | true =>
    obtain ⟨q, o, hgone⟩ := hgone hmoves
    have hcons := hgone.consumed
    simp only [if_true, hgone.way]
    constructor
    · intro hone
      refine ⟨o, q, ⟨by omega, rfl, rfl⟩, fun hfalse => ?_⟩
      have := (hcons (by omega)).1 hfalse
      omega
    · rintro ⟨_, _, ⟨hle, rfl, rfl⟩, hne⟩
      have : ¬ (signal g l true accepts v s).consumed.length = 0 := fun h => hne ((hcons hle).2 h)
      omega
  | false =>
    rw [(hended hmoves).2, if_neg Bool.false_ne_true]
    cases alreadySignalled g l s v <;> decide

/-- **When a packet is consumed exactly once.**  In any graph and state, a call of
`SignalOverloadBP` or `SignalUnderloadBP` with a packet frees or sends it exactly once when, by the
order of the gates, the flags and the counters before the call, the signal ends at exactly one
module that is not a `BPQInc` in that state already. -/
theorem consumed_once_iff (g : ModuleGraph V) (accepts : V → Bool) (v : V) (s : State V) :
    ((∃ e, (signalOverloadBP g true accepts v s).consumed = [e]) ↔ ConsumesOnce g .overload s v) ∧
    ((∃ e, (signalUnderloadBP g true accepts v s).consumed = [e]) ↔
      ConsumesOnce g .underload s v) := by
  simp only [← List.length_eq_one_iff, signalOverloadBP, signalUnderloadBP,
    consumed_length_eq_one_iff, and_self]

/-- Two sources with overlay ports that lead to one module. -/
def fanIn : ModuleGraph (Fin 3) where
  igates x := if x = 2 then [some [0, 1]] else []
  ogates m := if m = 2 then [] else [2]
  bpqInc x := x != 2
  overlayPort _ := true
  propagateWorkers _ := true
  connected := by decide
  bpqInc_igates := by decide

/-- Both sources send the same packet; and when both are overloaded already, nobody frees it. -/
theorem packet_sent_twice_or_leaked :
    (signalOverloadBP fanIn true (fun _ => true) 2 .idle).consumed = [.sent, .sent] ∧
      (signalOverloadBP fanIn true (fun _ => true) 2
        ⟨fun x => x != 2, fun _ => false, fun _ => 0⟩).consumed = [] := by
  constructor <;> decide +kernel

end Backdraft.Backpressure

import Mathlib.Logic.Relation
import Backdraft.Backpressure.Graph

/-!
# Backpressure: how far an overload of the overlay spreads

`SignalOverloadBP` without a packet is never ignored: a module that is overloaded already makes a
transition too, and goes on to the modules behind the gates that lead to it.  Where the signal
comes to is therefore decided by the counters alone, as they are before the call: it goes on to a
module that passes signals on and has no overloaded child counted.

* `Passes`: the signal goes on from one module to another;
* `Sane`: the flags that can occur, for which no overload of the overlay is ignored;
* `Reached`: what the counters show of a module to which the signal came;
* `Spread`, `spread_signal`: what a call does to counters and flags, and which modules keep
  `overload_` in a transition;
* `reached_iff`: where the signal comes to, read off the state before the call.
-/

namespace Backdraft.Backpressure

open Relation

variable {V : Type*} [DecidableEq V]

/-- An overload signal at `x` goes on to `m`: a gate of `m` leads to `x`, and no child of `m` is
counted yet. -/
def Passes (g : ModuleGraph V) (s : State V) (x m : V) : Prop :=
  m ∈ g.upstream x ∧ g.propagateWorkers m = true ∧ s.childrenOverload m ≤ 0

/-- `overlay_overload_` is only set together with `overload_`. -/
def Sane (g : ModuleGraph V) (s : State V) : Prop :=
  ∀ x, g.bpqInc x = false → s.overlayOverload x = true → s.overload x = true

/-- Between `s` and `t` the first child of `x` was counted, and `x` was told. -/
def Reached (g : ModuleGraph V) (s t : State V) (x : V) : Prop :=
  g.propagateWorkers x = true ∧ s.childrenOverload x ≤ 0 ∧ 0 < t.childrenOverload x

/-- What the signal has done from the call of `v` in the state `s` on, with the gates `done` of
`v`. -/
structure Spread (g : ModuleGraph V) (v : V) (s : State V) (done : List V) (r : Outcome V) :
    Prop where
  sane : Sane g r.state
  mono : ∀ m, s.childrenOverload m ≤ r.state.childrenOverload m
  counted : ∀ m ∈ done, s.childrenOverload m < r.state.childrenOverload m
  closed : ∀ x, Reached g s r.state x → ∀ m ∈ g.upstream x,
    s.childrenOverload m < r.state.childrenOverload m
  reach : ∀ x, Reached g s r.state x → TransGen (Passes g s) v x
  overload : ∀ x, r.state.overload x = true ↔
    s.overload x = true ∨ x = v ∨ Reached g s r.state x
  kept : ∀ x, x ∈ r.kept ↔ g.bpqInc x = false ∧
    (x = v ∧ s.overload x = true ∨ Reached g s r.state x ∧ (s.overload x = true ∨ x = v))

variable {g : ModuleGraph V} {s t u : State V} {v m x : V}

theorem not_reached_of_eq (h : t.childrenOverload = s.childrenOverload) : ¬ Reached g s t x := by
  rintro ⟨-, hs, ht⟩
  rw [h] at ht
  omega

/-- No overload of the overlay is ignored, and it leaves the module overloaded. -/
theorem getBackpressureState_overlayOver {f : Flags}
    (h : f.overlayOverload = true → f.overload = true) :
    (getBackpressureState f .overlayOver).2 ≠ -1 ∧
      (getBackpressureState f .overlayOver).1.overload = true := by
  obtain ⟨o, r⟩ := f
  cases o <;> cases r <;> first | decide | exact absurd (h rfl) (by decide)

theorem overload_update_true (s : State V) (v x : V) :
    Function.update s.overload v true x = true ↔ s.overload x = true ∨ x = v := by
  by_cases hxv : x = v
  · simp [hxv]
  · simp [hxv]

/-! ### One gate -/

theorem childrenOverload_addOne (t : State V) (m x : V) :
    (t.addChildren m 1).childrenOverload x = t.childrenOverload x + if x = m then 1 else 0 :=
  State.childrenOverload_addChildren t m x 1

theorem childrenOverload_le_addOne (t : State V) (m x : V) :
    t.childrenOverload x ≤ (t.addChildren m 1).childrenOverload x := by
  rw [childrenOverload_addOne]
  split_ifs <;> omega

/-- A module that is counted and not told was reached before, or is not reached. -/
theorem reached_passed (hmono : ∀ y, s.childrenOverload y ≤ t.childrenOverload y)
    (hm : g.propagateWorkers m = true → t.childrenOverload m + 1 ≠ 1) :
    Reached g s (t.addChildren m 1) x ↔ Reached g s t x := by
  unfold Reached
  rw [childrenOverload_addOne]
  have hx := hmono x
  refine and_congr_right fun hprop => and_congr_right fun hs => ?_
  by_cases hxm : x = m
  · subst hxm
    have := hm hprop
    rw [if_pos rfl]
    omega
  · rw [if_neg hxm, add_zero]

/-- What is reached when `m` is told in `t`, and its call ends in `u`. -/
theorem reached_told (hst : ∀ y, s.childrenOverload y ≤ t.childrenOverload y)
    (htu : ∀ y, (t.addChildren m 1).childrenOverload y ≤ u.childrenOverload y)
    (hprop : g.propagateWorkers m = true) (hm : t.childrenOverload m + 1 = 1) :
    Reached g s u x ↔ Reached g s t x ∨ x = m ∨ Reached g (t.addChildren m 1) u x := by
  unfold Reached
  have h1 := hst x
  have h2 := htu x
  rw [childrenOverload_addOne] at h2 ⊢
  by_cases hxm : x = m
  · subst hxm
    rw [if_pos rfl] at h2
    simp only [hprop, true_and, true_or, or_true, iff_true]
    omega
  · rw [if_neg hxm, add_zero] at h2 ⊢
    simp only [hxm, false_or]
    by_cases hp : g.propagateWorkers x = true
    · simp only [hp, true_and]
      omega
    · simp [hp]

/-- The module that is told is not reached once more, and was not reached before. -/
theorem not_reached_of_turn (hm : t.childrenOverload m + 1 = 1) :
    ¬ Reached g s t m ∧ ¬ Reached g (t.addChildren m 1) u m := by
  constructor
  · rintro ⟨-, -, h⟩
    omega
  · rintro ⟨-, h, -⟩
    rw [childrenOverload_addOne, if_pos rfl] at h
    omega

/-- What is reached later was not reached before. -/
theorem Reached.not_before (h : Reached g (t.addChildren m 1) u x) : ¬ Reached g s t x := by
  rintro ⟨-, -, ht⟩
  have hx := h.2.1
  rw [childrenOverload_addOne] at hx
  split_ifs at hx <;> omega

/-! ### One call -/

/-- A call that has not come to its gates yet. -/
theorem Spread.start {r : Outcome V} (hsane : Sane g r.state)
    (hcount : r.state.childrenOverload = s.childrenOverload)
    (hover : ∀ x, r.state.overload x = true ↔ s.overload x = true ∨ x = v)
    (hkept : ∀ x, x ∈ r.kept ↔ g.bpqInc x = false ∧ x = v ∧ s.overload x = true) :
    Spread g v s [] r := by
  have hnot : ∀ x, ¬ Reached g s r.state x := fun x => not_reached_of_eq hcount
  refine ⟨hsane, fun y => by rw [hcount], by simp, fun x hx => absurd hx (hnot x),
    fun x hx => absurd hx (hnot x), fun x => ?_, fun x => ?_⟩
  · simp only [hover, hnot, or_false]
  · simp only [hkept, hnot, false_and, or_false]

/-- A gate is passed without telling the module behind it. -/
theorem Spread.passed {done : List V} {o : Outcome V} (h : Spread g v s done o)
    (hm : g.propagateWorkers m = true → o.state.childrenOverload m + 1 ≠ 1) :
    Spread g v s (done ++ [m]) { o with state := o.state.addChildren m 1 } := by
  have hle := childrenOverload_le_addOne o.state m
  have hiff : ∀ x, Reached g s (o.state.addChildren m 1) x ↔ Reached g s o.state x :=
    fun x => reached_passed h.mono hm
  refine ⟨h.sane, fun y => (h.mono y).trans (hle y), fun y hy => ?_, fun x hx y hy => ?_,
    fun x hx => h.reach x ((hiff x).1 hx), fun x => ?_, fun x => ?_⟩
  · rcases List.mem_append.1 hy with hy | hy
    · exact (h.counted y hy).trans_le (hle y)
    · obtain rfl := List.mem_singleton.1 hy
      have := h.mono y
      simp only [childrenOverload_addOne, if_true]
      omega
  · exact (h.closed x ((hiff x).1 hx) y hy).trans_le (hle y)
  · rw [hiff]
    exact h.overload x
  · rw [hiff]
    exact h.kept x

/-- A gate is passed and the module behind it is told. -/
theorem Spread.told {done : List V} {o r : Outcome V} (h : Spread g v s done o)
    (hup : m ∈ g.upstream v) (hprop : g.propagateWorkers m = true)
    (hm : o.state.childrenOverload m + 1 = 1)
    (hr : Spread g m (o.state.addChildren m 1) (g.upstream m) r) :
    Spread g v s (done ++ [m]) (o.andThen r) := by
  have hle : ∀ y, o.state.childrenOverload y ≤ r.state.childrenOverload y :=
    fun y => (childrenOverload_le_addOne o.state m y).trans (hr.mono y)
  have hiff : ∀ x, Reached g s r.state x ↔
      Reached g s o.state x ∨ x = m ∨ Reached g (o.state.addChildren m 1) r.state x :=
    fun x => reached_told h.mono hr.mono hprop hm
  have hbefore : ∀ y, s.childrenOverload y ≤ (o.state.addChildren m 1).childrenOverload y :=
    fun y => (h.mono y).trans (childrenOverload_le_addOne o.state m y)
  have hfirst : Passes g s v m := ⟨hup, hprop, by have := h.mono m; omega⟩
  obtain ⟨hnot, hnot'⟩ := not_reached_of_turn (g := g) (s := s) (u := r.state) hm
  refine ⟨hr.sane, fun y => (h.mono y).trans (hle y), fun y hy => ?_, fun x hx y hy => ?_,
    fun x hx => ?_, fun x => ?_, fun x => ?_⟩
  · rcases List.mem_append.1 hy with hy | hy
    · exact (h.counted y hy).trans_le (hle y)
    · obtain rfl := List.mem_singleton.1 hy
      have h1 := h.mono y
      have h2 := hr.mono y
      rw [childrenOverload_addOne, if_pos rfl] at h2
      exact lt_of_lt_of_le (by omega) h2
  · rcases (hiff x).1 hx with hx | rfl | hx
    · exact (h.closed x hx y hy).trans_le (hle y)
    · exact (hbefore y).trans_lt (hr.counted y hy)
    · exact (hbefore y).trans_lt (hr.closed x hx y hy)
  · rcases (hiff x).1 hx with hx | rfl | hx
    · exact h.reach x hx
    · exact .single hfirst
    · have hsub : Passes g (o.state.addChildren m 1) ≤ Passes g s :=
        fun a b hab => ⟨hab.1, hab.2.1, (hbefore b).trans hab.2.2⟩
      exact .head hfirst (TransGen.mono hsub m x (hr.reach x hx))
  · change r.state.overload x = true ↔ _ ∨ _ ∨ Reached g s r.state x
    rw [hr.overload, hiff, State.overload_addChildren, h.overload]
    tauto
  · change x ∈ o.kept ++ r.kept ↔ _ ∧ (_ ∨ Reached g s r.state x ∧ _)
    rw [List.mem_append, h.kept, hr.kept, hiff, State.overload_addChildren, h.overload]
    have hlater : Reached g (o.state.addChildren m 1) r.state x → ¬ Reached g s o.state x :=
      Reached.not_before
    by_cases hxm : x = m
    · subst hxm
      simp only [hnot, hnot', true_and, false_and, or_false, or_true, and_true]
      grind
    · simp only [hxm, false_and, false_or, or_false]
      grind

/-- The call of a `BPQInc`. -/
theorem Spread.bpqInc (accepts : V → Bool) (hv : g.bpqInc v = true) (hs : Sane g s) :
    Spread g v s [] (bpqIncSignal g .overload false accepts v s) := by
  have hkept : ∀ x, x ∈ ([] : List V) ↔ g.bpqInc x = false ∧ x = v ∧ s.overload x = true := by
    intro x
    refine ⟨fun hx => absurd hx List.not_mem_nil, ?_⟩
    rintro ⟨hx, rfl, -⟩
    exact absurd (hx.symm.trans hv) (by decide)
  by_cases hb : s.overload v = Load.flag .overload
  · rw [bpqIncSignal, if_pos hb]
    refine .start hs rfl (fun x => ⟨.inl, ?_⟩) hkept
    rintro (hx | rfl)
    exacts [hx, hb]
  · rw [bpqIncSignal, if_neg hb]
    refine .start (fun x hx hxo => ?_) rfl (overload_update_true s v) hkept
    exact (overload_update_true s v x).2 (.inl (hs x hx hxo))

/-- The flags of the module called have moved, and no gate is passed yet. -/
theorem Spread.moved (hv : g.bpqInc v = false) (hs : Sane g s) :
    Spread g v s [] (moved v s (getBackpressureState (s.flags v) .overlayOver).1) := by
  have hover := (getBackpressureState_overlayOver (f := s.flags v) (hs v hv)).2
  have hset : ∀ x, (s.setFlags v (getBackpressureState (s.flags v) .overlayOver).1).overload x =
      true ↔ s.overload x = true ∨ x = v := by
    intro x
    rw [State.overload_setFlags, hover]
    exact overload_update_true s v x
  refine .start (fun x hx hxo => ?_) rfl hset fun x => ?_
  · refine (hset x).2 ?_
    by_cases hxv : x = v
    · exact .inr hxv
    · exact .inl (hs x hx (by simpa [Backpressure.moved, State.setFlags, hxv] using hxo))
  · simp only [Backpressure.moved, hover]
    split_ifs with hb
    · rw [List.mem_singleton]
      refine ⟨?_, fun h => h.2.1⟩
      rintro rfl
      exact ⟨hv, rfl, hb⟩
    · refine ⟨fun hx => absurd hx List.not_mem_nil, ?_⟩
      rintro ⟨-, rfl, hx⟩
      exact absurd hx hb

/-- The induction for an overload of the overlay. -/
theorem spreadRule (g : ModuleGraph V) (accepts : V → Bool) :
    CallRule g .overload false accepts
      (fun v s r => Sane g s → Spread g v s (g.upstream v) r)
      (fun v s done acc => g.bpqInc v = false → Sane g s → Spread g v s done acc.1) where
  bpqInc v s hv hs := by
    rw [g.upstream_of_bpqInc hv]
    exact .bpqInc accepts hv hs
  ignored v s hv hst hs := absurd hst (getBackpressureState_overlayOver (hs v hv)).1
  moved v s hv _ _ hs := .moved hv hs
  passed v s done m acc _ hQ hm hv hs := (hQ hv hs).passed hm
  told v s done m acc r hp hQ hprop hm hP _ hv hs := by
    have hup : m ∈ g.upstream v := hp.subset (by simp)
    have hacc := hQ hv hs
    exact hacc.told hup hprop hm (hP hacc.sane)
  finished v s acc hv hQ hs := by
    have h := hQ hv hs
    unfold finish
    split_ifs
    · exact ⟨h.sane, h.mono, h.counted, h.closed, h.reach, h.overload, h.kept⟩
    · exact h

variable [Fintype V]

/-- **What an overload of the overlay does.** -/
theorem spread_signal (accepts : V → Bool) (hs : Sane g s) (v : V) :
    Spread g v s (g.upstream v) (signal g .overload false accepts v s) :=
  (spreadRule g accepts).signal v s hs

/-- **Where the signal comes to.**  With counters that are not negative, the modules that a call
tells are those to which the gates lead from the module called, over modules that pass signals on
and have no child counted. -/
theorem reached_iff (accepts : V → Bool) (hs : Sane g s) (hpos : ∀ y, 0 ≤ s.childrenOverload y)
    (v x : V) :
    Reached g s (signal g .overload false accepts v s).state x ↔ TransGen (Passes g s) v x := by
  have h := spread_signal accepts hs v
  refine ⟨h.reach x, fun hx => ?_⟩
  induction hx with
  | single hpass =>
    obtain ⟨hup, hprop, hzero⟩ := hpass
    exact ⟨hprop, hzero, (hpos _).trans_lt (h.counted _ hup)⟩
  | tail _ hpass ih =>
    obtain ⟨hup, hprop, hzero⟩ := hpass
    exact ⟨hprop, hzero, (hpos _).trans_lt (h.closed _ ih _ hup)⟩

end Backdraft.Backpressure

import Mathlib.Tactic
import Backdraft.Backpressure.Graph

/-!
# Backpressure: what becomes of a pause or resume packet

A local signal carries a packet.  A module hands the same packet to every upstream module that it
tells, and frees it when it tells none; a module that ignores the signal frees it; a `BPQInc`
sends it on its overlay port or frees it, except when it is in that state already: then it does
nothing.  So each end of the signal but those consumes the packet once.

* `alreadySignalled`: the `BPQInc` modules that return without touching the packet;
* `consumed_length`: how many times the packet is consumed;
* `consumed_once_of_chain`: where at most one gate leads to each module.
-/

namespace Backdraft.Backpressure

variable {V : Type*} [DecidableEq V]

/-- A `BPQInc` module that is already overloaded, or already not. -/
def alreadySignalled (g : ModuleGraph V) (l : Load) (s : State V) (x : V) : Bool :=
  g.bpqInc x && s.overload x == l.flag

theorem alreadySignalled_of_not_bpqInc {g : ModuleGraph V} {l : Load} {s : State V} {x : V}
    (h : g.bpqInc x = false) : alreadySignalled g l s x = false := by
  simp [alreadySignalled, h]

section Ends

variable (g : ModuleGraph V) (l : Load)

/-- The ends of the calls made so far: the modules where the packet was left, each told by now,
and one consumption for each that was not in the state before. -/
structure EndsInv (s : State V) (r : Outcome V) : Prop where
  untouched : ∀ x, g.bpqInc x = true → x ∉ r.ends → r.state.overload x = s.overload x
  consumed : r.consumed.length = r.ends.countP fun x => !alreadySignalled g l s x

/-- A module where the signal ended has been told and cannot be told again. -/
def ToldOnce (s t : State V) (x : V) : Prop :=
  l.Pending (s.childrenOverload x) ∧ ¬ l.Pending (t.childrenOverload x)

variable {g l}

omit [DecidableEq V] in
theorem ToldOnce.settles {s t u : State V} {x : V} (h : ToldOnce l s t x) (hu : Settles l t u) :
    ToldOnce l s u x :=
  ⟨h.1, fun hx => h.2 (hu x hx)⟩

theorem settles_addChildren (s : State V) (m : V) : Settles l s (s.addChildren m l.delta) :=
  fun _ hx => State.pending_of_addChildren hx

/-- The ends of a call that is made after others were not touched by them. -/
theorem EndsInv.andThen {s : State V} {m : V} {o r : Outcome V}
    (ho : EndsInv g l s o) (hends : ∀ x ∈ o.ends, ToldOnce l s o.state x)
    (hturn : o.state.childrenOverload m + l.delta = l.turn)
    (hr : EndsInv g l (o.state.addChildren m l.delta) r)
    (hrends : ∀ x ∈ r.ends, x ≠ m → ToldOnce l (o.state.addChildren m l.delta) r.state x) :
    EndsInv g l s (o.andThen r) := by
  -- an end of the later call may still be told after the earlier ones, so it is none of theirs
  have hfresh : ∀ x ∈ r.ends, x ∉ o.ends := by
    intro x hx hxo
    by_cases hxm : x = m
    · subst hxm
      exact (hends x hxo).2 (Load.pending_of_turn hturn)
    · exact (hends x hxo).2 (State.pending_of_addChildren (hrends x hx hxm).1)
  have hsame : ∀ x ∈ r.ends,
      alreadySignalled g l (o.state.addChildren m l.delta) x = alreadySignalled g l s x := by
    intro x hx
    cases hb : g.bpqInc x with
    | false => rw [alreadySignalled_of_not_bpqInc hb, alreadySignalled_of_not_bpqInc hb]
    | true => simp [alreadySignalled, ho.untouched x hb (hfresh x hx)]
  refine ⟨fun x hb hx => ?_, ?_⟩
  · simp only [Outcome.andThen, List.mem_append, not_or] at hx ⊢
    rw [hr.untouched x hb hx.2, State.overload_addChildren, ho.untouched x hb hx.1]
  · simp only [Outcome.andThen, List.length_append, List.countP_append, ho.consumed, hr.consumed]
    congr 1
    exact List.countP_congr fun x hx => by rw [hsame x hx]

/-- A `BPQInc` consumes the packet unless it is in the state already. -/
theorem endsInv_bpqIncSignal (accepts : V → Bool) {v : V} (hv : g.bpqInc v = true) (s : State V) :
    EndsInv g l s (bpqIncSignal g l true accepts v s) ∧
      (bpqIncSignal g l true accepts v s).ends = [v] := by
  by_cases hs : s.overload v = l.flag
  · have hr : bpqIncSignal g l true accepts v s = ⟨s, [], [], [v]⟩ := if_pos hs
    rw [hr]
    exact ⟨⟨fun _ _ _ => rfl, by simp [alreadySignalled, hv, hs]⟩, rfl⟩
  · obtain ⟨e, hr⟩ : ∃ e, bpqIncSignal g l true accepts v s =
        ⟨{ s with overload := Function.update s.overload v l.flag }, [e], [], [v]⟩ := by
      simp only [bpqIncSignal, if_neg hs]
      split_ifs <;> simp_all
    rw [hr]
    refine ⟨⟨fun x _ hx => ?_, by simp [alreadySignalled, hs]⟩, rfl⟩
    exact Function.update_of_ne (by simpa using hx) _ _

/-- The ends of a call that is made after others are told only once, like theirs. -/
theorem toldOnce_andThen {s : State V} {m : V} {o r : Outcome V} (hset : Settles l s o.state)
    (hends : ∀ x ∈ o.ends, ToldOnce l s o.state x)
    (hturn : o.state.childrenOverload m + l.delta = l.turn)
    (hsettles : Settles l (o.state.addChildren m l.delta) r.state)
    (hrends : ∀ x ∈ r.ends, x ≠ m → ToldOnce l (o.state.addChildren m l.delta) r.state x) :
    ∀ x ∈ (o.andThen r).ends, ToldOnce l s (o.andThen r).state x := by
  intro x hx
  rcases List.mem_append.1 hx with hx | hx
  · exact ((hends x hx).settles (settles_addChildren _ _)).settles hsettles
  · by_cases hxm : x = m
    · subst hxm
      exact ⟨hset x (Load.pending_of_turn hturn),
        fun hp => State.not_pending_of_turn hturn (hsettles x hp)⟩
    · obtain ⟨hpending, hdone⟩ := hrends x hx hxm
      exact ⟨hset x (settles_addChildren _ _ x hpending), hdone⟩

/-- The induction for a call with a packet. -/
theorem endsRule (accepts : V → Bool) :
    CallRule g l true accepts
      (fun v s r => EndsInv g l s r ∧ ∀ x ∈ r.ends, x ≠ v → ToldOnce l s r.state x)
      (fun v s _ acc => g.bpqInc v = false ∧ Settles l s acc.1.state ∧ EndsInv g l s acc.1 ∧
        ∀ x ∈ acc.1.ends, ToldOnce l s acc.1.state x) where
  bpqInc v s hv := by
    obtain ⟨hinv, hends⟩ := endsInv_bpqIncSignal accepts hv s
    refine ⟨hinv, fun x hx hxv => absurd ?_ hxv⟩
    rw [hends] at hx
    exact List.mem_singleton.1 hx
  ignored v s hv _ :=
    ⟨⟨fun _ _ _ => rfl, by simp [free, alreadySignalled_of_not_bpqInc hv]⟩, by simp⟩
  moved v s hv _ := by
    refine ⟨hv, fun _ hx => hx, ⟨fun x hb _ => ?_, rfl⟩, by simp [moved]⟩
    have hxv : x ≠ v := fun h => by rw [h, hv] at hb; exact absurd hb (by decide)
    simp [moved, hxv]
  passed v s done m acc _ hQ _ := by
    obtain ⟨hv, hset, hinv, hends⟩ := hQ
    exact ⟨hv, fun x hx => hset x (settles_addChildren _ _ x hx), ⟨hinv.untouched, hinv.consumed⟩,
      fun x hx => (hends x hx).settles (settles_addChildren _ _)⟩
  told v s done m acc r _ hQ _ hturn hP hsettles := by
    obtain ⟨hv, hset, hinv, hends⟩ := hQ
    obtain ⟨hr, hrends⟩ := hP
    exact ⟨hv, fun x hx => hset x (settles_addChildren _ _ x (hsettles x hx)),
      hinv.andThen hends hturn hr hrends, toldOnce_andThen hset hends hturn hsettles hrends⟩
  finished v s acc hv hQ := by
    obtain ⟨-, -, hinv, hends⟩ := hQ
    rw [finish]
    split_ifs
    · refine ⟨⟨fun x hb hx => hinv.untouched x hb fun h => hx (List.mem_append_left _ h), ?_⟩, ?_⟩
      · simp [hinv.consumed, free, alreadySignalled_of_not_bpqInc hv]
      · intro x hx hxv
        rcases List.mem_append.1 hx with hx | hx
        · exact hends x hx
        · exact absurd (List.mem_singleton.1 hx) hxv
    · exact ⟨hinv, fun x hx _ => hends x hx⟩

end Ends

variable [Fintype V]

/-- **How often the packet is consumed**: once for every end of the signal, except at the `BPQInc`
modules that were in that state before the call. -/
theorem consumed_length (g : ModuleGraph V) (l : Load) (accepts : V → Bool) (v : V) (s : State V) :
    (signal g l true accepts v s).consumed.length =
      (signal g l true accepts v s).ends.countP fun x => !alreadySignalled g l s x :=
  ((endsRule accepts).signal v s).1.consumed

/-! ### Chains -/

omit [Fintype V] in
theorem chainRule {g : ModuleGraph V} (hup : ∀ x, (g.upstream x).length ≤ 1) (l : Load) (pkt : Bool)
    (accepts : V → Bool) :
    CallRule g l pkt accepts (fun _ _ r => r.ends.length = 1)
      (fun _ _ done acc => (done = [] → acc.2 = true) ∧
        acc.1.ends.length = if acc.2 then 0 else 1) where
  bpqInc v s _ := by
    simp only [bpqIncSignal]
    split_ifs <;> rfl
  ignored _ _ _ _ := rfl
  moved _ _ _ _ := ⟨fun _ => rfl, rfl⟩
  passed _ _ _ _ _ _ hQ _ := ⟨by simp, hQ.2⟩
  told v s done m acc r hp hQ _ _ hP _ := by
    -- the gate is the only one, so nothing was told before
    have hlen := hp.length_le.trans (hup v)
    have hdone : done = [] := by simpa using hlen
    have hends := hQ.2
    rw [hQ.1 hdone] at hends
    simp_all [Outcome.andThen]
  finished v s acc _ hQ := by
    have := hQ.2
    rw [finish]
    split_ifs <;> simp_all

/-- Where at most one gate leads to each module, a packet is consumed exactly once as long as no
`BPQInc` is in that state before. -/
theorem consumed_once_of_chain {g : ModuleGraph V} (hup : ∀ x, (g.upstream x).length ≤ 1)
    (l : Load) (accepts : V → Bool) (v : V) (s : State V)
    (hs : ∀ x, alreadySignalled g l s x = false) :
    ∃ e, (signal g l true accepts v s).consumed = [e] := by
  rw [← List.length_eq_one_iff, consumed_length]
  have hends := (chainRule hup l true accepts).signal v s
  simp only [hs, Bool.not_false]
  rw [List.countP_true]
  exact hends

end Backdraft.Backpressure

import Mathlib.Tactic
import Backdraft.Backpressure.Spread

/-!
# Backpressure: the counters of overloaded children

`children_overload_` of a module is meant to be the number of its output gates that lead to an
overloaded module.  The counters follow the changes of `overload_`, with one exception: an
overload of the overlay at a module that is overloaded already keeps `overload_` set and still
counts up behind every gate that leads there.

* `overloadedNext`, `Exact`: what the counters should be;
* `surplus_signal`: by how much a call lets them drift;
* `Call.Recounts`: an overload of the overlay that comes to a module that is overloaded already;
* `exact_outcome_iff`: the calls after which the counters are still right;
* `exact_iff`: the sequences of calls along which they always are;
* `exact_of_no_overlay_overload`: signals with packets, and underloads, never disturb them.
-/

namespace Backdraft.Backpressure

open Relation

variable {V : Type*} [DecidableEq V]

/-- The number of output gates of `m` whose next module is overloaded. -/
def overloadedNext (g : ModuleGraph V) (s : State V) (m : V) : ℕ :=
  (g.ogates m).countP s.overload

/-- Every counter is the number of overloaded children. -/
def Exact (g : ModuleGraph V) (s : State V) : Prop :=
  ∀ m, s.childrenOverload m = overloadedNext g s m

/-- A source returns without work while a child is overloaded. -/
def State.Blocked (s : State V) (m : V) : Prop := 0 < s.childrenOverload m

/-- By how much a counter is too high. -/
def surplus (g : ModuleGraph V) (s : State V) (m : V) : ℤ :=
  s.childrenOverload m - overloadedNext g s m

/-- The gates of `m` that lead to the modules of a list. -/
def gatesTo (g : ModuleGraph V) (xs : List V) (m : V) : ℕ :=
  (xs.map fun x => (g.upstream x).count m).sum

@[simp] theorem gatesTo_nil (g : ModuleGraph V) (m : V) : gatesTo g [] m = 0 := rfl

@[simp] theorem gatesTo_singleton (g : ModuleGraph V) (x m : V) :
    gatesTo g [x] m = (g.upstream x).count m := by
  simp [gatesTo]

@[simp] theorem gatesTo_append (g : ModuleGraph V) (xs ys : List V) (m : V) :
    gatesTo g (xs ++ ys) m = gatesTo g xs m + gatesTo g ys m := by
  simp [gatesTo]

theorem exact_iff_surplus {g : ModuleGraph V} {s : State V} :
    Exact g s ↔ ∀ m, surplus g s m = 0 := by
  simp only [Exact, surplus, sub_eq_zero]

/-- With exact counters and nothing overloaded, no source is blocked. -/
theorem Exact.not_blocked {g : ModuleGraph V} {s : State V} (h : Exact g s)
    (hs : ∀ x, s.overload x = false) (m : V) : s.childrenOverload m = 0 ∧ ¬ s.Blocked m := by
  have hm : s.childrenOverload m = 0 := by
    simp [h m, overloadedNext, List.countP_eq_zero, hs]
  exact ⟨hm, by simp [State.Blocked, hm]⟩

theorem gatesTo_eq_zero_iff {g : ModuleGraph V} {xs : List V} :
    (∀ m, gatesTo g xs m = 0) ↔ ∀ x ∈ xs, g.upstream x = [] := by
  simp only [gatesTo, List.sum_eq_zero_iff, List.mem_map, forall_exists_index, and_imp,
    forall_apply_eq_imp_iff₂, List.count_eq_zero]
  constructor
  · intro h x hx
    exact List.eq_nil_iff_forall_not_mem.2 fun m => h m x hx
  · intro h m x hx
    simp [h x hx]

/-! ### One call -/

theorem countP_update (f : V → Bool) (v : V) (b : Bool) (l : List V) :
    (l.countP (Function.update f v b) : ℤ) =
      l.countP f + ((b.toNat : ℤ) - (f v).toNat) * l.count v := by
  induction l with
  | nil => simp
  | cons x l ih =>
    simp only [List.countP_cons, List.count_cons, Nat.cast_add, ih]
    by_cases hx : x = v
    · subst hx
      cases b <;> cases f x <;> simp
      ring
    · simp [hx]
      ring

/-- How `overload_` of one module enters the counters of the others. -/
theorem surplus_update (g : ModuleGraph V) (s t : State V) (v m : V) (b : Bool)
    (ho : t.overload = Function.update s.overload v b)
    (hc : t.childrenOverload = s.childrenOverload) :
    surplus g t m =
      surplus g s m - ((b.toNat : ℤ) - (s.overload v).toNat) * (g.upstream v).count m := by
  rw [surplus, surplus, overloadedNext, overloadedNext, ho, hc, countP_update, g.count_ogates]
  ring

theorem surplus_addChildren (g : ModuleGraph V) (s : State V) (x m : V) (d : ℤ) :
    surplus g (s.addChildren x d) m = surplus g s m + if m = x then d else 0 := by
  rw [surplus, surplus, State.childrenOverload_addChildren, overloadedNext, overloadedNext,
    State.overload_addChildren]
  ring

/-- One gate more of the loop. -/
theorem mul_count_concat (d : ℤ) (done : List V) (x m : V) :
    d * ((done ++ [x]).count m : ℤ) = d * done.count m + if m = x then d else 0 := by
  by_cases hx : m = x
  · subst hx
    simp
    ring
  · simp [hx, Ne.symm hx]

/-- Only an overload keeps `overload_` in a transition. -/
theorem delta_of_kept {f : Flags} {l : Load} {pkt : Bool}
    (h : (getBackpressureState f (l.action pkt)).2 ≠ -1)
    (hk : f.overload = (getBackpressureState f (l.action pkt)).1.overload) : l.delta = 1 := by
  obtain ⟨o, r⟩ := f
  cases l <;> cases pkt <;> cases o <;> cases r <;>
    first | rfl | exact absurd rfl h | exact absurd hk (by decide)

/-- The other transitions change `overload_` by what is counted. -/
theorem delta_of_changed {f : Flags} {l : Load} {pkt : Bool}
    (h : (getBackpressureState f (l.action pkt)).2 ≠ -1)
    (hk : f.overload ≠ (getBackpressureState f (l.action pkt)).1.overload) :
    l.delta =
      ((getBackpressureState f (l.action pkt)).1.overload.toNat : ℤ) - f.overload.toNat := by
  obtain ⟨o, r⟩ := f
  cases l <;> cases pkt <;> cases o <;> cases r <;>
    first | rfl | exact absurd rfl h | exact absurd rfl hk

/-- The induction: in the loop the counters of the gates done have been changed, those of the
others are still to come. -/
theorem surplusRule (g : ModuleGraph V) (l : Load) (pkt : Bool) (accepts : V → Bool) :
    CallRule g l pkt accepts
      (fun _ s r => ∀ m, surplus g r.state m = surplus g s m + gatesTo g r.kept m)
      (fun v s done acc => ∀ m, surplus g acc.1.state m + l.delta * (g.upstream v).count m =
        surplus g s m + gatesTo g acc.1.kept m + l.delta * done.count m) where
  bpqInc v s hv m := by
    have hup : (g.upstream v).count m = 0 := by simp [g.upstream_of_bpqInc hv]
    have hset : ∀ t : State V, t.overload = Function.update s.overload v l.flag →
        t.childrenOverload = s.childrenOverload → surplus g t m = surplus g s m := by
      intro t ho hc
      rw [surplus_update g s t v m l.flag ho hc, hup]
      simp
    simp only [bpqIncSignal]
    split_ifs <;> simp [gatesTo, hset]
  ignored v s _ _ m := by simp [gatesTo]
  moved v s _ hst m := by
    have hsur := surplus_update g s _ v m _
      (State.overload_setFlags s v (getBackpressureState (s.flags v) (l.action pkt)).1) rfl
    simp only [Backpressure.moved, hsur, List.count_nil, Nat.cast_zero, mul_zero, add_zero]
    by_cases hk : s.overload v = (getBackpressureState (s.flags v) (l.action pkt)).1.overload
    · rw [if_pos hk, gatesTo_singleton, delta_of_kept hst hk, ← hk]
      ring
    · have hδ : l.delta = _ - ((s.overload v).toNat : ℤ) := delta_of_changed hst hk
      rw [if_neg hk, gatesTo_nil, hδ]
      simp
  passed v s done x acc _ hQ _ m := by
    have := hQ m
    rw [surplus_addChildren, mul_count_concat]
    linarith
  told v s done x acc r _ hQ _ _ hP _ m := by
    have hacc := hQ m
    have hr := hP m
    rw [surplus_addChildren] at hr
    simp only [Outcome.andThen, gatesTo_append, Nat.cast_add]
    rw [mul_count_concat]
    linarith
  finished v s acc _ hQ m := by
    have := hQ m
    rw [finish]
    split_ifs <;> linarith

variable [Fintype V]

/-- **The drift of one call**: a counter gets too high by the gates that lead to modules whose
`overload_` was set before and after a transition. -/
theorem surplus_signal (g : ModuleGraph V) (l : Load) (pkt : Bool) (accepts : V → Bool) (v : V)
    (s : State V) (m : V) :
    surplus g (signal g l pkt accepts v s).state m =
      surplus g s m + gatesTo g (signal g l pkt accepts v s).kept m :=
  (surplusRule g l pkt accepts).signal v s m

/-- A call keeps the counters exact when no module with gates leading to it kept `overload_`. -/
theorem exact_outcome_iff_kept {g : ModuleGraph V} {s : State V} (h : Exact g s) (c : Call V) :
    Exact g (c.outcome g s).state ↔ ∀ x ∈ (c.outcome g s).kept, g.upstream x = [] := by
  rw [exact_iff_surplus] at h ⊢
  rw [c.outcome_eq, ← gatesTo_eq_zero_iff]
  simp only [surplus_signal, h, zero_add, Nat.cast_eq_zero]

omit [Fintype V] in
theorem keptRule (g : ModuleGraph V) {l : Load} {pkt : Bool} (accepts : V → Bool)
    (h : l = .underload ∨ pkt = true) :
    CallRule g l pkt accepts (fun _ _ r => r.kept = []) (fun _ _ _ acc => acc.1.kept = []) where
  bpqInc v s _ := by
    simp only [bpqIncSignal]
    split_ifs <;> rfl
  ignored _ _ _ _ := rfl
  moved v s _ hst := by
    refine if_neg fun hk => ?_
    have hδ : l.delta = 1 := delta_of_kept hst hk
    rcases h with rfl | rfl
    · exact absurd hδ (by decide)
    · -- a local overload is ignored by a module that is overloaded
      have hflags : s.flags v = ⟨s.overload v, s.overlayOverload v⟩ := rfl
      cases l with
      | underload => exact absurd hδ (by decide)
      | overload =>
        revert hk hst
        rw [hflags]
        cases s.overload v <;> cases s.overlayOverload v <;> decide
  passed _ _ _ _ _ _ hQ _ := hQ
  told _ _ _ _ _ _ _ hQ _ _ hP _ := by simp [Outcome.andThen, hQ, hP]
  finished v s acc _ hQ := by
    rw [finish]
    split_ifs <;> exact hQ

/-- `SignalOverloadBP` without a packet, that comes to a module with gates leading to it that is
overloaded already: it is so before the call, or it is the module called, to which the signal
comes back. -/
def Call.Recounts (g : ModuleGraph V) (s : State V) (c : Call V) : Prop :=
  c.load = .overload ∧ c.pkt = false ∧ ∃ x, g.upstream x ≠ [] ∧
    (ReflTransGen (Passes g s) c.module x ∧ s.overload x = true ∨
      x = c.module ∧ TransGen (Passes g s) c.module x)

omit [Fintype V] in
theorem Exact.nonneg {g : ModuleGraph V} {s : State V} (h : Exact g s) (m : V) :
    0 ≤ s.childrenOverload m := by
  rw [h m]
  exact Int.natCast_nonneg _

/-- **The calls that keep the counters exact**, told by the state before. -/
theorem exact_outcome_iff {g : ModuleGraph V} {s : State V} (h : Exact g s) (hs : Sane g s)
    (c : Call V) : Exact g (c.outcome g s).state ↔ ¬ c.Recounts g s := by
  rw [exact_outcome_iff_kept h]
  by_cases hc : c.load = .underload ∨ c.pkt = true
  · have hnot : ¬ c.Recounts g s := by
      rintro ⟨hl, hp, -⟩
      rcases hc with hc | hc
      · exact absurd (hl.symm.trans hc) (by decide)
      · exact absurd (hp.symm.trans hc) (by decide)
    rw [c.outcome_eq, (keptRule g c.accepts hc).signal]
    simp [hnot]
  · obtain ⟨hl, hp⟩ : c.load = .overload ∧ c.pkt = false := by
      cases hl : c.load <;> cases hp : c.pkt <;> simp_all
    have hkept := (spread_signal c.accepts hs c.module).kept
    have hreach := reached_iff c.accepts hs h.nonneg c.module
    have hbpq : ∀ x, g.upstream x ≠ [] → g.bpqInc x = false := by
      intro x hx
      cases hb : g.bpqInc x with
      | false => rfl
      | true => exact absurd (g.upstream_of_bpqInc hb) hx
    rw [c.outcome_eq, hl, hp]
    simp only [Call.Recounts, hl, hp, true_and, hkept, hreach, not_exists,
      reflTransGen_iff_eq_or_transGen]
    refine forall_congr' fun x => ?_
    by_cases hx : g.upstream x = []
    · simp [hx]
    · have := hbpq x hx
      simp only [hx, this, true_and, not_false_eq_true, ne_eq, imp_false]
      tauto

/-! ### Sequences of calls -/

theorem sane_after (g : ModuleGraph V) (calls : List (Call V)) : Sane g (after g calls) := by
  intro x hx hxo
  obtain ⟨sigs, hsigs⟩ := exists_flags_after g calls hx
  have hboth := overload_deliverAll sigs
  rw [← hsigs] at hboth
  exact hboth hxo

omit [Fintype V] in
theorem exact_idle (g : ModuleGraph V) : Exact g .idle := by
  intro m
  simp [State.idle, overloadedNext]

/-- **When the counters are the numbers of overloaded children.**  Along a sequence of calls that
starts with nothing overloaded, the counters are exact, and no source is blocked while nothing is
overloaded, after every call exactly when no call is an overload of the overlay that comes to a
module with gates leading to it that is overloaded already. -/
theorem exact_iff (g : ModuleGraph V) (calls : List (Call V)) :
    (∀ p, p <+: calls → Exact g (after g p) ∧ ((∀ x, (after g p).overload x = false) →
        ∀ m, (after g p).childrenOverload m = 0 ∧ ¬ (after g p).Blocked m)) ↔
      ∀ p c, p ++ [c] <+: calls → ¬ c.Recounts g (after g p) := by
  have hrule := Run.forall_prefix_iff (P := fun p => Exact g (after g p))
    (Q := fun p c => ¬ c.Recounts g (after g p)) (exact_idle g)
    calls fun p c _ h => by rw [after_concat]; exact exact_outcome_iff h (sane_after g p) c
  rw [← hrule]
  constructor
  · exact fun h p hp => (h p hp).1
  · exact fun h p hp => ⟨h p hp, (h p hp).not_blocked⟩

/-- A source and the module behind its only output gate. -/
def pair : ModuleGraph (Fin 2) where
  igates x := if x = 1 then [some [0]] else []
  ogates m := if m = 0 then [1] else []
  bpqInc x := x == 0
  overlayPort _ := false
  propagateWorkers _ := true
  connected := by decide
  bpqInc_igates := by decide

/-- Calls on the second module of the pair: overloaded, then twice by the overlay, then released. -/
def pairCalls : List (Call (Fin 2)) :=
  [⟨1, .overload, true, fun _ => false⟩, ⟨1, .overload, false, fun _ => false⟩,
    ⟨1, .overload, false, fun _ => false⟩, ⟨1, .underload, true, fun _ => false⟩]

/-- The overlay's word about a module that is overloaded already is counted once more, and when
the module is released its source stays blocked. -/
theorem children_counted_twice :
    overloadedNext pair (after pair (pairCalls.take 2)) 0 = 1 ∧
      (after pair (pairCalls.take 2)).childrenOverload 0 = 2 ∧
      ¬ Exact pair (after pair (pairCalls.take 2)) ∧
      overloadedNext pair (after pair pairCalls) 0 = 0 ∧
      (after pair pairCalls).Blocked 0 := by
  have hcount : (after pair (pairCalls.take 2)).childrenOverload 0 = 2 := by decide +kernel
  have hnext : overloadedNext pair (after pair (pairCalls.take 2)) 0 = 1 := by decide +kernel
  refine ⟨hnext, hcount, fun h => ?_, by decide +kernel, ?_⟩
  · have := h 0
    rw [hcount, hnext] at this
    exact absurd this (by decide)
  · have hend : (after pair pairCalls).childrenOverload 0 = 2 := by decide +kernel
    rw [State.Blocked, hend]
    decide

/-- As long as the overlay reports no overload, the counters are exact. -/
theorem exact_of_no_overlay_overload (g : ModuleGraph V) (calls : List (Call V))
    (h : ∀ c ∈ calls, c.load = .underload ∨ c.pkt = true) : Exact g (after g calls) := by
  induction calls using List.reverseRecOn with
  | nil => exact exact_idle g
  | append_singleton calls c ih =>
    have hexact := ih fun d hd => h d (List.mem_append_left _ hd)
    rw [after_concat, exact_outcome_iff hexact (sane_after g calls)]
    rintro ⟨hl, hp, -⟩
    rcases h c (by simp) with hc | hc
    · exact absurd (hl.symm.trans hc) (by decide)
    · exact absurd (hp.symm.trans hc) (by decide)

end Backdraft.Backpressure

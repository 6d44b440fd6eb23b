import Backdraft.Backpressure.Graph

/-!
# Backpressure: which modules a signal enters

A call of `SignalOverloadBP` or `SignalUnderloadBP` calls the same function of upstream modules.
On a graph with cycles it could come back to a module again and again: an overlay overload signal is
never absorbed by the flags.  What ends it is the count of overloaded children, which moves in one
direction through the value at which the signal goes on.

* `signalTraced`: the two functions, with the list of the modules entered by recursion;
* `fst_signalTraced`: without the list it is `signalBP`;
* `signalTraced_mono`: more fuel does not change what is returned;
* `Entered`: the modules of the list were pending before and are not any more, so none is entered
  twice (`entered_signalTraced`).
-/

namespace Backdraft.Backpressure

variable {V : Type*} [DecidableEq V]

section Signal

variable (g : ModuleGraph V) (l : Load) (pkt : Bool) (accepts : V → Bool)

/-- `tellUpstream`, with the modules entered so far. -/
def tellTraced (tell : V → State V → Option (Outcome V × List V))
    (acc : (Outcome V × Bool) × List V) (m : V) : Option ((Outcome V × Bool) × List V) :=
  let s := acc.1.1.state.addChildren m l.delta
  if g.propagateWorkers m && s.childrenOverload m == l.turn then
    (tell m s).map fun r => ((acc.1.1.andThen r.1, false), acc.2 ++ m :: r.2)
  else some (({ acc.1.1 with state := s }, acc.1.2), acc.2)

/-- `signalBP`, with the modules entered by recursion, in order. -/
def signalTraced : ℕ → V → State V → Option (Outcome V × List V)
  | 0, _, _ => none
  | fuel + 1, v, s =>
    if g.bpqInc v then some (bpqIncSignal g l pkt accepts v s, [])
    else
      let r := getBackpressureState (s.flags v) (l.action pkt)
      if r.2 = -1 then some (⟨s.setFlags v r.1, free pkt, [], [v]⟩, [])
      else
        ((g.upstream v).foldlM (tellTraced g l (signalTraced fuel)) ((moved v s r.1, true), [])).map
          fun acc => (finish pkt v acc.1, acc.2)

end Signal

variable {g : ModuleGraph V} {l : Load} {pkt : Bool} {accepts : V → Bool}

/-! ### The trace and the fuel do not matter -/

theorem fst_tellTraced {tell : V → State V → Option (Outcome V × List V)}
    {tell' : V → State V → Option (Outcome V)}
    (htell : ∀ x t, (tell x t).map Prod.fst = tell' x t)
    (acc : (Outcome V × Bool) × List V) (m : V) :
    (tellTraced g l tell acc m).map Prod.fst = tellUpstream g l tell' acc.1 m := by
  simp only [tellTraced, tellUpstream, ← htell]
  split_ifs
  · rw [Option.map_map, Option.map_map]
    rfl
  · rfl

/-- Without its trace, the call is the call of the source. -/
theorem fst_signalTraced (fuel : ℕ) (v : V) (s : State V) :
    (signalTraced g l pkt accepts fuel v s).map Prod.fst = signalBP g l pkt accepts fuel v s := by
  induction fuel generalizing v s with
  | zero => rfl
  | succ fuel ih =>
    rw [signalTraced, signalBP]
    simp only
    split_ifs
    · rfl
    · rfl
    · rw [Option.map_map, ← Run.foldlM_hom (fst_tellTraced ih) _ (_, []), Option.map_map]
      rfl

theorem tellTraced_mono {tell tell' : V → State V → Option (Outcome V × List V)}
    (htell : ∀ x t r, tell x t = some r → tell' x t = some r)
    (acc : (Outcome V × Bool) × List V) (m : V) (acc' : (Outcome V × Bool) × List V)
    (h : tellTraced g l tell acc m = some acc') : tellTraced g l tell' acc m = some acc' := by
  simp only [tellTraced] at h ⊢
  split_ifs at h ⊢
  · obtain ⟨r, hr, hacc⟩ := Option.map_eq_some_iff.1 h
    exact Option.map_eq_some_iff.2 ⟨r, htell _ _ r hr, hacc⟩
  · exact h

theorem signalTraced_succ {fuel : ℕ} {v : V} {s : State V} {r : Outcome V × List V}
    (h : signalTraced g l pkt accepts fuel v s = some r) :
    signalTraced g l pkt accepts (fuel + 1) v s = some r := by
  induction fuel generalizing v s r with
  | zero => cases h
  | succ fuel ih =>
    rw [signalTraced] at h ⊢
    simp only at h ⊢
    split_ifs at h ⊢
    · exact h
    · exact h
    · obtain ⟨acc, hacc, hr⟩ := Option.map_eq_some_iff.1 h
      have hmore := Run.foldlM_mono (tellTraced_mono fun x t r => ih) hacc
      exact Option.map_eq_some_iff.2 ⟨acc, hmore, hr⟩

/-- More fuel does not change what a call returns. -/
theorem signalTraced_mono {fuel fuel' : ℕ} (hle : fuel ≤ fuel') {v : V} {s : State V}
    {r : Outcome V × List V} (h : signalTraced g l pkt accepts fuel v s = some r) :
    signalTraced g l pkt accepts fuel' v s = some r := by
  induction hle with
  | refl => exact h
  | step _ ih => exact signalTraced_succ ih

/-! ### No module is entered twice -/

/-- Between `s` and `t` the modules of the list were entered: each was pending, and is not any
more. -/
structure Entered (l : Load) (s t : State V) (entered : List V) : Prop where
  nodup : entered.Nodup
  pending : ∀ x ∈ entered, l.Pending (s.childrenOverload x)
  settled : ∀ x ∈ entered, ¬ l.Pending (t.childrenOverload x)
  settles : Settles l s t

omit [DecidableEq V] in
theorem entered_nil {s t : State V} (h : t.childrenOverload = s.childrenOverload) :
    Entered l s t [] := by
  refine ⟨List.nodup_nil, fun _ hx => absurd hx List.not_mem_nil,
    fun _ hx => absurd hx List.not_mem_nil, fun x hx => ?_⟩
  rwa [h] at hx

namespace Entered

variable {s t u : State V} {entered inner : List V} {m : V}

/-- A module upstream is counted, and not told. -/
theorem passed (h : Entered l s t entered) (m : V) :
    Entered l s (t.addChildren m l.delta) entered :=
  ⟨h.nodup, h.pending, fun x hx hp => h.settled x hx (State.pending_of_addChildren hp),
    fun x hx => h.settles x (State.pending_of_addChildren hx)⟩

/-- A module upstream is told, and enters the modules of `inner`. -/
theorem told (h : Entered l s t entered) (hturn : t.childrenOverload m + l.delta = l.turn)
    (hinner : Entered l (t.addChildren m l.delta) u inner) :
    Entered l s u (entered ++ m :: inner) := by
  have hm : l.Pending (t.childrenOverload m) := Load.pending_of_turn hturn
  -- what is entered from now on is still pending in `t`, so it was not entered before
  have hlater : ∀ x ∈ m :: inner, l.Pending (t.childrenOverload x) := by
    intro x hx
    rcases List.mem_cons.1 hx with rfl | hx
    · exact hm
    · exact State.pending_of_addChildren (hinner.pending x hx)
  have hnew : m ∉ inner := fun hmem =>
    State.not_pending_of_turn hturn (hinner.pending m hmem)
  have hend : ∀ x, l.Pending (u.childrenOverload x) → l.Pending (t.childrenOverload x) :=
    fun x hx => State.pending_of_addChildren (hinner.settles x hx)
  refine ⟨?_, ?_, ?_, fun x hx => h.settles x (hend x hx)⟩
  · refine List.nodup_append.2 ⟨h.nodup, List.nodup_cons.2 ⟨hnew, hinner.nodup⟩, ?_⟩
    rintro x hx _ hx' rfl
    exact h.settled x hx (hlater x hx')
  · intro x hx
    rcases List.mem_append.1 hx with hx | hx
    · exact h.pending x hx
    · exact h.settles x (hlater x hx)
  · intro x hx
    rcases List.mem_append.1 hx with hx | hx
    · exact fun hp => h.settled x hx (hend x hp)
    · rcases List.mem_cons.1 hx with rfl | hx
      · exact fun hp => State.not_pending_of_turn hturn (hinner.settles x hp)
      · exact hinner.settled x hx

end Entered

omit [DecidableEq V] in
theorem state_finish (v : V) (acc : Outcome V × Bool) :
    (finish pkt v acc).state = acc.1.state := by
  unfold finish
  split_ifs <;> rfl

theorem childrenOverload_bpqIncSignal (v : V) (s : State V) :
    (bpqIncSignal g l pkt accepts v s).state.childrenOverload = s.childrenOverload := by
  simp only [bpqIncSignal]
  split_ifs <;> rfl

/-- One pass of the loop. -/
theorem Entered.tellTraced {tell : V → State V → Option (Outcome V × List V)}
    (htell : ∀ x t r, tell x t = some r → Entered l t r.1.state r.2) {s : State V}
    (acc : (Outcome V × Bool) × List V) (m : V) (acc' : (Outcome V × Bool) × List V)
    (hacc : Entered l s acc.1.1.state acc.2)
    (h : Backpressure.tellTraced g l tell acc m = some acc') :
    Entered l s acc'.1.1.state acc'.2 := by
  simp only [Backpressure.tellTraced] at h
  split_ifs at h with hturn
  · obtain ⟨r, hr, rfl⟩ := Option.map_eq_some_iff.1 h
    simp only [State.childrenOverload_addChildren, if_true, Bool.and_eq_true, beq_iff_eq] at hturn
    exact hacc.told hturn.2 (htell m _ r hr)
  · cases h
    exact hacc.passed m

/-- **A call enters no module twice.**  The induction is on the fuel. -/
theorem entered_signalTraced {fuel : ℕ} {v : V} {s : State V} {r : Outcome V × List V}
    (h : signalTraced g l pkt accepts fuel v s = some r) : Entered l s r.1.state r.2 := by
  induction fuel generalizing v s r with
  | zero => cases h
  | succ fuel ih =>
    rw [signalTraced] at h
    simp only at h
    split_ifs at h
    · cases h
      exact entered_nil (childrenOverload_bpqIncSignal v s)
    · cases h
      exact entered_nil rfl
    · obtain ⟨acc, hacc, rfl⟩ := Option.map_eq_some_iff.1 h
      have hloop := Run.foldlM_invariant
        (Q := fun acc : (Outcome V × Bool) × List V => Entered l s acc.1.1.state acc.2)
        (Entered.tellTraced fun x t r hr => ih hr) (entered_nil (by rfl)) hacc
      rw [state_finish]
      exact hloop

/-- **Propagation ends.**  In every finite graph and every state, a call of either function, with a
packet or without, returns, and enters each module by recursion at most once: more fuel than there
are modules always gives the same outcome and the same list of entered modules. -/
theorem signal_enters_once [Fintype V] (g : ModuleGraph V) (l : Load) (pkt : Bool)
    (accepts : V → Bool) (v : V) (s : State V) :
    ∃ r entered, entered.Nodup ∧
      ∀ fuel, Fintype.card V < fuel →
        signalTraced g l pkt accepts fuel v s = some (r, entered) ∧
        signalBP g l pkt accepts fuel v s = some r := by
  have hsome := signalBP_isSome g l pkt accepts v s
  rw [← fst_signalTraced, Option.isSome_map, Option.isSome_iff_exists] at hsome
  obtain ⟨⟨r, entered⟩, h⟩ := hsome
  refine ⟨r, entered, (entered_signalTraced h).nodup, fun fuel hfuel => ?_⟩
  have hmore := signalTraced_mono hfuel h
  exact ⟨hmore, by rw [← fst_signalTraced, hmore]; rfl⟩

/-- Three modules in a ring. -/
def triangle : ModuleGraph (Fin 3) where
  igates x := [some [⟨(x.val + 2) % 3, Nat.mod_lt _ (by decide)⟩]]
  ogates m := [⟨(m.val + 1) % 3, Nat.mod_lt _ (by decide)⟩]
  bpqInc _ := false
  overlayPort _ := false
  propagateWorkers _ := true
  connected := by decide
  bpqInc_igates _ h := absurd h (by decide)

-- an overlay signal goes round and comes back to the module that was called, once
example : (signalTraced triangle .overload false (fun _ => false) 4 0 .idle).map Prod.snd =
    some [2, 1, 0] := by decide

end Backdraft.Backpressure

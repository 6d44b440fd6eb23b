import Mathlib.Tactic
import Mathlib.Data.Fintype.Card
import Backdraft.Lib.Run
import Backdraft.Backpressure.Automaton

/-!
# Backpressure: signals in a graph of modules

`SignalOverloadBP` and `SignalUnderloadBP` move the flags of a module and then, unless the signal
was ignored, count up (or down) `children_overload_` of the module behind every gate that leads
here; the first overloaded child (or the last one gone) makes them call the same function of that
module.  `BPQInc` modules have no input gates and override both functions.

* `ModuleGraph`: the gates, with every output gate known to the module it leads to;
* `State`, `Outcome`: flags and counters, and what a call leaves behind;
* `signalBP`: the two functions, with fuel for the recursion;
* `signal`: the same without fuel, since a module is told at most once (`CallRule.total`);
* `CallRule`: the induction rule for everything that is proved about a call;
* `Call`, `after`: sequences of calls, from the start;
* `flags_signal`, `exists_flags_after`: calls reach the flags of a module as whole signals.

The statistics counters of the two functions are left out.
-/

namespace Backdraft.Backpressure

/-- `SignalOverloadBP` or `SignalUnderloadBP`. -/
inductive Load
  | overload
  | underload
  deriving DecidableEq

namespace Load

/-- What is added to the count of overloaded children. -/
def delta : Load → ℤ
  | overload => 1
  | underload => -1

/-- The count at which the signal goes on. -/
def turn : Load → ℤ
  | overload => 1
  | underload => 0

/-- The value that `overload_` takes in a `BPQInc`. -/
def flag : Load → Bool
  | overload => true
  | underload => false

/-- The action for `get_backpressure_state`: local with a packet, of the overlay without. -/
def action : Load → Bool → Signal
  | overload, pkt => if pkt then .localOver else .overlayOver
  | underload, pkt => if pkt then .localUnder else .overlayUnder

/-- A count from which the signal may still go on. -/
def Pending : Load → ℤ → Prop
  | overload, c => c ≤ 0
  | underload, c => 0 < c

instance (l : Load) : DecidablePred l.Pending := fun c =>
  match l with
  | overload => inferInstanceAs (Decidable (c ≤ 0))
  | underload => inferInstanceAs (Decidable (0 < c))

theorem pending_of_add {l : Load} {c : ℤ} (h : l.Pending (c + l.delta)) : l.Pending c := by
  cases l <;> simp only [Pending, delta] at h ⊢ <;> omega

theorem pending_of_turn {l : Load} {c : ℤ} (h : c + l.delta = l.turn) : l.Pending c := by
  cases l <;> simp only [Pending, delta, turn] at h ⊢ <;> omega

theorem not_pending_turn (l : Load) : ¬ l.Pending l.turn := by
  cases l <;> decide

end Load

/-- A packet is freed, or accepted by an overlay port. -/
inductive Consumption
  | freed
  | sent
  deriving DecidableEq

/-- Modules and their gates.  `igates x` are the input gates of `x`, null or with the modules of
the output gates that lead to them; `ogates m` are the next modules of the output gates of `m`. -/
structure ModuleGraph (V : Type*) [DecidableEq V] where
  igates : V → List (Option (List V))
  ogates : V → List V
  bpqInc : V → Bool
  overlayPort : V → Bool
  propagateWorkers : V → Bool
  connected : ∀ m x, (ogates m).count x = ((igates x).filterMap id).flatten.count m
  bpqInc_igates : ∀ x, bpqInc x = true → igates x = []

/-- `overload_`, `overlay_overload_` and `children_overload_` of every module. -/
structure State (V : Type*) where
  overload : V → Bool
  overlayOverload : V → Bool
  childrenOverload : V → ℤ

/-- What a call leaves behind: the state, what became of the packet, and two lists that the source
does not keep: the modules that kept `overload_` in a transition, and those where the signal
ended. -/
structure Outcome (V : Type*) where
  state : State V
  consumed : List Consumption
  kept : List V
  ends : List V

variable {V : Type*}

/-- The outcome of a call made after others. -/
def Outcome.andThen (o r : Outcome V) : Outcome V :=
  ⟨r.state, o.consumed ++ r.consumed, o.kept ++ r.kept, o.ends ++ r.ends⟩

namespace State

/-- Nothing is overloaded. -/
def idle : State V := ⟨fun _ => false, fun _ => false, fun _ => 0⟩

/-- The flags of one module. -/
def flags (s : State V) (v : V) : Flags := ⟨s.overload v, s.overlayOverload v⟩

variable [DecidableEq V]

def setFlags (s : State V) (v : V) (f : Flags) : State V :=
  { s with
    overload := Function.update s.overload v f.overload
    overlayOverload := Function.update s.overlayOverload v f.overlayOverload }

def addChildren (s : State V) (m : V) (d : ℤ) : State V :=
  { s with childrenOverload := Function.update s.childrenOverload m (s.childrenOverload m + d) }

@[simp] theorem overload_setFlags (s : State V) (v : V) (f : Flags) :
    (s.setFlags v f).overload = Function.update s.overload v f.overload := rfl

@[simp] theorem overload_addChildren (s : State V) (m : V) (d : ℤ) :
    (s.addChildren m d).overload = s.overload := rfl

theorem childrenOverload_addChildren (s : State V) (m x : V) (d : ℤ) :
    (s.addChildren m d).childrenOverload x =
      s.childrenOverload x + if x = m then d else 0 := by
  by_cases h : x = m
  · subst h; simp [addChildren]
  · simp [addChildren, h]

end State

variable [DecidableEq V]

namespace ModuleGraph

/-- The modules behind the gates that lead to `x`, in the order of the two loops. -/
def upstream (g : ModuleGraph V) (x : V) : List V := ((g.igates x).filterMap id).flatten

theorem count_ogates (g : ModuleGraph V) (m x : V) :
    (g.ogates m).count x = (g.upstream x).count m := g.connected m x

theorem upstream_of_bpqInc (g : ModuleGraph V) {x : V} (h : g.bpqInc x = true) :
    g.upstream x = [] := by
  simp [upstream, g.bpqInc_igates x h]

end ModuleGraph

/-! ### The two functions -/

section Signal

variable (g : ModuleGraph V) (l : Load) (pkt : Bool) (accepts : V → Bool)

/-- A packet that is freed, if there is one. -/
def free : List Consumption := if pkt then [.freed] else []

/-- `BPQInc::SignalOverloadBP` and `BPQInc::SignalUnderloadBP`; `accepts v` says whether the
overlay port of `v` takes the packet. -/
def bpqIncSignal (v : V) (s : State V) : Outcome V :=
  if s.overload v = l.flag then ⟨s, [], [], [v]⟩
  else
    let s' := { s with overload := Function.update s.overload v l.flag }
    if !pkt then ⟨s', [], [], [v]⟩
    else if !g.overlayPort v then ⟨s', [.freed], [], [v]⟩
    else if !accepts v then ⟨s', [.freed], [], [v]⟩
    else ⟨s', [.sent], [], [v]⟩

/-- The body of the loop over the gates that lead here, with the outcome so far and the flag
`to_be_freed`; `tell` is the call of the upstream module. -/
def tellUpstream (tell : V → State V → Option (Outcome V)) (acc : Outcome V × Bool) (m : V) :
    Option (Outcome V × Bool) :=
  let s := acc.1.state.addChildren m l.delta
  if g.propagateWorkers m && s.childrenOverload m == l.turn then
    (tell m s).map fun r => (acc.1.andThen r, false)
  else some ({ acc.1 with state := s }, acc.2)

/-- The outcome before the loop, after a transition to the flags `f`. -/
def moved (v : V) (s : State V) (f : Flags) : Outcome V :=
  ⟨s.setFlags v f, [], if s.overload v = f.overload then [v] else [], []⟩

/-- The end of the call: a packet that went nowhere is freed. -/
def finish (v : V) (acc : Outcome V × Bool) : Outcome V :=
  if acc.2 then
    { acc.1 with consumed := acc.1.consumed ++ free pkt, ends := acc.1.ends ++ [v] }
  else acc.1

/-- `SignalOverloadBP` and `SignalUnderloadBP`. -/
def signalBP : ℕ → V → State V → Option (Outcome V)
  | 0, _, _ => none
  | fuel + 1, v, s =>
    if g.bpqInc v then some (bpqIncSignal g l pkt accepts v s)
    else
      let r := getBackpressureState (s.flags v) (l.action pkt)
      if r.2 = -1 then some ⟨s.setFlags v r.1, free pkt, [], [v]⟩
      else
        ((g.upstream v).foldlM (tellUpstream g l (signalBP fuel)) (moved v s r.1, true)).map
          (finish pkt v)

/-! ### A call returns -/

/-- No module may be told in `t` that may not be told in `s`. -/
def Settles (l : Load) (s t : State V) : Prop :=
  ∀ x, l.Pending (t.childrenOverload x) → l.Pending (s.childrenOverload x)

/-- What is to be shown about calls (`P`, for a module, the state before and the outcome) and
about their loops (`Q`, with the gates done and the accumulator). -/
structure CallRule (P : V → State V → Outcome V → Prop)
    (Q : V → State V → List V → Outcome V × Bool → Prop) : Prop where
  bpqInc : ∀ v s, g.bpqInc v = true → P v s (bpqIncSignal g l pkt accepts v s)
  ignored : ∀ v s, g.bpqInc v = false →
    (getBackpressureState (s.flags v) (l.action pkt)).2 = -1 → P v s ⟨s, free pkt, [], [v]⟩
  moved : ∀ v s, g.bpqInc v = false →
    (getBackpressureState (s.flags v) (l.action pkt)).2 ≠ -1 →
    Q v s [] (moved v s (getBackpressureState (s.flags v) (l.action pkt)).1, true)
  passed : ∀ v s done m acc, done ++ [m] <+: g.upstream v → Q v s done acc →
    (g.propagateWorkers m = true → acc.1.state.childrenOverload m + l.delta ≠ l.turn) →
    Q v s (done ++ [m]) ({ acc.1 with state := acc.1.state.addChildren m l.delta }, acc.2)
  told : ∀ v s done m acc r, done ++ [m] <+: g.upstream v → Q v s done acc →
    g.propagateWorkers m = true → acc.1.state.childrenOverload m + l.delta = l.turn →
    P m (acc.1.state.addChildren m l.delta) r →
    Settles l (acc.1.state.addChildren m l.delta) r.state →
    Q v s (done ++ [m]) (acc.1.andThen r, false)
  finished : ∀ v s acc, g.bpqInc v = false → Q v s (g.upstream v) acc → P v s (finish pkt v acc)

end Signal

theorem State.setFlags_flags (s : State V) (v : V) : s.setFlags v (s.flags v) = s := by
  simp [setFlags, flags]

theorem State.pending_of_addChildren {s : State V} {l : Load} {m x : V}
    (h : l.Pending ((s.addChildren m l.delta).childrenOverload x)) :
    l.Pending (s.childrenOverload x) := by
  rw [childrenOverload_addChildren] at h
  split_ifs at h
  · exact Load.pending_of_add h
  · simpa using h

/-- The module that is told is not told again. -/
theorem State.not_pending_of_turn {s : State V} {l : Load} {m : V}
    (h : s.childrenOverload m + l.delta = l.turn) :
    ¬ l.Pending ((s.addChildren m l.delta).childrenOverload m) := by
  rw [childrenOverload_addChildren, if_pos rfl, h]
  exact l.not_pending_turn

section Total

variable [Fintype V] {g : ModuleGraph V} {l : Load} {pkt : Bool} {accepts : V → Bool}
  {P : V → State V → Outcome V → Prop} {Q : V → State V → List V → Outcome V × Bool → Prop}

/-- The number of modules that may still be told. -/
def unsettled (l : Load) (s : State V) : ℕ :=
  (Finset.univ.filter fun x => l.Pending (s.childrenOverload x)).card

theorem unsettled_lt_of_turn {s t : State V} {m : V}
    (ht : Settles l s t) (h : t.childrenOverload m + l.delta = l.turn) :
    unsettled l (t.addChildren m l.delta) < unsettled l s := by
  refine Finset.card_lt_card (Finset.ssubset_iff_of_subset ?_ |>.2 ⟨m, ?_, ?_⟩)
  · intro x hx
    simp only [Finset.mem_filter, Finset.mem_univ, true_and] at hx ⊢
    exact ht x (State.pending_of_addChildren hx)
  · simpa using ht m (Load.pending_of_turn h)
  · simpa using State.not_pending_of_turn h

/-- One pass of the loop, with calls that return when fewer modules may be told. -/
theorem CallRule.tellUpstream_total (hr : CallRule g l pkt accepts P Q) {v m : V} {s : State V}
    {tell : V → State V → Option (Outcome V)}
    (htell : ∀ x t, unsettled l t < unsettled l s →
      ∃ r, tell x t = some r ∧ P x t r ∧ Settles l t r.state)
    {done : List V} {acc : Outcome V × Bool} (hp : done ++ [m] <+: g.upstream v)
    (hacc : Q v s done acc ∧ Settles l s acc.1.state) :
    ∃ acc', tellUpstream g l tell acc m = some acc' ∧
      Q v s (done ++ [m]) acc' ∧ Settles l s acc'.1.state := by
  obtain ⟨hQ, hmono⟩ := hacc
  have hadd : Settles l s (acc.1.state.addChildren m l.delta) :=
    fun x hx => hmono x (State.pending_of_addChildren hx)
  by_cases ht : g.propagateWorkers m = true ∧
      acc.1.state.childrenOverload m + l.delta = l.turn
  · obtain ⟨r, hsig, hP, hset⟩ := htell m _ (unsettled_lt_of_turn hmono ht.2)
    refine ⟨(acc.1.andThen r, false), ?_, hr.told v s done m acc r hp hQ ht.1 ht.2 hP hset,
      fun x hx => hadd x (hset x hx)⟩
    simp [tellUpstream, ht, State.childrenOverload_addChildren, hsig]
  · refine ⟨_, ?_, hr.passed v s done m acc hp hQ (not_and.1 ht), hadd⟩
    simp only [tellUpstream, State.childrenOverload_addChildren, Bool.and_eq_true, beq_iff_eq]
    exact if_neg (by simpa using ht)

/-- **A call returns**, and what the rule shows holds of its outcome.  The induction is on the
fuel; a module is told only when one module fewer may be told from then on. -/
theorem CallRule.total (hr : CallRule g l pkt accepts P Q) (fuel : ℕ) (v : V) (s : State V)
    (hfuel : unsettled l s < fuel) :
    ∃ r, signalBP g l pkt accepts fuel v s = some r ∧ P v s r ∧ Settles l s r.state := by
  induction fuel generalizing v s with
  | zero => omega
  | succ fuel ih =>
    rw [signalBP]
    by_cases hv : g.bpqInc v = true
    · refine ⟨_, if_pos hv, hr.bpqInc v s hv, fun x hx => ?_⟩
      simp only [bpqIncSignal] at hx
      split_ifs at hx <;> exact hx
    rw [if_neg hv]
    have hv' : g.bpqInc v = false := by simpa using hv
    by_cases hst : (getBackpressureState (s.flags v) (l.action pkt)).2 = -1
    · simp only [if_pos hst, getBackpressureState_ignored _ _ hst, State.setFlags_flags]
      exact ⟨_, rfl, hr.ignored v s hv' hst, fun _ hx => hx⟩
    simp only [if_neg hst]
    obtain ⟨acc, hacc, hQ, hmono⟩ := Run.exists_foldlM
      (Q := fun done acc => Q v s done acc ∧ Settles l s acc.1.state) (g.upstream v)
      ⟨hr.moved v s hv' hst, fun _ hx => hx⟩ fun done m acc hp =>
        hr.tellUpstream_total (fun x t ht => ih x t (by omega)) hp
    refine ⟨_, by rw [hacc]; rfl, hr.finished v s acc hv' hQ, fun x hx => hmono x ?_⟩
    rw [finish] at hx
    split_ifs at hx <;> exact hx

omit [DecidableEq V] in
theorem unsettled_lt (l : Load) (s : State V) : unsettled l s < Fintype.card V + 1 :=
  Nat.lt_succ_of_le (Finset.card_le_univ _)

theorem signalBP_isSome (g : ModuleGraph V) (l : Load) (pkt : Bool) (accepts : V → Bool) (v : V)
    (s : State V) : (signalBP g l pkt accepts (Fintype.card V + 1) v s).isSome := by
  have hr : CallRule g l pkt accepts (fun _ _ _ => True) (fun _ _ _ _ => True) := by
    constructor <;> intros <;> trivial
  obtain ⟨r, h, -⟩ := hr.total _ v s (unsettled_lt l s)
  simp [h]

/-- A call of either function. -/
def signal (g : ModuleGraph V) (l : Load) (pkt : Bool) (accepts : V → Bool) (v : V)
    (s : State V) : Outcome V :=
  (signalBP g l pkt accepts (Fintype.card V + 1) v s).get (signalBP_isSome g l pkt accepts v s)

/-- `SignalOverloadBP`. -/
def signalOverloadBP (g : ModuleGraph V) := signal g .overload

/-- `SignalUnderloadBP`. -/
def signalUnderloadBP (g : ModuleGraph V) := signal g .underload

/-- **The rule for calls.** -/
theorem CallRule.signal (hr : CallRule g l pkt accepts P Q) (v : V) (s : State V) :
    P v s (signal g l pkt accepts v s) := by
  obtain ⟨r, h, hP, -⟩ := hr.total _ v s (unsettled_lt l s)
  simpa [Backpressure.signal, h] using hP

/-! ### The flags of one module -/

omit [Fintype V] in
theorem flagsRule (g : ModuleGraph V) (l : Load) (pkt : Bool) (accepts : V → Bool) :
    CallRule g l pkt accepts
      (fun v s r => ∀ x, g.bpqInc x = false → ∃ k, (x = v → 0 < k) ∧
        r.state.flags x = (fun f => deliver f (l.action pkt))^[k] (s.flags x))
      (fun v s _ acc => ∀ x, g.bpqInc x = false → ∃ k, (x = v → 0 < k) ∧
        acc.1.state.flags x = (fun f => deliver f (l.action pkt))^[k] (s.flags x)) where
  bpqInc v s hv x hx := by
    have hxv : x ≠ v := fun h => by rw [h, hv] at hx; exact absurd hx (by decide)
    refine ⟨0, fun h => absurd h hxv, ?_⟩
    simp only [bpqIncSignal]
    split_ifs <;> simp [State.flags, hxv]
  ignored v s hv hst x hx := by
    by_cases hxv : x = v
    · subst hxv
      exact ⟨1, fun _ => Nat.one_pos, (getBackpressureState_ignored _ _ hst).symm⟩
    · exact ⟨0, fun h => absurd h hxv, rfl⟩
  moved v s _ _ x _ := by
    by_cases hxv : x = v
    · subst hxv
      refine ⟨1, fun _ => Nat.one_pos, ?_⟩
      simp [Backpressure.moved, State.setFlags, State.flags, deliver]
    · refine ⟨0, fun h => absurd h hxv, ?_⟩
      simp [Backpressure.moved, State.setFlags, State.flags, hxv]
  passed _ _ _ _ _ _ hQ _ := hQ
  told v s done m acc r _ hQ _ _ hP _ x hx := by
    obtain ⟨k, hpos, hk⟩ := hQ x hx
    obtain ⟨j, -, hj⟩ := hP x hx
    refine ⟨j + k, fun h => Nat.add_pos_right j (hpos h), ?_⟩
    rw [Function.iterate_add_apply, ← hk]
    exact hj
  finished v s acc _ hQ := by
    rw [finish]
    split_ifs <;> exact hQ

/-- A call delivers its signal to the module that is called, and otherwise changes the flags of a
module only by delivering the same signal to it. -/
theorem flags_signal (g : ModuleGraph V) (l : Load) (pkt : Bool) (accepts : V → Bool) (v : V)
    (s : State V) {x : V} (hx : g.bpqInc x = false) :
    ∃ k, (x = v → 0 < k) ∧ (signal g l pkt accepts v s).state.flags x =
      (fun f => deliver f (l.action pkt))^[k] (s.flags x) :=
  (flagsRule g l pkt accepts).signal v s x hx

/-- A call in a sequence of calls: which module is called, with or without a packet, and which
overlay ports take it. -/
structure Call (V : Type*) where
  module : V
  load : Load
  pkt : Bool
  accepts : V → Bool

/-- Carry out a call. -/
def Call.outcome (g : ModuleGraph V) (c : Call V) (s : State V) : Outcome V :=
  match c.load with
  | .overload => signalOverloadBP g c.pkt c.accepts c.module s
  | .underload => signalUnderloadBP g c.pkt c.accepts c.module s

/-- The state after a sequence of calls, from the start. -/
def after (g : ModuleGraph V) (calls : List (Call V)) : State V :=
  calls.foldl (fun s c => (c.outcome g s).state) .idle

@[simp] theorem after_concat (g : ModuleGraph V) (calls : List (Call V)) (c : Call V) :
    after g (calls ++ [c]) = (c.outcome g (after g calls)).state := by
  simp [after]

theorem Call.outcome_eq (g : ModuleGraph V) (c : Call V) (s : State V) :
    c.outcome g s = signal g c.load c.pkt c.accepts c.module s := by
  obtain ⟨v, l, pkt, accepts⟩ := c
  cases l <;> rfl

/-- After any calls the flags of a module are those of the signals that reached it. -/
theorem exists_flags_after (g : ModuleGraph V) (calls : List (Call V)) {x : V}
    (hx : g.bpqInc x = false) : ∃ sigs, (after g calls).flags x = deliverAll sigs := by
  induction calls using List.reverseRecOn with
  | nil => exact ⟨[], rfl⟩
  | append_singleton calls c ih =>
    obtain ⟨sigs, hsigs⟩ := ih
    obtain ⟨k, -, hk⟩ := flags_signal g c.load c.pkt c.accepts c.module (after g calls) hx
    refine ⟨sigs ++ List.replicate k (c.load.action c.pkt), ?_⟩
    rw [after_concat, c.outcome_eq, hk, hsigs, deliverAll_append_replicate]

end Total

end Backdraft.Backpressure

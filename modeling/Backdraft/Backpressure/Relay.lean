import Mathlib.Logic.Relation
import Backdraft.Backpressure.Counters

/-!
# Backpressure: modules that pass a signal on

A module between a source and an output queue has no overload of its own: it is told when the first
of its children is overloaded, and when the last of them is not any more.  While the overlay is
silent, `overload_` of such a module therefore says that it has an overloaded child, and a source is
stopped exactly while its packets may come to an overloaded module that no other module tells
anything.

* `Relay`, `Deaf`: the modules that are told about their children, and those that are not;
* `Quiet`: no word of the overlay, and relays whose flag follows their children;
* `Quiet.signal`, `Quiet.overload_signal`: a call with a packet keeps that, and changes the flag of
  no deaf module but the one that is called;
* `Leads`: the packets of one module may come to another one through relays;
* `Quiet.blocked_of_leads`, `Quiet.blocked_iff_exists`: what stops a source.
-/

namespace Backdraft.Backpressure

variable {V : Type*} [DecidableEq V] {g : ModuleGraph V} {l : Load} {accepts : V → Bool}

/-- A module that its children may call. -/
structure Relay (g : ModuleGraph V) (x : V) : Prop where
  bpqInc_eq : g.bpqInc x = false
  ogates_ne : g.ogates x ≠ []
  propagateWorkers_eq : g.propagateWorkers x = true

/-- A module that is no source and that nobody calls on behalf of a child: it has none, or it does
not pass on who works for it. -/
def Deaf (g : ModuleGraph V) (x : V) : Prop :=
  g.bpqInc x = false ∧ (g.ogates x = [] ∨ g.propagateWorkers x = false)

/-- A module is overloaded exactly while a child is. -/
def Agrees (s : State V) (x : V) : Prop := s.overload x = true ↔ 0 < s.childrenOverload x

/-- The overlay has said nothing, and the flags of the relays follow their children. -/
structure Quiet (g : ModuleGraph V) (s : State V) : Prop where
  overlay_eq : ∀ x, s.overlayOverload x = false
  agrees : ∀ x, Relay g x → Agrees s x

/-- The state in which a module is called: its flag does not yet follow its children. -/
structure Told (g : ModuleGraph V) (l : Load) (v : V) (s : State V) : Prop where
  overlay_eq : ∀ x, s.overlayOverload x = false
  agrees : ∀ x, Relay g x → x ≠ v → Agrees s x
  turned : Relay g v → (0 < s.childrenOverload v ↔ l.flag = true)

/-- Of the deaf modules only `v` may have another flag, that of the signal. -/
def Spares (g : ModuleGraph V) (l : Load) (v : V) (s t : State V) : Prop :=
  ∀ x, Deaf g x → t.overload x = if x = v then l.flag else s.overload x

theorem quiet_idle : Quiet g .idle := by
  constructor <;> simp [State.idle, Agrees]

theorem Quiet.told {s : State V} (h : Quiet g s) {v : V} (hv : Deaf g v) : Told g l v s where
  overlay_eq := h.overlay_eq
  agrees x hx _ := h.agrees x hx
  turned hrelay := by
    rcases hv.2 with hnil | hfalse
    · exact absurd hnil hrelay.ogates_ne
    · exact absurd (hrelay.propagateWorkers_eq.symm.trans hfalse) (by decide)

/-! ### One call -/

/-- Without the overlay a local signal decides about the flag. -/
theorem deliver_local (b : Bool) (l : Load) :
    deliver ⟨b, false⟩ (l.action true) = ⟨l.flag, false⟩ := by
  cases b <;> cases l <;> rfl

theorem Load.flag_eq_true_iff : l.flag = true ↔ 0 < l.turn := by
  cases l <;> decide

/-- A child more or less, when the module is not called for it. -/
theorem Agrees.addChildren {s : State V} {m : V} (h : Agrees s m)
    (hturn : s.childrenOverload m + l.delta ≠ l.turn) : Agrees (s.addChildren m l.delta) m := by
  unfold Agrees at h ⊢
  rw [State.childrenOverload_addChildren, if_pos rfl, State.overload_addChildren, h]
  cases l <;> simp only [Load.delta, Load.turn] at hturn ⊢ <;> omega

theorem Agrees.addChildren_of_ne {s : State V} {x m : V} (h : Agrees s x) (hne : x ≠ m) (d : ℤ) :
    Agrees (s.addChildren m d) x := by
  unfold Agrees at h ⊢
  rwa [State.childrenOverload_addChildren, if_neg hne, add_zero, State.overload_addChildren]

/-- The flags of the module that is called are set. -/
theorem Told.setFlags {v : V} {s : State V} (h : Told g l v s) :
    Quiet g (s.setFlags v ⟨l.flag, false⟩) where
  overlay_eq x := by
    by_cases hxv : x = v
    · simp [State.setFlags, hxv]
    · simp [State.setFlags, hxv, h.overlay_eq]
  agrees x hx := by
    by_cases hxv : x = v
    · subst hxv
      simp only [Agrees, State.setFlags, Function.update_self]
      exact (h.turned hx).symm
    · simpa [Agrees, State.setFlags, hxv] using h.agrees x hx hxv

theorem spares_setFlags (s : State V) (v : V) : Spares g l v s (s.setFlags v ⟨l.flag, false⟩) :=
  fun x _ => by rw [State.overload_setFlags, Function.update_apply]

/-- A source that is called changes its own flag only. -/
theorem Told.bpqIncSignal {pkt : Bool} {v : V} {s : State V} (h : Told g l v s)
    (hv : g.bpqInc v = true) :
    Quiet g (bpqIncSignal g l pkt accepts v s).state ∧
      Spares g l v s (bpqIncSignal g l pkt accepts v s).state := by
  have hne : ∀ {x}, g.bpqInc x = false → x ≠ v := by
    rintro x hx rfl
    exact absurd (hx.symm.trans hv) (by decide)
  have hquiet : Quiet g s := ⟨h.overlay_eq, fun x hx => h.agrees x hx (hne hx.bpqInc_eq)⟩
  simp only [Backpressure.bpqIncSignal]
  split_ifs
  · exact ⟨hquiet, fun x hx => by rw [if_neg (hne hx.1)]⟩
  all_goals
    refine ⟨⟨hquiet.overlay_eq, fun x hx => ?_⟩, fun x hx => ?_⟩
    · simpa [Agrees, hne hx.bpqInc_eq] using hquiet.agrees x hx
    · simp [hne hx.1]

theorem not_mem_upstream {x : V} (hx : g.ogates x = []) (v : V) : x ∉ g.upstream v := by
  rw [← List.count_eq_zero, ← g.count_ogates, hx, List.count_nil]

/-- One pass of the loop over the gates that lead to `v`. -/
theorem quiet_tellUpstream {tell : V → State V → Option (Outcome V)}
    (htell : ∀ m t r, tell m t = some r → Told g l m t →
      Quiet g r.state ∧ Spares g l m t r.state)
    {acc acc' : Outcome V × Bool} {v m : V} (hm : m ∈ g.upstream v)
    (hacc : Quiet g acc.1.state) (h : tellUpstream g l tell acc m = some acc') :
    Quiet g acc'.1.state ∧ ∀ x, Deaf g x → acc'.1.state.overload x = acc.1.state.overload x := by
  simp only [tellUpstream] at h
  split_ifs at h with hturn
  · obtain ⟨r, hr, rfl⟩ := Option.map_eq_some_iff.mp h
    rw [Bool.and_eq_true, beq_iff_eq] at hturn
    obtain ⟨hquiet, hspares⟩ := htell m _ r hr ⟨hacc.overlay_eq,
      fun x hx hxm => (hacc.agrees x hx).addChildren_of_ne hxm _,
      fun _ => by rw [hturn.2, Load.flag_eq_true_iff]⟩
    refine ⟨hquiet, fun x hx => ?_⟩
    have hxm : x ≠ m := by
      rintro rfl
      rcases hx.2 with hnil | hfalse
      · exact not_mem_upstream hnil v hm
      · exact absurd (hturn.1.symm.trans hfalse) (by decide)
    exact (hspares x hx).trans (if_neg hxm)
  · obtain rfl := Option.some.inj h
    refine ⟨⟨hacc.overlay_eq, fun x hx => ?_⟩, fun _ _ => rfl⟩
    by_cases hxm : x = m
    · subst hxm
      refine (hacc.agrees x hx).addChildren fun hcount => hturn ?_
      rw [State.childrenOverload_addChildren, if_pos rfl, hcount, hx.propagateWorkers_eq]
      simp
    · exact (hacc.agrees x hx).addChildren_of_ne hxm _

/-- A call with a packet that returns.  The induction is on the fuel; the loop keeps the agreement
of all relays, since each is called at the moment its flag and its count part. -/
theorem quiet_signalBP (fuel : ℕ) {v : V} {s : State V} {r : Outcome V}
    (h : signalBP g l true accepts fuel v s = some r) (hs : Told g l v s) :
    Quiet g r.state ∧ Spares g l v s r.state := by
  induction fuel generalizing v s r with
  | zero => exact absurd h (by simp [signalBP])
  | succ fuel ih =>
    have hflags : (getBackpressureState (s.flags v) (l.action true)).1 = ⟨l.flag, false⟩ := by
      rw [State.flags, hs.overlay_eq v]
      exact deliver_local _ l
    rw [signalBP] at h
    by_cases hv : g.bpqInc v = true
    · rw [if_pos hv] at h
      obtain rfl := Option.some.inj h
      exact hs.bpqIncSignal hv
    rw [if_neg hv] at h
    simp only [hflags] at h
    split_ifs at h
    · obtain rfl := Option.some.inj h
      exact ⟨hs.setFlags, spares_setFlags s v⟩
    · obtain ⟨acc, hloop, rfl⟩ := Option.map_eq_some_iff.mp h
      have hacc := Run.foldlM_invariant_of_mem
        (Q := fun acc : Outcome V × Bool => Quiet g acc.1.state ∧ Spares g l v s acc.1.state)
        (fun acc m hm acc' hacc hstep => by
          obtain ⟨hquiet, hsame⟩ :=
            quiet_tellUpstream (fun m t r hr ht => ih hr ht) hm hacc.1 hstep
          exact ⟨hquiet, fun x hx => (hsame x hx).trans (hacc.2 x hx)⟩)
        ⟨hs.setFlags, spares_setFlags s v⟩ hloop
      unfold finish
      split_ifs <;> exact hacc

section Signal

variable [Fintype V] {s : State V} {v : V}

theorem signal_eq_some (g : ModuleGraph V) (l : Load) (pkt : Bool) (accepts : V → Bool) (v : V)
    (s : State V) :
    signalBP g l pkt accepts (Fintype.card V + 1) v s = some (signal g l pkt accepts v s) :=
  (Option.some_get _).symm

/-- **A call with a packet at a deaf module** leaves the overlay silent and the relays in
agreement. -/
theorem Quiet.signal (h : Quiet g s) (hv : Deaf g v) (l : Load) (accepts : V → Bool) :
    Quiet g (signal g l true accepts v s).state :=
  (quiet_signalBP _ (signal_eq_some g l true accepts v s) (h.told hv)).1

/-- It decides about the flag of that module, and about that of no other deaf one. -/
theorem Quiet.overload_signal (h : Quiet g s) (hv : Deaf g v) (l : Load) (accepts : V → Bool)
    {x : V} (hx : Deaf g x) :
    (Backpressure.signal g l true accepts v s).state.overload x =
      if x = v then l.flag else s.overload x :=
  (quiet_signalBP _ (signal_eq_some g l true accepts v s) (h.told hv)).2 x hx

/-- Calls with a packet keep the counters exact. -/
theorem Exact.signal (h : Exact g s) (l : Load) (accepts : V → Bool) (v : V) :
    Exact g (Backpressure.signal g l true accepts v s).state := by
  have hcall := exact_outcome_iff_kept h ⟨v, l, true, accepts⟩
  rw [Call.outcome_eq] at hcall
  rw [hcall, (keptRule g accepts (.inr rfl)).signal]
  simp

end Signal

/-! ### What stops a source -/

/-- The packets of `t` may come to `q`, through relays. -/
def Leads (g : ModuleGraph V) (t q : V) : Prop :=
  ∃ c ∈ g.ogates t, Relation.ReflTransGen (fun u v => Relay g u ∧ v ∈ g.ogates u) c q

theorem Exact.blocked_iff_exists {s : State V} (h : Exact g s) (m : V) :
    s.Blocked m ↔ ∃ x ∈ g.ogates m, s.overload x = true := by
  rw [State.Blocked, h m, overloadedNext, Nat.cast_pos, List.countP_pos_iff]

/-- An overloaded module makes the relays before it overloaded. -/
theorem Quiet.overload_of_path {s : State V} (h : Quiet g s) (hexact : Exact g s) {c q : V}
    (hpath : Relation.ReflTransGen (fun u v => Relay g u ∧ v ∈ g.ogates u) c q)
    (hq : s.overload q = true) : s.overload c = true := by
  induction hpath using Relation.ReflTransGen.head_induction_on with
  | refl => exact hq
  | head hstep _ ih =>
    obtain ⟨hrelay, hnext⟩ := hstep
    exact (h.agrees _ hrelay).mpr ((hexact.blocked_iff_exists _).mpr ⟨_, hnext, ih⟩)

/-- **Backpressure reaches the source**: an overloaded module stops all that leads to it. -/
theorem Quiet.blocked_of_leads {s : State V} (h : Quiet g s) (hexact : Exact g s) {t q : V}
    (hleads : Leads g t q) (hq : s.overload q = true) : s.Blocked t := by
  obtain ⟨c, hc, hpath⟩ := hleads
  exact (hexact.blocked_iff_exists t).mpr ⟨c, hc, h.overload_of_path hexact hpath hq⟩

/-- A module that is no source is a relay or deaf. -/
theorem relay_or_deaf {x : V} (hx : g.bpqInc x = false) : Relay g x ∨ Deaf g x := by
  by_cases hnil : g.ogates x = []
  · exact .inr ⟨hx, .inl hnil⟩
  · cases hp : g.propagateWorkers x with
    | true => exact .inl ⟨hx, hnil, hp⟩
    | false => exact .inr ⟨hx, .inr hp⟩

/-- Nothing leads to a source. -/
theorem bpqInc_of_mem_ogates {m x : V} (h : x ∈ g.ogates m) : g.bpqInc x = false := by
  by_contra hx
  rw [Bool.not_eq_false] at hx
  rw [← List.count_pos_iff, g.count_ogates, g.upstream_of_bpqInc hx] at h
  exact absurd h (by simp)

/-- Behind an overloaded module there is a deaf one.  The induction is on the rank, which every
gate lowers. -/
theorem Quiet.exists_deaf {s : State V} (h : Quiet g s) (hexact : Exact g s) {rank : V → ℕ}
    (hrank : ∀ m, ∀ x ∈ g.ogates m, rank x < rank m) (n : ℕ) {c : V} (hn : rank c ≤ n)
    (hinc : g.bpqInc c = false) (hc : s.overload c = true) :
    ∃ q, Deaf g q ∧ s.overload q = true ∧
      Relation.ReflTransGen (fun u v => Relay g u ∧ v ∈ g.ogates u) c q := by
  induction n generalizing c with
  | zero =>
    rcases relay_or_deaf hinc with hrelay | hdeaf
    · obtain ⟨x, hx, -⟩ := (hexact.blocked_iff_exists c).mp ((h.agrees c hrelay).mp hc)
      have := hrank c x hx
      omega
    · exact ⟨c, hdeaf, hc, .refl⟩
  | succ n ih =>
    rcases relay_or_deaf hinc with hrelay | hdeaf
    · obtain ⟨x, hx, hover⟩ := (hexact.blocked_iff_exists c).mp ((h.agrees c hrelay).mp hc)
      have := hrank c x hx
      obtain ⟨q, hq, hqover, hpath⟩ := ih (by omega) (bpqInc_of_mem_ogates hx) hover
      exact ⟨q, hq, hqover, .head ⟨hrelay, hx⟩ hpath⟩
    · exact ⟨c, hdeaf, hc, .refl⟩

/-- **What stops a source.**  In a graph without a cycle it is stopped exactly while one of the deaf
modules that it leads to is overloaded. -/
theorem Quiet.blocked_iff_exists {s : State V} (h : Quiet g s) (hexact : Exact g s) {rank : V → ℕ}
    (hrank : ∀ m, ∀ x ∈ g.ogates m, rank x < rank m) (t : V) :
    s.Blocked t ↔ ∃ q, Deaf g q ∧ Leads g t q ∧ s.overload q = true := by
  constructor
  · intro hblocked
    obtain ⟨c, hc, hover⟩ := (hexact.blocked_iff_exists t).mp hblocked
    obtain ⟨q, hq, hqover, hpath⟩ :=
      h.exists_deaf hexact hrank _ le_rfl (bpqInc_of_mem_ogates hc) hover
    exact ⟨q, hq, ⟨c, hc, hpath⟩, hqover⟩
  · rintro ⟨q, -, hleads, hq⟩
    exact h.blocked_of_leads hexact hleads hq

end Backdraft.Backpressure

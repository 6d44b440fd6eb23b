import Mathlib.Tactic
import Mathlib.Logic.Relation

/-!
# Runs of a system

A system is a function `step : σ → ι → Except ε σ`: in each state an input leads to a next state
or fails.  `ReachIf step G s t` says that `t` is reached from `s` by inputs that all meet the
condition `G` in the state in which they are given.

* `ReachIf.invariant`: what every such step preserves holds in every state reached;
* `ReachIf.mono`: a weaker condition on the inputs allows more runs;
* `exec` and `reachIf_of_exec`: a list of inputs, carried out (`exec_concat` for one more);
* `exists_reachIf`, `exists_init_reachIf`: a run with a test at its end, to be evaluated;
* `forall_prefix_iff`: a property that one input keeps exactly when it is a good one holds after
  every prefix of a list of inputs exactly when all of them are good (`forall_prefix_of_getElem`
  gives the latter place by place);
* `exists_foldlM`: a loop that may fail returns, and what its body keeps holds at the end;
* `foldlM_invariant`, `foldlM_invariant_of_mem`, `foldlM_mono`, `foldlM_hom`: such a loop when it
  returns, with a body that returns more often, and seen through a map of its states;
* `mapError_eq_ok`: a system with its errors renamed makes the same steps.
-/

namespace Run

variable {σ ι ε : Type*} {step : σ → ι → Except ε σ} {G : σ → ι → Bool} {s t : σ}

/-- One step on an input that meets `G`. -/
def StepIf (step : σ → ι → Except ε σ) (G : σ → ι → Bool) (s t : σ) : Prop :=
  ∃ i, G s i = true ∧ step s i = .ok t

/-- `t` is reached from `s` by inputs that meet `G`. -/
def ReachIf (step : σ → ι → Except ε σ) (G : σ → ι → Bool) : σ → σ → Prop :=
  Relation.ReflTransGen (StepIf step G)

/-- **The invariant rule.** -/
theorem ReachIf.invariant {P : σ → Prop} (h : ReachIf step G s t) (hs : P s)
    (hstep : ∀ u i v, P u → G u i = true → step u i = .ok v → P v) : P t := by
  induction h with
  | refl => exact hs
  | tail _ hlast ih =>
    obtain ⟨i, hG, hi⟩ := hlast
    exact hstep _ i _ ih hG hi

/-- A run whose inputs meet `G` is one whose inputs meet a weaker condition. -/
theorem ReachIf.mono {G' : σ → ι → Bool} (h : ReachIf step G s t)
    (hG : ∀ u i, G u i = true → G' u i = true) : ReachIf step G' s t := by
  induction h with
  | refl => exact .refl
  | tail _ hlast ih =>
    obtain ⟨i, hi, hstep⟩ := hlast
    exact ih.tail ⟨i, hG _ i hi, hstep⟩

/-- Give the inputs one after the other, as long as they meet `G` and do not fail. -/
def exec (step : σ → ι → Except ε σ) (G : σ → ι → Bool) (s : σ) : List ι → Option σ
  | [] => some s
  | i :: is =>
    if G s i then
      match step s i with
      | .ok t => exec step G t is
      | .error _ => none
    else none

theorem reachIf_of_exec (is : List ι) (h : exec step G s is = some t) : ReachIf step G s t := by
  induction is generalizing s with
  | nil => cases h; exact .refl
  | cons i is ih =>
    rw [exec] at h
    split_ifs at h with hG
    cases hi : step s i with
    | error e => simp [hi] at h
    | ok u => exact .head ⟨i, hG, hi⟩ (ih (by simpa [hi] using h))

/-- A run that passes a test at its end, carried out. -/
theorem exists_reachIf {test : σ → Bool} (is : List ι)
    (h : (exec step G s is).map test = some true) : ∃ t, ReachIf step G s t ∧ test t = true := by
  obtain ⟨t, ht, htest⟩ := Option.map_eq_some_iff.1 h
  exact ⟨t, reachIf_of_exec is ht, htest⟩

/-- The same for a run from what an initialisation gives. -/
theorem exists_init_reachIf {β : Type*} {init : Option β} {start : β → σ} {test : β → σ → Bool}
    (is : List ι)
    (h : (init.bind fun b => (exec step G (start b) is).map (test b)) = some true) :
    ∃ b t, init = some b ∧ ReachIf step G (start b) t ∧ test b t = true := by
  obtain ⟨b, hb, hrun⟩ := Option.bind_eq_some_iff.1 h
  obtain ⟨t, ht, htest⟩ := exists_reachIf is hrun
  exact ⟨b, t, hb, ht, htest⟩

/-- One more input is given in the state reached by the others. -/
theorem exec_concat {is : List ι} (h : exec step G s is = some t) (i : ι) :
    exec step G s (is ++ [i]) = exec step G t [i] := by
  induction is generalizing s with
  | nil => cases h; rfl
  | cons j is ih =>
    rw [exec] at h
    rw [List.cons_append, exec]
    split_ifs at h ⊢
    cases hj : step s j with
    | error e => simp [hj] at h
    | ok u => exact ih (by simpa [hj] using h)

/-- **The prefix rule.**  `Q p i` says when the input `i`, given after the inputs `p`, keeps `P`. -/
theorem forall_prefix_iff {P : List ι → Prop} {Q : List ι → ι → Prop} (hnil : P [])
    (is : List ι) (hstep : ∀ p i, p ++ [i] <+: is → P p → (P (p ++ [i]) ↔ Q p i)) :
    (∀ p, p <+: is → P p) ↔ ∀ p i, p ++ [i] <+: is → Q p i := by
  constructor
  · intro h p i hp
    exact (hstep p i hp (h p ((List.prefix_append p [i]).trans hp))).1 (h _ hp)
  · intro h p
    induction p using List.reverseRecOn with
    | nil => exact fun _ => hnil
    | append_singleton p i ih =>
      intro hp
      exact (hstep p i hp (ih ((List.prefix_append p [i]).trans hp))).2 (h p i hp)

/-- A condition on every input of a list, with the inputs before it, given place by place. -/
theorem forall_prefix_of_getElem {Q : List ι → ι → Prop} {is : List ι}
    (h : ∀ k (hk : k < is.length), Q (is.take k) is[k]) :
    ∀ p i, p ++ [i] <+: is → Q p i := by
  rintro p i ⟨rest, rfl⟩
  have hplace := h p.length (by simp)
  simpa using hplace

/-- **The loop rule.**  `Q done b` is the invariant after the elements `done`. -/
theorem exists_foldlM {α β : Type*} {f : β → α → Option β} {Q : List α → β → Prop} {b : β}
    (l : List α) (hnil : Q [] b)
    (hstep : ∀ done a b, done ++ [a] <+: l → Q done b →
      ∃ b', f b a = some b' ∧ Q (done ++ [a]) b') :
    ∃ b', l.foldlM f b = some b' ∧ Q l b' := by
  induction l using List.reverseRecOn with
  | nil => exact ⟨b, rfl, hnil⟩
  | append_singleton l a ih =>
    obtain ⟨b₁, hb₁, hQ₁⟩ := ih fun done i b hp =>
      hstep done i b (hp.trans (List.prefix_append l [a]))
    obtain ⟨b₂, hb₂, hQ₂⟩ := hstep l a b₁ (List.prefix_refl _) hQ₁
    exact ⟨b₂, by simp [List.foldlM_append, hb₁, hb₂], hQ₂⟩

section Loops

variable {α β γ : Type*}

/-- What the body of a loop keeps holds when the loop returns. -/
theorem foldlM_invariant {f : β → α → Option β} {Q : β → Prop}
    (hstep : ∀ b a b', Q b → f b a = some b' → Q b') {l : List α} {b c : β} (hb : Q b)
    (h : l.foldlM f b = some c) : Q c := by
  induction l generalizing b with
  | nil => cases h; exact hb
  | cons a l ih =>
    rw [List.foldlM_cons] at h
    obtain ⟨b', hb', hrest⟩ := Option.bind_eq_some_iff.1 h
    exact ih (hstep b a b' hb hb') hrest

/-- The same with a body that keeps the property at the elements of the list only. -/
theorem foldlM_invariant_of_mem {f : β → α → Option β} {Q : β → Prop} {l : List α} {b c : β}
    (hstep : ∀ b, ∀ a ∈ l, ∀ b', Q b → f b a = some b' → Q b') (hb : Q b)
    (h : l.foldlM f b = some c) : Q c := by
  induction l generalizing b with
  | nil => cases h; exact hb
  | cons a l ih =>
    rw [List.foldlM_cons] at h
    obtain ⟨b', hb', hrest⟩ := Option.bind_eq_some_iff.1 h
    exact ih (fun b x hx => hstep b x (List.mem_cons_of_mem _ hx))
      (hstep b a List.mem_cons_self b' hb hb') hrest

/-- A loop returns the same when its body returns the same, and more often. -/
theorem foldlM_mono {f f' : β → α → Option β}
    (hstep : ∀ b a b', f b a = some b' → f' b a = some b') {l : List α} {b c : β}
    (h : l.foldlM f b = some c) : l.foldlM f' b = some c := by
  induction l generalizing b with
  | nil => exact h
  | cons a l ih =>
    rw [List.foldlM_cons] at h ⊢
    obtain ⟨b', hb', hrest⟩ := Option.bind_eq_some_iff.1 h
    exact Option.bind_eq_some_iff.2 ⟨b', hstep b a b' hb', ih hrest⟩

/-- A loop commutes with a map of its states that its bodies commute with. -/
theorem foldlM_hom {f : β → α → Option β} {f' : γ → α → Option γ} {π : β → γ}
    (hstep : ∀ b a, (f b a).map π = f' (π b) a) (l : List α) (b : β) :
    (l.foldlM f b).map π = l.foldlM f' (π b) := by
  induction l generalizing b with
  | nil => rfl
  | cons a l ih =>
    rw [List.foldlM_cons, List.foldlM_cons, ← hstep]
    cases f b a with
    | none => rfl
    | some b' => exact ih b'

end Loops

theorem mapError_eq_ok {ε' : Type*} {x : Except ε σ} {f : ε → ε'} :
    x.mapError f = .ok t ↔ x = .ok t := by
  cases x <;> simp [Except.mapError]

theorem bind_eq_ok {ε σ τ : Type} {x : Except ε σ} {f : σ → Except ε τ} {b : τ} :
    (x >>= f) = .ok b ↔ ∃ a, x = .ok a ∧ f a = .ok b := by
  constructor
  · intro h
    cases x with
    | error e => cases h
    | ok a => exact ⟨a, rfl, h⟩
  · rintro ⟨a, rfl, h⟩
    exact h

theorem toOption_eq_some {x : Except ε σ} : x.toOption = some t ↔ x = .ok t := by
  cases x <;> simp [Except.toOption]

end Run

import Mathlib.Tactic
import Backdraft.Lib.Run

/-!
# Backpressure: the overload flags of one module

A module has two flags, `overload_` (it is overloaded) and `overlay_overload_` (the overlay said
so).  `SignalOverloadBP` and `SignalUnderloadBP` are called with a packet when the decision is
local and without one when it comes from the overlay; both hand the matching action to
`get_backpressure_state`, which moves the module between the states 0 (idle), 1 (overloaded
locally) and 2 (overloaded by the overlay), or answers `-1` and leaves the flags alone.

* `getBackpressureState`, `deliver`, `deliverAll`: the transition table, one signal, a sequence;
* `lastLocal`, `lastOverlay`: what the sequence itself says;
* `CausesAgree`: the flags say that a module is overloaded exactly while a cause remains;
* `causesAgree_concat_iff`: which signal keeps them in agreement;
* `causesAgree_iff`: the sequences along which they always agree.
-/

namespace Backdraft.Backpressure

/-- The four actions, in the order of the source's action map. -/
inductive Signal
  | overlayOver
  | overlayUnder
  | localOver
  | localUnder
  deriving DecidableEq

/-- Signals that come from the overlay, that is, without a packet. -/
def Signal.isOverlay : Signal → Bool
  | .overlayOver | .overlayUnder => true
  | .localOver | .localUnder => false

/-- `overload_` and `overlay_overload_`. -/
structure Flags where
  overload : Bool
  overlayOverload : Bool
  deriving DecidableEq

/-- Nothing is signalled yet. -/
def Flags.idle : Flags := ⟨false, false⟩

/-- `get_backpressure_state`: the flags afterwards and the state returned. -/
def getBackpressureState (f : Flags) (action : Signal) : Flags × ℤ :=
  if f.overlayOverload && f.overload then
    if action = .overlayOver then (⟨true, false⟩, 1) else (f, -1)
  else if f.overload && !f.overlayOverload then
    if action = .overlayOver then (⟨true, true⟩, 2)
    else if action = .localUnder then (⟨false, false⟩, 0)
    else (f, -1)
  else if !f.overload && !f.overlayOverload then
    if action = .overlayOver then (⟨true, true⟩, 2)
    else if action = .localOver then (⟨true, false⟩, 1)
    else (f, -1)
  else (f, -1)

/-- The flags after one signal. -/
def deliver (f : Flags) (a : Signal) : Flags := (getBackpressureState f a).1

/-- The flags of an idle module after a sequence of signals. -/
def deliverAll (sigs : List Signal) : Flags := sigs.foldl deliver .idle

@[simp] theorem deliverAll_nil : deliverAll [] = .idle := rfl

@[simp] theorem deliverAll_concat (sigs : List Signal) (a : Signal) :
    deliverAll (sigs ++ [a]) = deliver (deliverAll sigs) a := by
  simp [deliverAll]

/-- The same signal several times. -/
theorem deliverAll_append_replicate (sigs : List Signal) (a : Signal) (k : ℕ) :
    deliverAll (sigs ++ List.replicate k a) = (fun f => deliver f a)^[k] (deliverAll sigs) := by
  induction k with
  | zero => simp
  | succ k ih =>
    rw [List.replicate_succ', ← List.append_assoc, deliverAll_concat, ih,
      Function.iterate_succ_apply']

/-- `overlay_overload_` is only set together with `overload_`. -/
theorem overload_deliverAll (sigs : List Signal) (h : (deliverAll sigs).overlayOverload = true) :
    (deliverAll sigs).overload = true := by
  induction sigs using List.reverseRecOn with
  | nil => exact absurd h (by decide)
  | append_singleton sigs a ih =>
    rw [deliverAll_concat] at h ⊢
    revert h ih
    cases deliverAll sigs with
    | mk o r => cases o <;> cases r <;> cases a <;> simp [deliver, getBackpressureState]

/-- The state `-1` leaves the flags as they were. -/
theorem getBackpressureState_ignored (f : Flags) (a : Signal)
    (h : (getBackpressureState f a).2 = -1) : (getBackpressureState f a).1 = f := by
  obtain ⟨o, r⟩ := f
  cases o <;> cases r <;> cases a <;> first | rfl | exact absurd h (by decide)

/-! ### What the signals say -/

/-- The last local signal of a sequence. -/
def lastLocal (sigs : List Signal) : Option Signal :=
  (sigs.filter fun a => !a.isOverlay).getLast?

/-- The last overlay signal of a sequence. -/
def lastOverlay (sigs : List Signal) : Option Signal :=
  (sigs.filter Signal.isOverlay).getLast?

@[simp] theorem lastLocal_concat (sigs : List Signal) (a : Signal) :
    lastLocal (sigs ++ [a]) = if a.isOverlay then lastLocal sigs else some a := by
  cases a <;> simp [lastLocal, Signal.isOverlay]

@[simp] theorem lastOverlay_concat (sigs : List Signal) (a : Signal) :
    lastOverlay (sigs ++ [a]) = if a.isOverlay then some a else lastOverlay sigs := by
  cases a <;> simp [lastOverlay, Signal.isOverlay]

/-- A module is overloaded exactly while a cause remains: after the signals, `overload_` is set
exactly when the last local or the last overlay signal was an overload, and `overlay_overload_`
exactly when the last overlay signal was one. -/
structure CausesAgree (sigs : List Signal) : Prop where
  overload : (deliverAll sigs).overload = true ↔
    lastLocal sigs = some .localOver ∨ lastOverlay sigs = some .overlayOver
  overlayOverload : (deliverAll sigs).overlayOverload = true ↔
    lastOverlay sigs = some .overlayOver

theorem causesAgree_nil : CausesAgree [] :=
  ⟨by simp [Flags.idle, lastLocal, lastOverlay], by simp [Flags.idle, lastOverlay]⟩

/-- The flags that the causes ask for. -/
theorem CausesAgree.deliverAll_eq {sigs : List Signal} (h : CausesAgree sigs) :
    deliverAll sigs =
      ⟨decide (lastLocal sigs = some .localOver ∨ lastOverlay sigs = some .overlayOver),
        decide (lastOverlay sigs = some .overlayOver)⟩ := by
  have h₁ := h.overload
  have h₂ := h.overlayOverload
  cases hf : deliverAll sigs with
  | mk o r =>
    rw [hf] at h₁ h₂
    simp only [Flags.mk.injEq]
    exact ⟨by rw [Bool.eq_iff_iff, h₁, decide_eq_true_iff],
      by rw [Bool.eq_iff_iff, h₂, decide_eq_true_iff]⟩

/-- **One signal.**  Flags that agree with the causes keep doing so, unless the overlay speaks
while `overlay_overload_` is set: a second overload then clears that flag, and an underload is
ignored. -/
theorem causesAgree_concat_iff {sigs : List Signal} (h : CausesAgree sigs) (a : Signal) :
    CausesAgree (sigs ++ [a]) ↔
      (a.isOverlay = true → (deliverAll sigs).overlayOverload = false) := by
  have hflags := h.deliverAll_eq
  by_cases hr : lastOverlay sigs = some .overlayOver
  · -- both flags are set
    simp only [hr, or_true, decide_true] at hflags
    constructor
    · rintro ⟨h₁, h₂⟩ ha
      cases a <;>
        simp [hflags, deliver, getBackpressureState, Signal.isOverlay] at h₂ ha
    · intro ha
      cases a <;>
        constructor <;> simp_all [deliver, getBackpressureState, Signal.isOverlay]
  · -- `overlay_overload_` is clear, and `overload_` is what the last local signal says
    simp only [hr, or_false, decide_false] at hflags
    refine ⟨fun _ _ => by rw [hflags], fun _ => ?_⟩
    by_cases hl : lastLocal sigs = some .localOver <;> cases a <;>
      constructor <;> simp_all [deliver, getBackpressureState, Signal.isOverlay]

/-- While the flags have always agreed with the causes, `overlay_overload_` is set as soon as the
overlay has reported an overload: any later word of the overlay would break the agreement. -/
theorem overlayOverload_iff_mem {sigs : List Signal} (h : ∀ p, p <+: sigs → CausesAgree p) :
    (deliverAll sigs).overlayOverload = true ↔ .overlayOver ∈ sigs := by
  induction sigs using List.reverseRecOn with
  | nil => decide
  | append_singleton sigs a ih =>
    have hbefore : ∀ p, p <+: sigs → CausesAgree p :=
      fun p hp => h p (hp.trans (List.prefix_append _ _))
    have hnow := h _ (List.prefix_refl _)
    have hclear := (causesAgree_concat_iff (hbefore _ (List.prefix_refl _)) a).1 hnow
    have hsame := (hbefore _ (List.prefix_refl _)).overlayOverload
    rw [hnow.overlayOverload, lastOverlay_concat, List.mem_append, List.mem_singleton,
      ← ih hbefore]
    cases a with
    | overlayOver => simp [Signal.isOverlay]
    | overlayUnder => simp [Signal.isOverlay, hclear rfl]
    | localOver => simp [Signal.isOverlay, hsame]
    | localUnder => simp [Signal.isOverlay, hsame]

/-- **When the flags say what the signals said.**  Along a sequence delivered to an idle module
the flags always agree with the causes exactly when no signal of the overlay comes after one that
reports an overload. -/
theorem causesAgree_iff (sigs : List Signal) :
    (∀ p, p <+: sigs → CausesAgree p) ↔
      ∀ p a, p ++ [a] <+: sigs → a.isOverlay = true → .overlayOver ∉ p := by
  have hrule := Run.forall_prefix_iff (P := fun p => ∀ q, q <+: p → CausesAgree q)
    (Q := fun p a => a.isOverlay = true → Signal.overlayOver ∉ p)
    (fun q hq => List.prefix_nil.1 hq ▸ causesAgree_nil) sigs fun p a _ h => by
      rw [← overlayOverload_iff_mem h, Bool.not_eq_true,
        ← causesAgree_concat_iff (h p (List.prefix_refl p)) a]
      refine ⟨fun hall => hall _ (List.prefix_refl _), fun hnext q hq => ?_⟩
      rcases List.prefix_concat_iff.1 hq with rfl | hq
      exacts [hnext, h q hq]
  rw [← hrule]
  exact ⟨fun h p hp q hq => h q (hq.trans hp), fun h p hp => h p hp p (List.prefix_refl p)⟩

/-- An overload of the overlay and its release leave the module overloaded, with no cause left. -/
theorem overlay_release_ignored :
    lastLocal [.overlayOver, .overlayUnder] = none ∧
      lastOverlay [.overlayOver, .overlayUnder] = some .overlayUnder ∧
      (deliverAll [.overlayOver, .overlayUnder]).overload = true ∧
      ¬ CausesAgree [.overlayOver, .overlayUnder] := by
  refine ⟨by decide, by decide, by decide, fun h => ?_⟩
  have := h.overload.1 (by decide)
  revert this
  decide

end Backdraft.Backpressure

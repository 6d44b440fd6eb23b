import Mathlib.Tactic
import Mathlib.Logic.Function.Basic

/-!
# Items placed in cells

A placement `f : P → Option ι` says which item, if any, lies in each cell.

* `Once f`: no item lies in two cells;
* `Holds f x`: the item `x` lies in some cell;
* `shift f p q`: the item of `p`, if there is one, is carried to `q`.

Carrying an item to a free cell keeps every item that there is (`holds_shift`) and puts none in
two cells (`Once.shift`); placing an item that is not there (`Once.put`, `holds_put`) and taking
one away (`Once.take`, `holds_take`) are the operations that change what is held.
-/

namespace Placement

variable {P ι : Type*} [DecidableEq P] {f : P → Option ι} {p q : P} {x y : ι}

/-- No item lies in two cells. -/
def Once (f : P → Option ι) : Prop := ∀ p q x, f p = some x → f q = some x → p = q

/-- The item lies in some cell. -/
def Holds (f : P → Option ι) (x : ι) : Prop := ∃ p, f p = some x

/-- The item of `p` is carried to `q`. -/
def shift (f : P → Option ι) (p q : P) : P → Option ι :=
  Function.update (Function.update f q (f p)) p none

theorem shift_apply (f : P → Option ι) (p q r : P) :
    shift f p q r = if r = p then none else if r = q then f p else f r := by
  simp only [shift, Function.update_apply]

@[simp] theorem shift_left (f : P → Option ι) (p q : P) : shift f p q p = none := by
  simp [shift]

/-- A cell that holds an item after the shift either held it before or is the one that got it. -/
theorem of_shift_eq_some {r : P} (h : shift f p q r = some x) :
    r ≠ p ∧ (r = q ∧ f p = some x ∨ r ≠ q ∧ f r = some x) := by
  rw [shift_apply] at h
  split_ifs at h with hrp hrq
  · exact ⟨hrp, .inl ⟨hrq, h⟩⟩
  · exact ⟨hrp, .inr ⟨hrq, h⟩⟩

theorem Once.shift (h : Once f) : Once (shift f p q) := by
  intro r s x hr hs
  obtain ⟨hrp, hr'⟩ := of_shift_eq_some hr
  obtain ⟨hsp, hs'⟩ := of_shift_eq_some hs
  rcases hr' with ⟨rfl, hr'⟩ | ⟨-, hr'⟩ <;> rcases hs' with ⟨rfl, hs'⟩ | ⟨-, hs'⟩
  · rfl
  · exact absurd (h _ _ _ hr' hs').symm hsp
  · exact absurd (h _ _ _ hs' hr').symm hrp
  · exact h _ _ _ hr' hs'

theorem holds_shift (hq : f q = none) : Holds (shift f p q) x ↔ Holds f x := by
  constructor
  · rintro ⟨r, hr⟩
    rcases (of_shift_eq_some hr).2 with ⟨-, hp⟩ | ⟨-, hr⟩
    exacts [⟨p, hp⟩, ⟨r, hr⟩]
  · rintro ⟨r, hr⟩
    have hrq : r ≠ q := by rintro rfl; simp [hq] at hr
    by_cases hrp : r = p
    · subst hrp
      exact ⟨q, by rw [shift_apply, if_neg hrq.symm, if_pos rfl, hr]⟩
    · exact ⟨r, by rw [shift_apply, if_neg hrp, if_neg hrq, hr]⟩

theorem Once.put (h : Once f) (hx : ¬ Holds f x) : Once (Function.update f p (some x)) := by
  intro r s y hr hs
  rw [Function.update_apply] at hr hs
  split_ifs at hr hs with hrp hsp hsp
  · rw [hrp, hsp]
  · exact absurd ⟨s, hs.trans hr.symm⟩ hx
  · exact absurd ⟨r, hr.trans hs.symm⟩ hx
  · exact h _ _ _ hr hs

theorem holds_put (hp : f p = none) :
    Holds (Function.update f p (some x)) y ↔ y = x ∨ Holds f y := by
  constructor
  · rintro ⟨r, hr⟩
    rw [Function.update_apply] at hr
    split_ifs at hr
    exacts [.inl (Option.some.inj hr).symm, .inr ⟨r, hr⟩]
  · rintro (rfl | ⟨r, hr⟩)
    · exact ⟨p, Function.update_self ..⟩
    · have hrp : r ≠ p := by rintro rfl; simp [hp] at hr
      exact ⟨r, by rw [Function.update_of_ne hrp, hr]⟩

theorem Once.take (h : Once f) : Once (Function.update f p none) := by
  intro r s y hr hs
  rw [Function.update_apply] at hr hs
  split_ifs at hr hs
  exact h _ _ _ hr hs

theorem holds_take (h : Once f) (hp : f p = some x) :
    Holds (Function.update f p none) y ↔ y ≠ x ∧ Holds f y := by
  constructor
  · rintro ⟨r, hr⟩
    rw [Function.update_apply] at hr
    split_ifs at hr with hrp
    refine ⟨?_, r, hr⟩
    rintro rfl
    exact hrp (h _ _ _ hr hp)
  · rintro ⟨hyx, r, hr⟩
    have hrp : r ≠ p := by
      rintro rfl
      exact hyx (Option.some.inj (hr.symm.trans hp))
    exact ⟨r, by rw [Function.update_of_ne hrp, hr]⟩

end Placement

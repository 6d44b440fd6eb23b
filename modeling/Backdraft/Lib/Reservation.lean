import Mathlib.Tactic
import Mathlib.Logic.Function.Basic

/-!
# Reservations in order

Threads reserve intervals of a counter at its upper end, work on them, and give them back at its
lower end.  `iv t = some (a, n)` says that the thread `t` has the numbers from `a` to `a + n - 1`.

* `Tiling iv lo hi`: the intervals are disjoint and make up the numbers from `lo` to `hi - 1`;
* `Tiling.reserve`: a thread without an interval takes the next `n` numbers;
* `Tiling.release`: the thread whose interval is the lowest gives it back;
* `Tiling.exists_first`: while there are intervals, there is a lowest one.
-/

namespace Reservation

variable {τ : Type*}

/-- The intervals of the threads make up the numbers from `lo` to `hi - 1`. -/
structure Tiling (iv : τ → Option (ℕ × ℕ)) (lo hi : ℕ) : Prop where
  le : lo ≤ hi
  inside : ∀ t a n, iv t = some (a, n) → lo ≤ a ∧ a + n ≤ hi ∧ 0 < n
  apart : ∀ t u a n b k, t ≠ u → iv t = some (a, n) → iv u = some (b, k) → a + n ≤ b ∨ b + k ≤ a
  cover : ∀ x, lo ≤ x → x < hi → ∃ t a n, iv t = some (a, n) ∧ a ≤ x ∧ x < a + n

variable {iv : τ → Option (ℕ × ℕ)} {lo hi : ℕ} {t : τ} {a n : ℕ}

theorem tiling_of_none (h : ∀ t, iv t = none) (lo : ℕ) : Tiling iv lo lo where
  le := le_rfl
  inside := fun t a n ht => by simp [h t] at ht
  apart := fun t u a n b k _ ht => by simp [h t] at ht
  cover := fun x hlo hhi => by omega

/-- While there are intervals, there is a lowest one. -/
theorem Tiling.exists_first (h : Tiling iv lo hi) (hlt : lo < hi) :
    ∃ t n, iv t = some (lo, n) := by
  obtain ⟨t, a, n, ht, ha, -⟩ := h.cover lo le_rfl hlt
  obtain ⟨hlo, -, -⟩ := h.inside t a n ht
  obtain rfl : a = lo := le_antisymm ha hlo
  exact ⟨t, n, ht⟩

/-- A thread that is alone has the lowest interval. -/
theorem Tiling.eq_of_alone (h : Tiling iv lo hi) (halone : ∀ u, iv u ≠ none → u = t)
    (ht : iv t = some (a, n)) : a = lo := by
  obtain ⟨-, hhi, hn⟩ := h.inside t a n ht
  obtain ⟨hlo, -, -⟩ := h.inside t a n ht
  obtain ⟨u, k, hu⟩ := h.exists_first (by omega)
  rw [halone u (by simp [hu]), ht] at hu
  exact (Prod.mk.inj (Option.some.inj hu)).1

variable [DecidableEq τ]

theorem Tiling.reserve (h : Tiling iv lo hi) (ht : iv t = none) (hn : 0 < n) :
    Tiling (Function.update iv t (some (hi, n))) lo (hi + n) where
  le := h.le.trans (Nat.le_add_right _ _)
  inside := by
    intro u b k hu
    rw [Function.update_apply] at hu
    split_ifs at hu
    · cases hu
      exact ⟨h.le, le_rfl, hn⟩
    · obtain ⟨hlo, hhi, hk⟩ := h.inside u b k hu
      exact ⟨hlo, by omega, hk⟩
  apart := by
    intro u w b k c l huw hu hw
    rw [Function.update_apply] at hu hw
    split_ifs at hu hw with hut hwt hwt
    · exact absurd (hut.trans hwt.symm) huw
    · cases hu
      exact .inr (h.inside w c l hw).2.1
    · cases hw
      exact .inl (h.inside u b k hu).2.1
    · exact h.apart u w b k c l huw hu hw
  cover := by
    intro x hlo hhi
    by_cases hx : x < hi
    · obtain ⟨u, b, k, hu, hb, hk⟩ := h.cover x hlo hx
      have hut : u ≠ t := by rintro rfl; simp [ht] at hu
      exact ⟨u, b, k, by rw [Function.update_of_ne hut, hu], hb, hk⟩
    · exact ⟨t, hi, n, Function.update_self .., by omega, by omega⟩

theorem Tiling.release (h : Tiling iv lo hi) (ht : iv t = some (lo, n)) :
    Tiling (Function.update iv t none) (lo + n) hi where
  le := (h.inside t lo n ht).2.1
  inside := by
    intro u b k hu
    rw [Function.update_apply] at hu
    split_ifs at hu with hut
    obtain ⟨hlo, hhi, hk⟩ := h.inside u b k hu
    refine ⟨?_, hhi, hk⟩
    rcases h.apart t u lo n b k (Ne.symm hut) ht hu with hap | hap <;> omega
  apart := by
    intro u w b k c l huw hu hw
    rw [Function.update_apply] at hu hw
    split_ifs at hu hw
    exact h.apart u w b k c l huw hu hw
  cover := by
    intro x hlo hhi
    obtain ⟨u, b, k, hu, hb, hk⟩ := h.cover x (by omega) hhi
    have hut : u ≠ t := by
      rintro rfl
      rw [ht] at hu
      cases hu
      omega
    exact ⟨u, b, k, by rw [Function.update_of_ne hut, hu], hb, hk⟩

/-- What a step changes of the threads leaves the tiling when the interval of the acting thread
stays. -/
theorem Tiling.keep (h : Tiling iv lo hi) (t : τ) :
    Tiling (Function.update iv t (iv t)) lo hi := by
  rwa [Function.update_eq_self]

end Reservation

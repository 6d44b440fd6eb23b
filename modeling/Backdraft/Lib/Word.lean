import Mathlib.Tactic
import Mathlib.Data.Nat.ModEq

/-!
# Unsigned machine words

Unsigned arithmetic of width `w` on natural numbers: sums and differences are taken modulo
`2 ^ w`, as C does.  A difference is pinned down by one congruence (`wsub_eq_iff`), from which
the facts about indices and counters that wrap around follow.
-/

namespace Word

/-- Unsigned addition of width `w`. -/
@[irreducible] def wadd (w a b : ℕ) : ℕ := (a + b) % 2 ^ w

/-- Unsigned subtraction of width `w`. -/
@[irreducible] def wsub (w a b : ℕ) : ℕ := (2 ^ w - b % 2 ^ w + a) % 2 ^ w

/-- Unsigned multiplication of width `w`. -/
@[irreducible] def wmul (w a b : ℕ) : ℕ := a * b % 2 ^ w

variable {w : ℕ}

theorem wadd_lt (a b : ℕ) : wadd w a b < 2 ^ w := by
  rw [wadd]; exact Nat.mod_lt _ (by positivity)

theorem wsub_lt (a b : ℕ) : wsub w a b < 2 ^ w := by
  rw [wsub]; exact Nat.mod_lt _ (by positivity)

theorem wadd_zero {a : ℕ} (h : a < 2 ^ w) : wadd w a 0 = a := by
  rw [wadd, Nat.add_zero, Nat.mod_eq_of_lt h]

theorem wadd_of_lt {a b : ℕ} (h : a + b < 2 ^ w) : wadd w a b = a + b := by
  rw [wadd, Nat.mod_eq_of_lt h]

theorem wadd_modEq (a b : ℕ) : wadd w a b ≡ a + b [MOD 2 ^ w] := by
  rw [wadd]; exact Nat.mod_modEq _ _

theorem wadd_wadd (a b c : ℕ) : wadd w (wadd w a b) c = wadd w a (b + c) := by
  simp only [wadd, Nat.mod_add_mod, Nat.add_assoc]

theorem add_wsub_modEq (a b : ℕ) : b + wsub w a b ≡ a [MOD 2 ^ w] := by
  have hlt : b % 2 ^ w < 2 ^ w := Nat.mod_lt _ (by positivity)
  have h1 : b + wsub w a b ≡ b % 2 ^ w + (2 ^ w - b % 2 ^ w + a) [MOD 2 ^ w] := by
    rw [wsub]; exact Nat.ModEq.add (Nat.mod_modEq b _).symm (Nat.mod_modEq _ _)
  have h2 : b % 2 ^ w + (2 ^ w - b % 2 ^ w + a) = a + 2 ^ w := by omega
  rw [h2] at h1
  exact h1.trans (by simp [Nat.ModEq])

/-- The difference `a - b` is the word `d` with `a ≡ b + d`. -/
theorem wsub_eq_iff {a b d : ℕ} (hd : d < 2 ^ w) :
    wsub w a b = d ↔ a ≡ b + d [MOD 2 ^ w] := by
  constructor
  · rintro rfl
    exact (add_wsub_modEq a b).symm
  · intro h
    have h' : b + wsub w a b ≡ b + d [MOD 2 ^ w] := (add_wsub_modEq a b).trans h
    exact Nat.ModEq.eq_of_lt_of_lt (Nat.ModEq.add_left_cancel' b h') (wsub_lt a b) hd

theorem wsub_self (a : ℕ) : wsub w a a = 0 :=
  (wsub_eq_iff (by positivity)).2 (by simp [Nat.ModEq])

/-- Without wrap-around the difference is the difference of the numbers. -/
theorem wsub_of_le {a b : ℕ} (h : b ≤ a) (ha : a < 2 ^ w) : wsub w a b = a - b :=
  (wsub_eq_iff (by omega)).2 (by rw [Nat.add_sub_cancel' h])

/-- Subtracting twice subtracts the sum. -/
theorem wsub_wsub (a b c : ℕ) : wsub w (wsub w a b) c = wsub w a (b + c) := by
  refine (wsub_eq_iff (wsub_lt _ _)).2 (Nat.ModEq.add_left_cancel' b ?_)
  rw [← Nat.add_assoc]
  exact (add_wsub_modEq a b).trans (add_wsub_modEq a (b + c)).symm

/-- Advancing the minuend advances the difference, as long as it fits. -/
theorem wsub_wadd_left {a b n : ℕ} (h : wsub w a b + n < 2 ^ w) :
    wsub w (wadd w a n) b = wsub w a b + n := by
  refine (wsub_eq_iff h).2 ((wadd_modEq a n).trans ?_)
  rw [← Nat.add_assoc]
  exact (add_wsub_modEq a b).symm.add_right n

/-- Advancing the subtrahend shrinks the difference, as long as it does not pass zero. -/
theorem wsub_wadd_right {a b n : ℕ} (h : n ≤ wsub w a b) :
    wsub w a (wadd w b n) = wsub w a b - n := by
  have hlt := wsub_lt (w := w) a b
  refine (wsub_eq_iff (by omega)).2 ?_
  have h1 : wadd w b n + (wsub w a b - n) ≡ b + n + (wsub w a b - n) [MOD 2 ^ w] :=
    (wadd_modEq b n).add_right _
  rw [show b + n + (wsub w a b - n) = b + wsub w a b by omega] at h1
  exact (h1.trans (add_wsub_modEq a b)).symm

theorem wmul_modEq (a b : ℕ) : wmul w a b ≡ a * b [MOD 2 ^ w] := by
  rw [wmul]; exact Nat.mod_modEq _ _

/-- A number cut to a word has the same quotient as before exactly if nothing was cut off, for
divisors that are not larger than the range of the words. -/
theorem mod_div_eq_div_iff {x m d : ℕ} (hd : 0 < d) (hle : d ≤ m) : x % m / d = x / d ↔ x < m := by
  constructor
  · intro heq
    by_contra hge
    have hx : m * 1 ≤ m * (x / m) :=
      Nat.mul_le_mul_left m (Nat.div_pos (Nat.le_of_not_lt hge) (hd.trans_le hle))
    have hsplit := Nat.mod_add_div x m
    have hlt : x % m / d + 1 ≤ x / d := by
      rw [← Nat.add_div_right _ hd]
      exact Nat.div_le_div_right (by omega)
    omega
  · intro hlt
    rw [Nat.mod_eq_of_lt hlt]

/-- Masking with `2 ^ k - 1` reduces modulo `2 ^ k`. -/
theorem wadd_and_mask {k a b : ℕ} (hk : k ≤ w) :
    wadd w a b &&& (2 ^ k - 1) = (a + b) % 2 ^ k := by
  rw [Nat.and_two_pow_sub_one_eq_mod, wadd, Nat.mod_mod_of_dvd _ (Nat.pow_dvd_pow 2 hk)]

/-- The usual test for a power of two. -/
theorem eq_two_pow_of_and_pred {n : ℕ} (h0 : n ≠ 0) (h : n &&& (n - 1) = 0) : ∃ k, n = 2 ^ k := by
  have hle := Nat.log2_self_le h0
  have hlt := Nat.lt_log2_self (n := n)
  refine ⟨n.log2, by_contra fun hne => ?_⟩
  -- otherwise the leading bit of `n` is also one of `n - 1`
  have hbit : ∀ m, 2 ^ n.log2 ≤ m → m < 2 ^ (n.log2 + 1) → m.testBit n.log2 = true := by
    intro m h1 h2
    rw [Nat.testBit_eq_decide_div_mod_eq, Nat.div_eq_of_lt_le (k := 1) (by omega) (by omega)]
    rfl
  have hand := congrArg (fun m => m.testBit n.log2) h
  simp only [Nat.testBit_and, hbit n hle hlt, hbit (n - 1) (by omega) (by omega),
    Nat.zero_testBit] at hand
  exact absurd hand (by decide)

end Word

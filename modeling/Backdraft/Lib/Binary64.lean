import Mathlib.Data.Int.Log
import Mathlib.Data.Rat.Floor
import Mathlib.Tactic

/-!
# Rounding to binary64

Arithmetic of the C type `double` on numbers that are not negative: the exact result, rounded to 53
binary digits, to the nearest and in a tie to the even one.  Results too large or too small for the
exponent are not considered.

* `roundEven`: the nearest integer;
* `round`: the nearest number of 53 digits;
* `ofNat`, `mul`, `div`, `toNat`: conversions and operations;
* `toNat_div_eq_zero_iff`: a quotient is cut to zero exactly if the dividend is the smaller one.
-/

namespace Binary64

/-- The nearest integer, the even one in a tie. -/
def roundEven (q : ℚ) : ℤ :=
  if q - ⌊q⌋ < 1 / 2 then ⌊q⌋ else if 1 / 2 < q - ⌊q⌋ then ⌊q⌋ + 1 else ⌊q⌋ + ⌊q⌋ % 2

/-- The value of the last of 53 digits. -/
def ulp (q : ℚ) : ℚ := 2 ^ (Int.log 2 q - 52)

/-- The nearest number of 53 digits. -/
def round (q : ℚ) : ℚ := roundEven (q / ulp q) * ulp q

/-- The conversion from an unsigned integer. -/
def ofNat (n : ℕ) : ℚ := round n

/-- The product. -/
def mul (x y : ℚ) : ℚ := round (x * y)

/-- The quotient. -/
def div (x y : ℚ) : ℚ := round (x / y)

/-- The conversion to an unsigned integer. -/
def toNat (x : ℚ) : ℕ := ⌊x⌋₊

variable {q x y : ℚ} {n : ℤ}

theorem le_roundEven (h : n ≤ q) : n ≤ roundEven q := by
  have hfloor : n ≤ ⌊q⌋ := Int.le_floor.2 h
  unfold roundEven
  split_ifs <;> omega

theorem roundEven_le (h : q ≤ n) : roundEven q ≤ n := by
  have hfloor : ⌊q⌋ ≤ n := Int.floor_le_iff.2 (h.trans_lt (lt_add_one _))
  obtain heq | hlt := hfloor.eq_or_lt
  · -- the number is the integer itself
    have hq : q = ⌊q⌋ := le_antisymm (heq ▸ h) (Int.floor_le q)
    have hfrac : q - ⌊q⌋ < 1 / 2 := by
      rw [← hq, sub_self]
      norm_num
    rw [roundEven, if_pos hfrac]
    exact hfloor
  · unfold roundEven
    split_ifs <;> omega

theorem ulp_pos (q : ℚ) : 0 < ulp q := by
  unfold ulp
  positivity

@[simp] theorem round_zero : round 0 = 0 := by
  simp [round, roundEven]

theorem roundEven_lt (h : q < n - 1 / 2) : roundEven q < n := by
  have hfloor : ⌊q⌋ < n := Int.floor_lt.2 (by linarith)
  by_cases hlast : ⌊q⌋ = n - 1
  · have hfrac : q - ⌊q⌋ < 1 / 2 := by
      rw [hlast, Int.cast_sub, Int.cast_one]
      linarith
    rw [roundEven, if_pos hfrac]
    exact hfloor
  · unfold roundEven
    split_ifs <;> omega

/-- Before the last place a positive number has 53 digits. -/
theorem le_div_ulp (h : 0 < q) : ((2 ^ 52 : ℤ) : ℚ) ≤ q / ulp q := by
  rw [le_div_iff₀ (ulp_pos q), ulp, Int.cast_pow, Int.cast_ofNat, ← zpow_natCast,
    ← zpow_add₀ two_ne_zero]
  simpa using Int.zpow_log_le_self (b := 2) (by decide) h

theorem div_ulp_le (q : ℚ) : q / ulp q ≤ ((2 ^ 53 : ℤ) : ℚ) := by
  have hexp : ((53 : ℕ) : ℤ) + (Int.log 2 q - 52) = Int.log 2 q + 1 := by
    push_cast
    ring
  rw [div_le_iff₀ (ulp_pos q), ulp, Int.cast_pow, Int.cast_ofNat, ← zpow_natCast,
    ← zpow_add₀ two_ne_zero, hexp]
  exact_mod_cast (Int.lt_zpow_succ_log_self (b := 2) (by decide) q).le

/-- A positive number of 53 digits. -/
def Digits (x : ℚ) : Prop := ∃ m e : ℤ, 2 ^ 52 ≤ m ∧ m ≤ 2 ^ 53 ∧ x = m * 2 ^ e

theorem digits_round (h : 0 < q) : Digits (round q) :=
  ⟨roundEven (q / ulp q), Int.log 2 q - 52, le_roundEven (le_div_ulp h),
    roundEven_le (div_ulp_le q), rfl⟩

theorem Digits.pos (h : Digits x) : 0 < x := by
  obtain ⟨m, e, hlow, -, rfl⟩ := h
  have hm : (0 : ℚ) < m := by exact_mod_cast (by decide : (0 : ℤ) < 2 ^ 52).trans_le hlow
  positivity

theorem digits_ofNat {n : ℕ} (h : 0 < n) : Digits (ofNat n) :=
  digits_round (Nat.cast_pos.2 h)

/-- A product with a positive number. -/
theorem eq_zero_or_digits_mul (hx : x = 0 ∨ Digits x) (hy : 0 < y) :
    mul x y = 0 ∨ Digits (mul x y) := by
  rcases hx with rfl | hx
  · exact .inl (by rw [mul, zero_mul, round_zero])
  · exact .inr (digits_round (mul_pos hx.pos hy))

/-- Between two numbers of 53 digits there is a gap. -/
theorem Digits.gap (hx : Digits x) (hy : Digits y) (hlt : x < y) :
    (2 ^ 53 + 1) * x ≤ 2 ^ 53 * y := by
  -- both are multiples of the smaller last place, and the smaller one is not above `2 ^ 53` of them
  have hgap : ∀ (k l : ℤ) (u : ℚ), 0 < u → k ≤ 2 ^ 53 → (k : ℚ) * u < l * u →
      (2 ^ 53 + 1) * (k * u) ≤ 2 ^ 53 * (l * u) := by
    intro k l u hu hk hkl
    have hkl' : k < l := by exact_mod_cast lt_of_mul_lt_mul_right hkl hu.le
    have hint : (2 ^ 53 + 1) * k ≤ 2 ^ 53 * l := by omega
    have hrat : (2 ^ 53 + 1) * (k : ℚ) ≤ 2 ^ 53 * l := by exact_mod_cast hint
    calc (2 ^ 53 + 1) * (k * u) = (2 ^ 53 + 1) * k * u := by ring
      _ ≤ 2 ^ 53 * l * u := mul_le_mul_of_nonneg_right hrat hu.le
      _ = 2 ^ 53 * (l * u) := by ring
  obtain ⟨m, e, -, hm, rfl⟩ := hx
  obtain ⟨m', e', -, hm', rfl⟩ := hy
  rcases le_total e e' with he | he
  · obtain ⟨d, rfl⟩ := Int.le.dest he
    have hsplit : (m' : ℚ) * 2 ^ (e + (d : ℤ)) = ((m' * 2 ^ d : ℤ) : ℚ) * 2 ^ e := by
      rw [zpow_add₀ two_ne_zero, zpow_natCast]
      push_cast
      ring
    rw [hsplit] at hlt ⊢
    exact hgap m _ _ (by positivity) hm hlt
  · obtain ⟨d, rfl⟩ := Int.le.dest he
    have hsplit : (m : ℚ) * 2 ^ (e' + (d : ℤ)) = ((m * 2 ^ d : ℤ) : ℚ) * 2 ^ e' := by
      rw [zpow_add₀ two_ne_zero, zpow_natCast]
      push_cast
      ring
    rw [hsplit] at hlt ⊢
    refine hgap _ m' _ (by positivity) ?_ hlt
    have hle : m * 2 ^ d < m' := by
      exact_mod_cast lt_of_mul_lt_mul_right hlt (by positivity : (0 : ℚ) ≤ 2 ^ e')
    omega

theorem one_le_round (h : 1 ≤ q) : 1 ≤ round q := by
  have hlog : 0 ≤ Int.log 2 q := by
    rw [Int.log_of_one_le_right 2 h]
    positivity
  have hdigits : ((2 ^ 52 : ℤ) : ℚ) ≤ roundEven (q / ulp q) := by
    exact_mod_cast le_roundEven (le_div_ulp (zero_lt_one.trans_le h))
  calc (1 : ℚ) ≤ 2 ^ Int.log 2 q := one_le_zpow₀ one_le_two hlog
    _ = ((2 ^ 52 : ℤ) : ℚ) * ulp q := by
      rw [ulp, Int.cast_pow, Int.cast_ofNat, ← zpow_natCast, ← zpow_add₀ two_ne_zero]
      norm_num
    _ ≤ round q := mul_le_mul_of_nonneg_right hdigits (ulp_pos q).le

/-- A number with a gap below 1 is not rounded up to it. -/
theorem round_lt_one (hpos : 0 < q) (h : (2 ^ 53 + 1) * q ≤ 2 ^ 53) : round q < 1 := by
  have hlt : q < 1 := by nlinarith
  have hlog : Int.log 2 q < 0 := by
    refine (Int.lt_zpow_iff_log_lt (by decide) hpos).1 ?_
    simpa using hlt
  obtain heq | hsmall : Int.log 2 q = -1 ∨ Int.log 2 q ≤ -2 := by omega
  · have hulp : ulp q = 1 / 2 ^ 53 := by
      rw [ulp, heq]
      norm_num
    have hround : roundEven (q / ulp q) < 2 ^ 53 := by
      refine roundEven_lt ?_
      rw [hulp]
      norm_num
      linarith
    have hcast : (roundEven (q / ulp q) : ℚ) < 2 ^ 53 := by exact_mod_cast hround
    rw [round, hulp] at *
    linarith
  · have hround : (roundEven (q / ulp q) : ℚ) ≤ ((2 ^ 53 : ℤ) : ℚ) := by
      exact_mod_cast roundEven_le (div_ulp_le q)
    calc round q ≤ ((2 ^ 53 : ℤ) : ℚ) * ulp q :=
          mul_le_mul_of_nonneg_right hround (ulp_pos q).le
      _ = 2 ^ (Int.log 2 q + 1) := by
        rw [ulp, Int.cast_pow, Int.cast_ofNat, ← zpow_natCast, ← zpow_add₀ two_ne_zero]
        norm_num
        ring_nf
      _ ≤ 2 ^ (-1 : ℤ) := zpow_le_zpow_right₀ one_le_two (by omega)
      _ < 1 := by norm_num

/-- **A quotient is cut to zero exactly if the dividend is the smaller one.** -/
theorem toNat_div_eq_zero_iff (hx : x = 0 ∨ Digits x) (hy : Digits y) :
    toNat (div x y) = 0 ↔ x < y := by
  have hypos := hy.pos
  rw [toNat, Nat.floor_eq_zero, div]
  rcases hx with rfl | hx
  · simp [hypos]
  · have hxpos := hx.pos
    constructor
    · intro hlt
      by_contra hge
      have hone : 1 ≤ x / y := (one_le_div hypos).2 (not_lt.1 hge)
      exact absurd (one_le_round hone) (not_le.2 hlt)
    · intro hlt
      refine round_lt_one (div_pos hxpos hypos) ?_
      rw [← mul_div_assoc, div_le_iff₀ hypos]
      exact hx.gap hy hlt

end Binary64

import Mathlib.Tactic

/-!
# Metered runs

A meter charges amounts to a counter that may be cleared (recharged) at most once in a window of
time `W`, and that never exceeds `L`.  `Metered W L token ts clock es` says that the charges `es`
may follow when `token` is on the counter, `ts` is the time of the last recharge and `clock` that
of the last charge.  The amount of a charge that recharges counts after the recharge.

* `Metered.epoch_le`: what is charged between two recharges;
* `Metered.recharges_apart`: how far apart the recharges are;
* `Metered.sum_between_le`: what is charged in an interval of time.
-/

namespace Meter

/-- A charge: when, how much, and whether the counter was cleared just before. -/
structure Charge where
  time : ℕ
  amount : ℕ
  recharged : Bool
  deriving DecidableEq

/-- What is charged in all. -/
def total (es : List Charge) : ℕ := (es.map Charge.amount).sum

@[simp] theorem total_nil : total [] = 0 := rfl

@[simp] theorem total_cons (e : Charge) (es : List Charge) :
    total (e :: es) = e.amount + total es := by
  simp [total]

/-- The charges in a closed interval of time. -/
def between (a b : ℕ) (es : List Charge) : List Charge :=
  es.filter fun e => a ≤ e.time ∧ e.time ≤ b

/-- The counter after a charge. -/
def Charge.counter (e : Charge) (token : ℕ) : ℕ :=
  (if e.recharged then 0 else token) + e.amount

/-- The time of the last recharge after a charge. -/
def Charge.stamp (e : Charge) (ts : ℕ) : ℕ := if e.recharged then e.time else ts

/-- The runs of a meter. -/
def Metered (W L : ℕ) : ℕ → ℕ → ℕ → List Charge → Prop
  | _, _, _, [] => True
  | token, ts, clock, e :: es =>
    clock ≤ e.time ∧ (e.recharged = true → ts + W ≤ e.time) ∧ e.counter token ≤ L ∧
      Metered W L (e.counter token) (e.stamp ts) e.time es

variable {W L token ts clock : ℕ} {e : Charge} {es : List Charge}

theorem Metered.clock_le (h : Metered W L token ts clock es) : ∀ e ∈ es, clock ≤ e.time := by
  induction es generalizing token ts clock with
  | nil => simp
  | cons e es ih =>
    obtain ⟨hclock, -, -, hrest⟩ := h
    intro x hx
    rcases List.mem_cons.1 hx with rfl | hx
    · exact hclock
    · exact hclock.trans (ih hrest x hx)

/-- After any charges, the rest is a run of the meter. -/
theorem Metered.of_append {pre post : List Charge} (h : Metered W L token ts clock (pre ++ post)) :
    ∃ token' ts' clock', Metered W L token' ts' clock' post := by
  induction pre generalizing token ts clock with
  | nil => exact ⟨token, ts, clock, h⟩
  | cons e pre ih => exact ih h.2.2.2

/-! ### Epochs -/

/-- Without recharges the counter grows by what is charged. -/
theorem Metered.token_add_total_le {seg post : List Charge}
    (h : Metered W L token ts clock (seg ++ post)) (htoken : token ≤ L)
    (hseg : ∀ e ∈ seg, e.recharged = false) : token + total seg ≤ L := by
  induction seg generalizing token ts clock with
  | nil => simpa using htoken
  | cons e seg ih =>
    obtain ⟨-, -, hcounter, hrest⟩ := h
    have he : e.counter token = token + e.amount := by
      simp [Charge.counter, hseg e List.mem_cons_self]
    have := ih hrest hcounter fun x hx => hseg x (List.mem_cons_of_mem _ hx)
    rw [he] at this
    rw [total_cons]
    omega

/-- **Between two recharges** at most `L` is charged, the charge that recharges included. -/
theorem Metered.epoch_le {pre seg post : List Charge}
    (h : Metered W L token ts clock (pre ++ e :: (seg ++ post)))
    (hseg : ∀ x ∈ seg, x.recharged = false) : total (e :: seg) ≤ L := by
  obtain ⟨token', ts', clock', -, -, hcounter, hrest⟩ := h.of_append
  have hsum := hrest.token_add_total_le hcounter hseg
  have hamount : e.amount ≤ e.counter token' := Nat.le_add_left _ _
  rw [total_cons]
  omega

/-! ### Recharges -/

theorem Metered.stamp_add_le (h : Metered W L token ts clock es) :
    ∀ e ∈ es, e.recharged = true → ts + W ≤ e.time := by
  induction es generalizing token ts clock with
  | nil => simp
  | cons e es ih =>
    obtain ⟨-, hstamp, -, hrest⟩ := h
    intro x hx hrx
    rcases List.mem_cons.1 hx with rfl | hx
    · exact hstamp hrx
    · have hlater := ih hrest x hx hrx
      cases he : e.recharged with
      | false => simpa [Charge.stamp, he] using hlater
      | true =>
        have hfirst := hstamp he
        simp only [Charge.stamp, he, if_true] at hlater
        omega

/-- **Recharges are at least a window apart.** -/
theorem Metered.recharges_apart (h : Metered W L token ts clock es) :
    (es.filter Charge.recharged).Pairwise fun e e' => e.time + W ≤ e'.time := by
  induction es generalizing token ts clock with
  | nil => simp
  | cons e es ih =>
    obtain ⟨-, -, -, hrest⟩ := h
    cases he : e.recharged with
    | false => simpa [he] using ih hrest
    | true =>
      rw [List.filter_cons_of_pos he, List.pairwise_cons]
      refine ⟨fun x hx => ?_, ih hrest⟩
      obtain ⟨hmem, hrx⟩ := List.mem_filter.1 hx
      have := hrest.stamp_add_le x hmem hrx
      simpa [Charge.stamp, he] using this

/-! ### Intervals of time -/

/-- From a charge after the interval on, nothing is charged in it. -/
theorem Metered.between_eq_nil {a b : ℕ} (h : Metered W L token ts clock (e :: es))
    (hb : b < e.time) : between a b (e :: es) = [] := by
  rw [between, List.filter_eq_nil_iff]
  intro x hx
  have hx' : e.time ≤ x.time := by
    rcases List.mem_cons.1 hx with rfl | hx
    · exact le_rfl
    · exact h.2.2.2.clock_le x hx
  simp only [decide_eq_true_eq, not_and, not_le]
  omega

theorem total_between_cons_le (e : Charge) (es : List Charge) (a b : ℕ) :
    total (between a b (e :: es)) ≤ e.amount + total (between a b es) := by
  by_cases h : a ≤ e.time ∧ e.time ≤ b
  · have : between a b (e :: es) = e :: between a b es := by simp [between, h]
    rw [this, total_cons]
  · have : between a b (e :: es) = between a b es := by simp [between, h]
    rw [this]
    omega

theorem le_mul_succ {x : ℕ} (h : x ≤ L) (n : ℕ) : x ≤ L * (n + 1) :=
  h.trans (Nat.le_mul_of_pos_right _ n.succ_pos)

/-- From a recharge on: one `L` for each window begun. -/
theorem Metered.sum_from_stamp_le {a b : ℕ} (h : Metered W L token ts clock es) (hW : 0 < W)
    (htoken : token ≤ L) (hts : ts ≤ b) :
    token + total (between a b es) ≤ L * ((b - ts) / W + 1) := by
  induction es generalizing token ts clock with
  | nil => exact le_mul_succ htoken _
  | cons e es ih =>
    have hend := h.between_eq_nil (a := a) (b := b)
    obtain ⟨-, hstamp, hcounter, hrest⟩ := h
    have hcons := total_between_cons_le e es a b
    cases he : e.recharged with
    | false =>
      simp only [Charge.counter, Charge.stamp, he, Bool.false_eq_true, if_false] at hcounter hrest
      have := ih hrest hcounter hts
      omega
    | true =>
      have hwindow := hstamp he
      simp only [Charge.counter, Charge.stamp, he, if_true, zero_add] at hcounter hrest
      by_cases hb : e.time ≤ b
      · -- the next window has begun
        have hnext := ih hrest hcounter hb
        have hdiv : (b - e.time) / W + 1 ≤ (b - ts) / W := by
          rw [← Nat.add_div_right _ hW]
          exact Nat.div_le_div_right (by omega)
        calc token + total (between a b (e :: es))
            ≤ L + L * ((b - e.time) / W + 1) := by omega
          _ ≤ L + L * ((b - ts) / W) := Nat.add_le_add_left (Nat.mul_le_mul_left _ hdiv) _
          _ = L * ((b - ts) / W + 1) := by ring
      · rw [hend (by omega)]
        exact le_mul_succ htoken _

/-- From any time on: what the counter still takes, and then one `L` for each window begun. -/
theorem Metered.sum_from_le {a b : ℕ} (h : Metered W L token ts clock es) (hW : 0 < W)
    (htoken : token ≤ L) (hclock : a ≤ clock) :
    token + total (between a b es) ≤ L * ((b - a) / W + 2) := by
  induction es generalizing token ts clock with
  | nil => exact le_mul_succ htoken _
  | cons e es ih =>
    have hend := h.between_eq_nil (a := a) (b := b)
    obtain ⟨htime, -, hcounter, hrest⟩ := h
    have hcons := total_between_cons_le e es a b
    cases he : e.recharged with
    | false =>
      simp only [Charge.counter, he, Bool.false_eq_true, if_false] at hcounter hrest
      have := ih hrest hcounter (hclock.trans htime)
      omega
    | true =>
      simp only [Charge.counter, Charge.stamp, he, if_true, zero_add] at hcounter hrest
      by_cases hb : e.time ≤ b
      · have hnext := hrest.sum_from_stamp_le (a := a) hW hcounter hb
        have hdiv : (b - e.time) / W + 1 ≤ (b - a) / W + 1 :=
          Nat.add_le_add_right (Nat.div_le_div_right (by omega)) 1
        calc token + total (between a b (e :: es))
            ≤ L + L * ((b - e.time) / W + 1) := by omega
          _ ≤ L + L * ((b - a) / W + 1) := Nat.add_le_add_left (Nat.mul_le_mul_left _ hdiv) _
          _ = L * ((b - a) / W + 2) := by ring
      · rw [hend (by omega)]
        exact le_mul_succ htoken _

/-- **In any interval of time** of length `T` at most `L * (T / W + 2)` is charged. -/
theorem Metered.sum_between_le (h : Metered W L token ts clock es) (hW : 0 < W)
    (htoken : token ≤ L) (a T : ℕ) : total (between a (a + T) es) ≤ L * (T / W + 2) := by
  induction es generalizing token ts clock with
  | nil => simp [between]
  | cons e es ih =>
    by_cases ha : a ≤ e.time
    · have hfrom : Metered W L token ts a (e :: es) := ⟨ha, h.2⟩
      have := hfrom.sum_from_le (b := a + T) hW htoken le_rfl
      rw [Nat.add_sub_cancel_left] at this
      omega
    · have hskip : between a (a + T) (e :: es) = between a (a + T) es := by simp [between, ha]
      rw [hskip]
      exact ih h.2.2.2 h.2.2.1

end Meter

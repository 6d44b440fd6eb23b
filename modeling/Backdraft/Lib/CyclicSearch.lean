import Mathlib.Tactic

/-!
# Searching a ring

`search n stop p rounds i` looks at the places `i`, `i + 1`, …, of a ring of `n` places, for one
that passes the test `p`, until it comes to the place `stop`.

* `search_of_pos`: the search ends at once where the test holds;
* `isSome_search_iff`: a search that begins behind `stop` sees every place but `stop`.
-/

namespace CyclicSearch

variable {n stop i : ℕ} {p : ℕ → Bool}

/-- Look for a place that passes `p`, from `i` on and up to `stop`, in so many rounds. -/
def search (n stop : ℕ) (p : ℕ → Bool) : ℕ → ℕ → Option ℕ
  | 0, _ => none
  | rounds + 1, i =>
    if i = stop then none
    else if p i then some i
    else search n stop p rounds ((i + 1) % n)

theorem search_of_pos {rounds : ℕ} (hrounds : 0 < rounds) (hne : i ≠ stop) (h : p i = true) :
    search n stop p rounds i = some i := by
  obtain ⟨rounds, rfl⟩ := Nat.exists_eq_add_of_le' hrounds
  rw [search, if_neg hne, if_pos h]

/-- The place `d` places behind the one after `stop` is `stop` once around the ring. -/
theorem add_mod_eq_iff {d : ℕ} (hstop : stop < n) (hd : d < n) :
    (stop + 1 + d) % n = stop ↔ d + 1 = n := by
  by_cases hlt : stop + 1 + d < n
  · rw [Nat.mod_eq_of_lt hlt]
    omega
  · rw [Nat.mod_eq_sub_mod (by omega), Nat.mod_eq_of_lt (by omega)]
    omega

/-- The search from a place sees those from it on. -/
theorem isSome_search_from {rounds d : ℕ} (hstop : stop < n) (hd : d < n)
    (hrounds : n - d ≤ rounds) :
    (search n stop p rounds ((stop + 1 + d) % n)).isSome = true ↔
      ∃ e, d ≤ e ∧ e + 1 < n ∧ p ((stop + 1 + e) % n) = true := by
  induction rounds generalizing d with
  | zero => omega
  | succ rounds ih =>
    rw [search]
    by_cases hlast : d + 1 = n
    · rw [if_pos ((add_mod_eq_iff hstop hd).2 hlast)]
      refine iff_of_false (by simp) ?_
      rintro ⟨e, hde, hen, -⟩
      omega
    · rw [if_neg fun heq => hlast ((add_mod_eq_iff hstop hd).1 heq)]
      split_ifs with hp
      · exact iff_of_true rfl ⟨d, le_rfl, by omega, hp⟩
      · rw [Nat.mod_add_mod, add_assoc, ih (by omega) (by omega)]
        constructor
        · rintro ⟨e, hde, hen, hpe⟩
          exact ⟨e, by omega, hen, hpe⟩
        · rintro ⟨e, hde, hen, hpe⟩
          -- the place `d` itself has failed the test
          have hne : e ≠ d := by
            rintro rfl
            exact hp hpe
          exact ⟨e, by omega, hen, hpe⟩

/-- **A search from the place behind `stop`, in as many rounds as there are places, finds a place
exactly if one other than `stop` passes the test.** -/
theorem isSome_search_iff (hstop : stop < n) :
    (search n stop p n ((stop + 1) % n)).isSome = true ↔ ∃ i < n, i ≠ stop ∧ p i = true := by
  have hfrom := isSome_search_from (p := p) hstop (d := 0) (by omega) (by omega : n - 0 ≤ n)
  rw [add_zero] at hfrom
  rw [hfrom]
  constructor
  · rintro ⟨e, -, hen, hp⟩
    refine ⟨_, Nat.mod_lt _ (by omega), fun heq => ?_, hp⟩
    have := (add_mod_eq_iff hstop (by omega)).1 heq
    omega
  · rintro ⟨i, hi, hne, hp⟩
    by_cases hlt : stop < i
    · refine ⟨i - stop - 1, by omega, by omega, ?_⟩
      rwa [show stop + 1 + (i - stop - 1) = i by omega, Nat.mod_eq_of_lt hi]
    · refine ⟨i + n - stop - 1, by omega, by omega, ?_⟩
      rwa [show stop + 1 + (i + n - stop - 1) = i + n by omega, Nat.add_mod_right,
        Nat.mod_eq_of_lt hi]

end CyclicSearch

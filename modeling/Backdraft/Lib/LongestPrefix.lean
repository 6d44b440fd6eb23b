import Mathlib.Tactic

/-!
# Longest-prefix match

Rules for addresses of `w` bits: a rule has a depth `d`, the number of leading bits it looks at, and
the network whose addresses it is for.

* `Longest`: the rule with the greatest depth among those that match an address;
* `insert`, `erase`: rules are put in, or replaced, and taken out;
* `lookup`: the search from the greatest depth down, which finds it (`lookup_eq_some_iff`).
-/

namespace LongestPrefix

/-- Rules by depth and network, each with its value. -/
abbrev Rules (ν : Type*) := ℕ → ℕ → Option ν

variable {ν : Type*} {w a d e : ℕ} {r : Rules ν} {v : ν}

/-- The network of depth `d` of an address. -/
def network (w d a : ℕ) : ℕ := a / 2 ^ (w - d) * 2 ^ (w - d)

/-- A rule of depth `d` matches `a`. -/
structure Matches (w : ℕ) (r : Rules ν) (a d : ℕ) (v : ν) : Prop where
  pos : 1 ≤ d
  le : d ≤ w
  rule : r d (network w d a) = some v

/-- `v` is the value of the rule of greatest depth that matches `a`. -/
def Longest (w : ℕ) (r : Rules ν) (a : ℕ) (v : ν) : Prop :=
  ∃ d, Matches w r a d v ∧ ∀ e u, Matches w r a e u → e ≤ d

/-- Put a rule in; one for the same network is replaced. -/
def insert (r : Rules ν) (d n : ℕ) (v : ν) : Rules ν := fun e m =>
  if e = d ∧ m = n then some v else r e m

/-- Take a rule out. -/
def erase (r : Rules ν) (d n : ℕ) : Rules ν := fun e m => if e = d ∧ m = n then none else r e m

/-- A rule that is there after `insert` is the new one or was there before. -/
theorem insert_eq_some {n m : ℕ} {u : ν} (h : insert r d n v e m = some u) :
    u = v ∨ r e m = some u := by
  rw [insert] at h
  split_ifs at h
  · exact .inl (Option.some.inj h).symm
  · exact .inr h

theorem erase_eq_some {n m : ℕ} (h : erase r d n e m = some v) : r e m = some v := by
  rw [erase] at h
  split_ifs at h
  exact h

/-- The search among the rules of depth at most `d`. -/
def lookupFrom (w : ℕ) (r : Rules ν) (a : ℕ) : ℕ → Option ν
  | 0 => none
  | d + 1 => (r (d + 1) (network w (d + 1) a)).or (lookupFrom w r a d)

/-- The search for the longest match. -/
def lookup (w : ℕ) (r : Rules ν) (a : ℕ) : Option ν := lookupFrom w r a w

theorem lookupFrom_eq_some_iff (hd : d ≤ w) :
    lookupFrom w r a d = some v ↔
      ∃ e ≤ d, Matches w r a e v ∧ ∀ f ≤ d, ∀ u, Matches w r a f u → f ≤ e := by
  induction d with
  | zero =>
    refine ⟨fun h => by simp [lookupFrom] at h, ?_⟩
    rintro ⟨e, he, hmatch, -⟩
    exact absurd hmatch.pos (by omega)
  | succ d ih =>
    cases hrule : r (d + 1) (network w (d + 1) a) with
    | some u =>
      have hnew : Matches w r a (d + 1) u := ⟨by omega, hd, hrule⟩
      rw [lookupFrom, hrule, Option.some_or, Option.some.injEq]
      constructor
      · rintro rfl
        exact ⟨d + 1, le_rfl, hnew, fun f hf _ _ => hf⟩
      · rintro ⟨e, he, hmatch, hmax⟩
        -- the new rule matches too, so the longest match has its depth
        obtain rfl : e = d + 1 := le_antisymm he (hmax (d + 1) le_rfl u hnew)
        exact Option.some.inj (hrule.symm.trans hmatch.rule)
    | none =>
      have hle : ∀ f ≤ d + 1, ∀ u, Matches w r a f u → f ≤ d := by
        intro f hf u hmatch
        rcases Nat.lt_or_eq_of_le hf with hlt | rfl
        · omega
        · exact absurd (hrule.symm.trans hmatch.rule) (by simp)
      rw [lookupFrom, hrule, Option.none_or, ih (by omega)]
      constructor
      · rintro ⟨e, he, hmatch, hmax⟩
        exact ⟨e, by omega, hmatch, fun f hf u hu => hmax f (hle f hf u hu) u hu⟩
      · rintro ⟨e, he, hmatch, hmax⟩
        exact ⟨e, hle e he v hmatch, hmatch, fun f hf u hu => hmax f (by omega) u hu⟩

/-- The search finds the longest match. -/
theorem lookup_eq_some_iff : lookup w r a = some v ↔ Longest w r a v := by
  rw [lookup, lookupFrom_eq_some_iff le_rfl]
  constructor
  · rintro ⟨e, -, hmatch, hmax⟩
    exact ⟨e, hmatch, fun f u hf => hmax f hf.le u hf⟩
  · rintro ⟨e, hmatch, hmax⟩
    exact ⟨e, hmatch.le, hmatch, fun f _ u hf => hmax f u hf⟩

end LongestPrefix

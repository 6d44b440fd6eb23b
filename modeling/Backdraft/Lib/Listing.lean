import Mathlib.Tactic

/-!
# Objects listed in vectors

Objects on a heap are named by the numbers of their allocations.  Each belongs to an owner and knows
its index there, and every owner has a vector of pointers to its objects.

* `setAt`: write one pointer of a vector;
* `Listed`: the vectors point exactly to the objects that are alive, each at its place;
* `Listed.mono`: vectors and heap may grow;
* `Listed.add`: a new object comes to a free place;
* `Listed.replace`: an object is written and keeps its place;
* `Listed.remove`, `Listed.erase`: objects are deleted, and their places are free.
-/

namespace Listing

variable {W G : Type*}

/-- Write a pointer to the place `i` of the vector of `m`. -/
def setAt [DecidableEq W] (vec : W → ℕ → Option ℕ) (m : W) (i : ℕ) (p : Option ℕ) :
    W → ℕ → Option ℕ :=
  fun m' i' => if m' = m ∧ i' = i then p else vec m' i'

/-- What is found after an update is what was written, or was there before. -/
theorem update_eq_some {β : Type*} {f : ℕ → Option β} {q r : ℕ} {o : Option β} {b : β}
    (h : Function.update f q o r = some b) : r = q ∧ o = some b ∨ r ≠ q ∧ f r = some b := by
  by_cases hr : r = q
  · subst hr
    rw [Function.update_self] at h
    exact .inl ⟨rfl, h⟩
  · rw [Function.update_of_ne hr] at h
    exact .inr ⟨hr, h⟩

/-- The vectors `vec`, of the lengths `size`, point exactly to the objects of `heap`, each at the
index that it knows; the names from `fresh` on are not given yet. -/
structure Listed (owner : G → W) (index : G → ℕ) (vec : W → ℕ → Option ℕ) (heap : ℕ → Option G)
    (size : W → ℕ) (fresh : ℕ) : Prop where
  live : ∀ {m i p}, vec m i = some p → ∃ g, heap p = some g ∧ owner g = m ∧ index g = i
  listed : ∀ {p g}, heap p = some g → vec (owner g) (index g) = some p
  lt_size : ∀ {m i p}, vec m i = some p → i < size m
  lt_fresh : ∀ {p g}, heap p = some g → p < fresh

namespace Listed

variable {owner : G → W} {index : G → ℕ} {vec : W → ℕ → Option ℕ} {heap : ℕ → Option G}
  {size size' : W → ℕ} {fresh fresh' p : ℕ} {g : G}

/-- An object has one place. -/
theorem eq_some_iff (h : Listed owner index vec heap size fresh) (hp : heap p = some g) {m : W}
    {i : ℕ} : vec m i = some p ↔ m = owner g ∧ i = index g := by
  constructor
  · intro hmi
    obtain ⟨g', hg', rfl, rfl⟩ := h.live hmi
    obtain rfl := Option.some.inj (hp.symm.trans hg')
    exact ⟨rfl, rfl⟩
  · rintro ⟨rfl, rfl⟩
    exact h.listed hp

theorem heap_fresh (h : Listed owner index vec heap size fresh) : heap fresh = none := by
  by_contra hne
  obtain ⟨g, hg⟩ := Option.ne_none_iff_exists'.mp hne
  exact lt_irrefl _ (h.lt_fresh hg)

theorem mono (h : Listed owner index vec heap size fresh) (hsize : ∀ m, size m ≤ size' m)
    (hfresh : fresh ≤ fresh') : Listed owner index vec heap size' fresh' where
  live := h.live
  listed := h.listed
  lt_size hp := (h.lt_size hp).trans_le (hsize _)
  lt_fresh hp := (h.lt_fresh hp).trans_le hfresh

theorem add [DecidableEq W] (h : Listed owner index vec heap size fresh)
    (hnone : vec (owner g) (index g) = none) (hlt : index g < size (owner g)) :
    Listed owner index (setAt vec (owner g) (index g) (some fresh))
      (Function.update heap fresh (some g)) size (fresh + 1) where
  live {m i r} hr := by
    unfold setAt at hr
    split_ifs at hr with hmi
    · obtain rfl := Option.some.inj hr
      exact ⟨g, Function.update_self _ _ _, hmi.1.symm, hmi.2.symm⟩
    · obtain ⟨k, hk, hplace⟩ := h.live hr
      exact ⟨k, (Function.update_of_ne (h.lt_fresh hk).ne _ _).trans hk, hplace⟩
  listed {r k} hk := by
    rcases update_eq_some hk with ⟨rfl, ⟨⟩⟩ | ⟨-, hk⟩
    · exact if_pos ⟨rfl, rfl⟩
    · have hplace := h.listed hk
      -- the free place is not one that is taken
      refine (if_neg ?_).trans hplace
      rintro ⟨howner, hindex⟩
      rw [howner, hindex, hnone] at hplace
      cases hplace
  lt_size {m i r} hr := by
    unfold setAt at hr
    split_ifs at hr with hmi
    · rw [hmi.1, hmi.2]
      exact hlt
    · exact h.lt_size hr
  lt_fresh {r k} hk := by
    rcases update_eq_some hk with ⟨rfl, -⟩ | ⟨-, hk⟩
    · exact Nat.lt_succ_self _
    · exact (h.lt_fresh hk).trans (Nat.lt_succ_self _)

theorem replace (h : Listed owner index vec heap size fresh) (g' : G) (hp : heap p = some g)
    (howner : owner g' = owner g) (hindex : index g' = index g) :
    Listed owner index vec (Function.update heap p (some g')) size fresh where
  live {m i r} hr := by
    obtain ⟨k, hk, hm, hi⟩ := h.live hr
    by_cases hrp : r = p
    · subst hrp
      obtain rfl := Option.some.inj (hp.symm.trans hk)
      exact ⟨g', Function.update_self _ _ _, howner.trans hm, hindex.trans hi⟩
    · exact ⟨k, (Function.update_of_ne hrp _ _).trans hk, hm, hi⟩
  listed {r k} hk := by
    rcases update_eq_some hk with ⟨rfl, ⟨⟩⟩ | ⟨-, hk⟩
    · rw [howner, hindex]
      exact h.listed hp
    · exact h.listed hk
  lt_size := h.lt_size
  lt_fresh {r k} hk := by
    rcases update_eq_some hk with ⟨rfl, -⟩ | ⟨-, hk⟩
    · exact h.lt_fresh hp
    · exact h.lt_fresh hk

theorem remove (h : Listed owner index vec heap size fresh) (gone : List ℕ) :
    Listed owner index (fun m i => (vec m i).filter (· ∉ gone))
      (fun r => if r ∈ gone then none else heap r) size fresh where
  live {m i r} hr := by
    obtain ⟨hmi, hnot⟩ := Option.filter_eq_some_iff.mp hr
    obtain ⟨k, hk, hplace⟩ := h.live hmi
    exact ⟨k, (if_neg (of_decide_eq_true hnot)).trans hk, hplace⟩
  listed {r k} hk := by
    split_ifs at hk with hr
    exact Option.filter_eq_some_iff.mpr ⟨h.listed hk, decide_eq_true hr⟩
  lt_size hr := h.lt_size (Option.filter_eq_some_iff.mp hr).1
  lt_fresh {r k} hk := by
    split_ifs at hk
    exact h.lt_fresh hk

/-- To free the place of an object is to remove the pointers to it. -/
theorem setAt_none [DecidableEq W] (h : Listed owner index vec heap size fresh)
    (hp : heap p = some g) :
    setAt vec (owner g) (index g) none = fun m i => (vec m i).filter (· ∉ [p]) := by
  funext m i
  by_cases hmi : m = owner g ∧ i = index g
  · rw [setAt, if_pos hmi, (h.eq_some_iff hp).mpr hmi]
    simp [Option.filter_some]
  · have hne : vec m i ≠ some p := fun heq => hmi ((h.eq_some_iff hp).mp heq)
    rw [setAt, if_neg hmi]
    rcases hr : vec m i with _ | r
    · rfl
    · have hrp : r ≠ p := fun heq => hne (heq ▸ hr)
      simp [Option.filter_some, hrp]

theorem erase [DecidableEq W] (h : Listed owner index vec heap size fresh)
    (hp : heap p = some g) :
    Listed owner index (setAt vec (owner g) (index g) none) (Function.update heap p none) size
      fresh := by
  have hheap : Function.update heap p none = fun r => if r ∈ [p] then none else heap r := by
    funext r
    simp [Function.update_apply]
  rw [h.setAt_none hp, hheap]
  exact h.remove [p]

end Listed

end Listing

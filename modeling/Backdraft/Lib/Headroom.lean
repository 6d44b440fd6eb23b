import Mathlib.Algebra.BigOperators.Group.Finset.Basic
import Mathlib.Data.Fintype.Basic
import Mathlib.Tactic

/-!
# Buffers with a high and a low mark

Nodes with buffers feed each other.  A buffer that rises above its high mark is overloaded until it
falls below its low mark, and a node does not run while a node that it feeds is overloaded.  A run
takes at most a burst out of the buffer of its node, and puts no more than that into others.

* `Marks`, `Load`, `put`, `take`: the marks, the state, and the two ways it changes;
* `Under`, `Steady`: what the overload flags say about the buffers;
* `Room`: no buffer will be more than a burst above its high mark when the rest of a run is done;
* `Steady.room_take`, `Under.room_source`, `Room.put`: a run that may start stays within that;
* `Steady.exists_free`: without a cycle some node with a full buffer may run;
* `weight`, `weight_take`, `weight_foldl_put`: what a run takes from the packets still to be moved.
-/

namespace Backdraft.Headroom

/-- The marks of the buffers, and the size of a burst. -/
structure Marks (V : Type*) where
  high : V → ℕ
  low : V → ℕ
  burst : ℕ
  low_pos : ∀ q, 0 < low q
  low_le : ∀ q, low q ≤ high q

/-- What is in the buffers, and which of them are overloaded. -/
structure Load (V : Type*) where
  count : V → ℕ
  loaded : V → Bool

variable {V : Type*} [DecidableEq V]

/-- Put packets into a buffer. -/
def put (M : Marks V) (s : Load V) (d : V × ℕ) : Load V where
  count := Function.update s.count d.1 (s.count d.1 + d.2)
  loaded := Function.update s.loaded d.1 (s.loaded d.1 || decide (M.high d.1 < s.count d.1 + d.2))

/-- Take packets out of a buffer. -/
def take (M : Marks V) (s : Load V) (t : V) (k : ℕ) : Load V where
  count := Function.update s.count t (s.count t - k)
  loaded := Function.update s.loaded t (s.loaded t && !decide (s.count t - k < M.low t))

/-- The packets that a list of deliveries has for a node. -/
def pending (ds : List (V × ℕ)) (q : V) : ℕ := (ds.map fun d => if d.1 = q then d.2 else 0).sum

/-- All packets of a list of deliveries. -/
def total (ds : List (V × ℕ)) : ℕ := (ds.map Prod.snd).sum

/-- A buffer that is not overloaded is not above its high mark. -/
def Under (M : Marks V) (s : Load V) : Prop := ∀ q, s.loaded q = false → s.count q ≤ M.high q

/-- One that is overloaded is moreover not below its low mark. -/
structure Steady (M : Marks V) (s : Load V) : Prop where
  under : Under M s
  full : ∀ q, s.loaded q = true → M.low q ≤ s.count q

/-- The deliveries fit into the headroom above the high marks. -/
def Room (M : Marks V) (s : Load V) (ds : List (V × ℕ)) : Prop :=
  ∀ q, s.count q + pending ds q ≤ M.high q + M.burst

variable {M : Marks V} {s : Load V}

@[simp] theorem pending_nil (q : V) : pending [] q = 0 := rfl

theorem pending_cons (d : V × ℕ) (ds : List (V × ℕ)) (q : V) :
    pending (d :: ds) q = (if d.1 = q then d.2 else 0) + pending ds q := by
  simp [pending]

theorem pending_le_total (ds : List (V × ℕ)) (q : V) : pending ds q ≤ total ds := by
  refine List.sum_le_sum fun d _ => ?_
  split
  · exact le_rfl
  · exact Nat.zero_le _

theorem pending_eq_zero {ds : List (V × ℕ)} {q : V} (h : ∀ d ∈ ds, d.1 ≠ q) :
    pending ds q = 0 := by
  refine List.sum_eq_zero fun n hn => ?_
  obtain ⟨d, hd, rfl⟩ := List.mem_map.mp hn
  exact if_neg (h d hd)

/-! ### One run -/

theorem Under.put (h : Under M s) (d : V × ℕ) : Under M (put M s d) := by
  intro q
  have := h q
  simp only [Headroom.put, Function.update_apply]
  split
  · grind
  · exact this

theorem Steady.put (h : Steady M s) (d : V × ℕ) :
    Steady M (put M s d) where
  under := h.under.put d
  full q := by
    have := h.full q
    have := M.low_le q
    simp only [Headroom.put, Function.update_apply]
    split
    · grind
    · assumption

theorem Steady.take (h : Steady M s) (t : V) (k : ℕ) :
    Steady M (take M s t k) where
  under q := by
    have := h.under q
    have := M.low_le q
    simp only [Headroom.take, Function.update_apply]
    split
    · grind
    · assumption
  full q := by
    have := h.full q
    simp only [Headroom.take, Function.update_apply]
    split
    · grind
    · exact this

theorem Room.put {d : V × ℕ} {ds : List (V × ℕ)} (h : Room M s (d :: ds)) :
    Room M (put M s d) ds := by
  intro q
  have := h q
  rw [pending_cons] at this
  simp only [Headroom.put, Function.update_apply]
  grind

omit [DecidableEq V] in
/-- A node may run when no node that it feeds is overloaded. -/
def Free (feeds : V → V → Prop) (s : Load V) (t : V) : Prop := ∀ q, feeds t q → s.loaded q = false

/-- A node that has taken packets out of its buffer has room for all of them. -/
theorem Steady.room_take (h : Steady M s) (hroom : Room M s []) {feeds : V → V → Prop} {t : V}
    (hfree : Free feeds s t) {k : ℕ} (hk : k ≤ s.count t) (hburst : k ≤ M.burst)
    {ds : List (V × ℕ)} (hds : ∀ d ∈ ds, d.1 = t ∨ feeds t d.1) (htotal : total ds ≤ k) :
    Room M (Headroom.take M s t k) ds := by
  intro q
  have hle := pending_le_total ds q
  have hq := hroom q
  rw [pending_nil] at hq
  simp only [Headroom.take, Function.update_apply]
  split_ifs with htq
  · subst htq
    omega
  · by_cases hfeeds : feeds t q
    · have := h.under q (hfree q hfeeds)
      omega
    · have hnone : pending ds q = 0 := pending_eq_zero fun d hd heq => by
        rcases hds d hd with ht | hf
        · exact htq (heq ▸ ht)
        · exact hfeeds (heq ▸ hf)
      omega

/-- The same for a node without a buffer. -/
theorem Under.room_source (h : Under M s) (hroom : Room M s []) {feeds : V → V → Prop} {t : V}
    (hfree : Free feeds s t) {ds : List (V × ℕ)} (hds : ∀ d ∈ ds, feeds t d.1)
    (htotal : total ds ≤ M.burst) : Room M s ds := by
  intro q
  have hle := pending_le_total ds q
  have hq := hroom q
  rw [pending_nil] at hq
  by_cases hfeeds : feeds t q
  · have := h q (hfree q hfeeds)
    omega
  · have hnone : pending ds q = 0 := pending_eq_zero fun d hd heq => hfeeds (heq ▸ hds d hd)
    omega

/-! ### Progress -/

section Progress

variable {feeds : V → V → Prop} {rank : V → ℕ}

omit [DecidableEq V] in
/-- Behind an overloaded node there is an overloaded one that may run. -/
theorem exists_free_of_loaded (hrank : ∀ t q, feeds t q → rank q < rank t) :
    ∀ (n : ℕ) (q : V), rank q ≤ n → s.loaded q = true →
      ∃ r, s.loaded r = true ∧ Free feeds s r
  | n, q, hn, hq => by
    by_cases hfree : Free feeds s q
    · exact ⟨q, hq, hfree⟩
    · simp only [Free, not_forall, Bool.not_eq_false] at hfree
      obtain ⟨r, hr, hloaded⟩ := hfree
      have hlt := hrank q r hr
      match n with
      | 0 => omega
      | n + 1 => exact exists_free_of_loaded hrank n r (by omega) hloaded

omit [DecidableEq V] in
/-- **No deadlock.**  In a network without a cycle some node with packets may run, if any node has
packets. -/
theorem Steady.exists_free (h : Steady M s) (hrank : ∀ t q, feeds t q → rank q < rank t) {q : V}
    (hq : 0 < s.count q) :
    ∃ r, 0 < s.count r ∧ Free feeds s r := by
  by_cases hfree : Free feeds s q
  · exact ⟨q, hq, hfree⟩
  · simp only [Free, not_forall, Bool.not_eq_false] at hfree
    obtain ⟨r, -, hloaded⟩ := hfree
    obtain ⟨r', hloaded', hfree'⟩ := exists_free_of_loaded hrank _ r le_rfl hloaded
    exact ⟨r', (M.low_pos r').trans_le (h.full r' hloaded'), hfree'⟩

/-- The moves that the packets in the buffers have before them, at most. -/
def weight [Fintype V] (rank : V → ℕ) (count : V → ℕ) : ℕ := ∑ q, count q * (rank q + 1)

theorem weight_update [Fintype V] (rank count : V → ℕ) (t : V) (n : ℕ) :
    weight rank (Function.update count t n) + count t * (rank t + 1) =
      weight rank count + n * (rank t + 1) := by
  unfold weight
  rw [← Finset.add_sum_erase _ _ (Finset.mem_univ t),
    ← Finset.add_sum_erase _ _ (Finset.mem_univ t), Function.update_self]
  have hrest : ∑ q ∈ Finset.univ.erase t, Function.update count t n q * (rank q + 1) =
      ∑ q ∈ Finset.univ.erase t, count q * (rank q + 1) :=
    Finset.sum_congr rfl fun q hq => by rw [Function.update_of_ne (Finset.ne_of_mem_erase hq)]
  rw [hrest]
  omega

theorem weight_take [Fintype V] (M : Marks V) (rank : V → ℕ) {t : V} {k : ℕ}
    (hk : k ≤ s.count t) :
    weight rank (Headroom.take M s t k).count + k * (rank t + 1) = weight rank s.count := by
  have hupdate := weight_update rank s.count t (s.count t - k)
  have hsplit : s.count t * (rank t + 1) = (s.count t - k) * (rank t + 1) + k * (rank t + 1) := by
    rw [← Nat.add_mul, Nat.sub_add_cancel hk]
  simp only [Headroom.take]
  omega

/-- What goes to nodes of lower rank has fewer moves before it. -/
theorem weight_foldl_put [Fintype V] (M : Marks V) (rank : V → ℕ) {n : ℕ} :
    ∀ (ds : List (V × ℕ)) (s : Load V), (∀ d ∈ ds, rank d.1 < n) →
      weight rank (ds.foldl (Headroom.put M) s).count ≤ weight rank s.count + total ds * n
  | [], s, _ => by simp [total]
  | d :: ds, s, hds => by
    have hrest := weight_foldl_put M rank ds (Headroom.put M s d) fun e he =>
      hds e (List.mem_cons_of_mem _ he)
    have hd := hds d List.mem_cons_self
    have hupdate := weight_update rank s.count d.1 (s.count d.1 + d.2)
    have hmul : d.2 * (rank d.1 + 1) ≤ d.2 * n := Nat.mul_le_mul_left _ hd
    have htotal : total (d :: ds) * n = d.2 * n + total ds * n := by
      simp [total, Nat.add_mul]
    simp only [List.foldl_cons, Headroom.put] at hrest ⊢
    rw [Nat.add_mul] at hupdate
    omega

end Progress

end Backdraft.Headroom

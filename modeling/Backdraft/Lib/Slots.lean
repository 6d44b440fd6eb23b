import Mathlib.Tactic
import Mathlib.Data.List.GetD

/-!
# Arrays written in place, and numbered bins

* `copyDown b k n`: the loop `for (i = 0; i < n; i++) b[i] = b[i + k]`;
* `overwrite b i l`: the elements of `l` written from index `i` on;
* `not_sublist_swap`: two different elements come in one order only;
* `pooled m f`: the items of the bins `f 0`, …, `f (m - 1)`.

The first two are given in closed form by `take` and `drop`, and together they are the step of a
buffer that drops its first elements and is filled up again at its end (`overwrite_copyDown`).
Replacing a bin replaces its items in the pool and leaves the others (`perm_pooled_update`): items
are appended to a bin (`perm_pooled_append`) and leave it at its front (`perm_pooled_cut`).
-/

namespace Slots

variable {α : Type*}

/-- `for (i = 0; i < n; i++) b[i] = b[i + k]`. -/
def copyDown [Inhabited α] (b : List α) (k : ℕ) : ℕ → List α
  | 0 => b
  | n + 1 => (copyDown b k n).set n ((copyDown b k n).getD (n + k) default)

/-- Write `l` to `b` from index `i` on. -/
def overwrite (b : List α) (i : ℕ) (l : List α) : List α :=
  b.take i ++ l ++ b.drop (i + l.length)

/-- The loop moves the elements down and leaves the rest as it was. -/
theorem copyDown_eq [Inhabited α] (b : List α) {k n : ℕ} (h : n + k ≤ b.length) :
    copyDown b k n = (b.drop k).take n ++ b.drop n := by
  induction n with
  | zero => simp [copyDown]
  | succ n ih =>
    have hlen : ((b.drop k).take n).length = n := by simp; omega
    have hn : n < b.length := by omega
    have hnk : n + k < b.length := by omega
    -- the element read is still the original one, since only smaller indices were written
    have hread : (copyDown b k n).getD (n + k) default = b[n + k] := by
      rw [ih (by omega), List.getD_append_right _ _ _ _ (by omega), hlen,
        Nat.add_sub_cancel_left, List.getD_eq_getElem _ _ (by simp; omega), List.getElem_drop]
    rw [copyDown, hread, ih (by omega), List.set_append_right _ _ (by omega), hlen, Nat.sub_self,
      List.drop_eq_getElem_cons hn, List.set_cons_zero, List.take_add_one]
    have hget : (b.drop k)[n]? = some b[n + k] := by
      rw [List.getElem?_drop, Nat.add_comm, List.getElem?_eq_getElem hnk]
    rw [hget, Option.toList_some, List.append_assoc, List.singleton_append]

theorem length_overwrite {b l : List α} {i : ℕ} (h : i + l.length ≤ b.length) :
    (overwrite b i l).length = b.length := by
  simp [overwrite]
  omega

/-- Dropping the first `l.length` elements and filling up with `l`. -/
theorem overwrite_copyDown [Inhabited α] {b l : List α} {n : ℕ} (h : n + l.length = b.length) :
    overwrite (copyDown b l.length n) n l = b.drop l.length ++ l := by
  have hlen : ((b.drop l.length).take n).length = n := by simp; omega
  have hall : (b.drop l.length).take n = b.drop l.length :=
    List.take_of_length_le (by simp; omega)
  have hrest : ((b.drop l.length).take n ++ b.drop n).drop (n + l.length) = [] :=
    List.drop_eq_nil_of_le (by simp; omega)
  rw [overwrite, copyDown_eq b h.le, List.take_left' hlen, hrest, List.append_nil, hall]

/-! ### Order -/

/-- Two elements of a list without repetitions occur in one order only. -/
theorem not_sublist_swap {l : List α} {a b : α} (hnd : l.Nodup)
    (hab : [a, b].Sublist l) : ¬ [b, a].Sublist l := by
  induction l with
  | nil => simp at hab
  | cons c l ih =>
    obtain ⟨hc, hl⟩ := List.nodup_cons.1 hnd
    intro hba
    rcases List.sublist_cons_iff.1 hab with hab' | ⟨_, he, hb⟩
    · rcases List.sublist_cons_iff.1 hba with hba' | ⟨_, he', -⟩
      · exact ih hl hab' hba'
      · obtain ⟨rfl, -⟩ := List.cons.inj he'
        exact hc (hab'.subset (a := b) (by simp))
    · obtain ⟨rfl, rfl⟩ := List.cons.inj he
      rcases List.sublist_cons_iff.1 hba with hba' | ⟨_, he', -⟩
      · exact hc (hba'.subset (a := a) (by simp))
      · obtain ⟨rfl, -⟩ := List.cons.inj he'
        exact hc (hb.subset (a := b) (by simp))

/-! ### Batches -/

/-- A batch arrives; its front goes to one of two places and the rest to the other. -/
theorem perm_append_split {all kept freed : List α} (h : all.Perm (kept ++ freed)) (n : ℕ)
    (batch : List α) :
    (all ++ batch).Perm (kept ++ batch.take n ++ (freed ++ batch.drop n)) := by
  have hcut : (all ++ batch).Perm (kept ++ freed ++ (batch.take n ++ batch.drop n)) := by
    rw [List.take_append_drop]
    exact h.append_right batch
  have hswap : (freed ++ batch.take n).Perm (batch.take n ++ freed) := List.perm_append_comm
  have hmove := (hswap.append_right (batch.drop n)).append_left kept
  simp only [List.append_assoc] at hcut hmove ⊢
  exact hcut.trans hmove

/-! ### Numbered bins -/

/-- The items of the first `m` bins. -/
def pooled (m : ℕ) (f : ℕ → List α) : List α := (List.range m).flatMap f

/-- The items of the first `m` bins without those of bin `i`. -/
def pooledExcept (m i : ℕ) (f : ℕ → List α) : List α := ((List.range m).erase i).flatMap f

variable {m i : ℕ} {f g : ℕ → List α}

theorem pooled_congr (h : ∀ j < m, f j = g j) : pooled m f = pooled m g :=
  List.flatMap_congr fun j hj => h j (List.mem_range.1 hj)

theorem perm_pooled (hi : i < m) (f : ℕ → List α) :
    (pooled m f).Perm (f i ++ pooledExcept m i f) := by
  have hperm := List.perm_cons_erase (List.mem_range.2 hi)
  exact (hperm.flatMap_right f).trans (by rw [List.flatMap_cons, pooledExcept])

/-- What is outside of a bin does not depend on it. -/
theorem perm_pooled_update (hi : i < m) (f : ℕ → List α) (l : List α) :
    (pooled m (Function.update f i l)).Perm (l ++ pooledExcept m i f) := by
  have hrest : pooledExcept m i (Function.update f i l) = pooledExcept m i f :=
    List.flatMap_congr fun j hj =>
      Function.update_of_ne (List.nodup_range.mem_erase_iff.1 hj).1 _ _
  have hperm := perm_pooled hi (Function.update f i l)
  rwa [Function.update_self, hrest] at hperm

/-- Items that are appended to a bin are added to the pool. -/
theorem perm_pooled_append (hi : i < m) (f : ℕ → List α) (l : List α) :
    (pooled m (Function.update f i (f i ++ l))).Perm (pooled m f ++ l) := by
  have hold := (perm_pooled hi f).append_right l
  have hnew := perm_pooled_update hi f (f i ++ l)
  rw [List.append_assoc] at hold hnew
  exact hnew.trans ((List.perm_append_comm.append_left _).trans hold.symm)

/-- The items at the front of a bin leave the pool. -/
theorem perm_pooled_cut (hi : i < m) {l rest : List α} (h : f i = l ++ rest) :
    (pooled m f).Perm (l ++ pooled m (Function.update f i rest)) := by
  have hold := perm_pooled hi f
  rw [h, List.append_assoc] at hold
  exact hold.trans ((perm_pooled_update hi f rest).symm.append_left l)

theorem length_pooled (m : ℕ) (f : ℕ → List α) :
    (pooled m f).length = ((List.range m).map fun j => (f j).length).sum :=
  List.length_flatMap

theorem length_pooled_le {k : ℕ} (h : ∀ j < m, (f j).length ≤ k) : (pooled m f).length ≤ m * k := by
  rw [length_pooled]
  calc ((List.range m).map fun j => (f j).length).sum
      ≤ ((List.range m).map fun j => (f j).length).length • k :=
        List.sum_le_card_nsmul _ _ fun n hn => by
          obtain ⟨j, hj, rfl⟩ := List.mem_map.1 hn
          exact h j (List.mem_range.1 hj)
    _ = m * k := by simp

end Slots

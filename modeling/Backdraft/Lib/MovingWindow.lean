import Mathlib.Tactic
import Mathlib.Data.List.GetD
import Mathlib.Data.List.Rotate

/-!
# The last entries of a sequence in a circular array

An array of `n` cells, all zero at first, is written one cell after the other and starts again at
its beginning when the end is reached.  Read from the cell that is written next, it holds the last
`n` entries of what was written, the oldest first.

* `push`: write a cell and advance the index;
* `Holds buf i hist`: the array `buf`, read from `i`, holds the last entries of `hist`;
* `Holds.push`: it does so after a write;
* `Holds.sum_eq`: the cells add up to the last entries.
-/

namespace MovingWindow

variable {α : Type*}

/-- Write `x` to the cell `i` and advance `i` around the array. -/
def push (buf : List α) (i : ℕ) (x : α) : List α × ℕ := (buf.set i x, (i + 1) % buf.length)

/-- The cell that is written leaves the front and comes back at the end. -/
theorem rotate_push {buf : List α} {i : ℕ} (hi : i < buf.length) (x : α) :
    (push buf i x).1.rotate (push buf i x).2 = (buf.rotate i).tail ++ [x] := by
  have hset : (buf.set i x).rotate ((i + 1) % buf.length) = (buf.set i x).rotate (i + 1) := by
    have hlength : buf.length = (buf.set i x).length := List.length_set.symm
    rw [hlength, List.rotate_mod]
  have hold : buf.rotate i = buf[i] :: (buf.drop (i + 1) ++ buf.take i) := by
    rw [List.rotate_eq_drop_append_take hi.le, List.drop_eq_getElem_cons hi, List.cons_append]
  have htake : (buf.set i x).take (i + 1) = buf.take i ++ [x] := by
    rw [List.take_add_one, List.take_set_of_le le_rfl, List.getElem?_set_self hi]
    rfl
  rw [push, hset, hold, List.tail_cons,
    List.rotate_eq_drop_append_take (by rw [List.length_set]; exact hi),
    List.drop_set_of_lt (Nat.lt_succ_self i), htake, List.append_assoc]

section Holds

variable [AddCommMonoid α]

/-- Read from `i`, the array holds the last entries of `hist`, behind the zeros of the beginning. -/
structure Holds (buf : List α) (i : ℕ) (hist : List α) : Prop where
  lt : i < buf.length
  rotate_eq : buf.rotate i = (List.replicate buf.length 0 ++ hist).drop hist.length

variable {buf hist : List α} {i : ℕ}

theorem holds_replicate {n : ℕ} (hn : 0 < n) : Holds (List.replicate n (0 : α)) 0 [] :=
  ⟨by simpa using hn, by simp⟩

theorem Holds.push (h : Holds buf i hist) (x : α) :
    Holds (push buf i x).1 (push buf i x).2 (hist ++ [x]) := by
  have hlen : (MovingWindow.push buf i x).1.length = buf.length := List.length_set
  have hpos : 0 < buf.length := Nat.zero_lt_of_lt h.lt
  refine ⟨?_, ?_⟩
  · rw [hlen]
    exact Nat.mod_lt _ hpos
  · have hle : hist.length + 1 ≤ (List.replicate buf.length (0 : α) ++ hist).length := by
      rw [List.length_append, List.length_replicate]
      omega
    rw [rotate_push h.lt, h.rotate_eq, hlen, List.tail_drop, ← List.append_assoc,
      List.length_append, List.length_singleton, List.drop_append_of_le_length hle]

/-- The cells add up to the last entries. -/
theorem Holds.sum_eq (h : Holds buf i hist) :
    buf.sum = (hist.drop (hist.length - buf.length)).sum := by
  rw [← (List.rotate_perm buf i).sum_eq, h.rotate_eq, List.drop_append, List.drop_replicate,
    List.sum_append, List.sum_replicate, smul_zero, zero_add, List.length_replicate]

end Holds

/-- A cell is at most the sum of the cells. -/
theorem getD_le_sum (buf : List ℕ) (i : ℕ) : buf.getD i 0 ≤ buf.sum := by
  rcases Nat.lt_or_ge i buf.length with hi | hi
  · rw [List.getD_eq_getElem _ _ hi]
    exact List.single_le_sum (fun _ _ => Nat.zero_le _) _ (List.getElem_mem hi)
  · rw [List.getD_eq_default _ _ hi]
    exact Nat.zero_le _

/-- Writing a cell replaces its value in the sum. -/
theorem sum_set_add {buf : List ℕ} {i : ℕ} (hi : i < buf.length) (x : ℕ) :
    (buf.set i x).sum + buf.getD i 0 = buf.sum + x := by
  have hsplit := List.sum_take_add_sum_drop buf i
  rw [List.drop_eq_getElem_cons hi, List.sum_cons] at hsplit
  rw [List.set_eq_take_append_cons_drop, if_pos hi, List.sum_append, List.sum_cons,
    List.getD_eq_getElem _ _ hi]
  omega

end MovingWindow

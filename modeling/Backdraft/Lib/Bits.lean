import Mathlib.Tactic
import Mathlib.Data.List.Basic

/-!
# Words as sets of positions

A word of `w` bits is read as the set of the positions whose bit is set.

* `getLsbD_turnOn`, `getLsbD_turnOff`: setting and clearing one bit;
* `ffs`: one plus the lowest position, as the builtin of that name;
* `firstOutside`: the loop that takes the lowest position again and again, clears it when it is
  to be skipped, and stops at the first one that is not; `firstOutside_eq` says that with more
  rounds than there are bits it finds the lowest position that is not skipped;
* `bitAt`: a bit of a row of words (`bitAt_turnOn`, `bitAt_turnOff`).
-/

namespace Bits

variable {w : ℕ} {m : BitVec w} {b : ℕ}

theorem getLsbD_turnOn (hb : b < w) (i : ℕ) :
    (m ||| (1#w <<< b)).getLsbD i = (m.getLsbD i || decide (i = b)) := by
  rw [← BitVec.twoPow_eq, BitVec.getLsbD_or, BitVec.getLsbD_twoPow]
  simp [hb, eq_comm]

theorem getLsbD_turnOff (hb : b < w) (i : ℕ) :
    (m &&& ~~~(1#w <<< b)).getLsbD i = (m.getLsbD i && decide (i ≠ b)) := by
  rw [← BitVec.twoPow_eq, BitVec.getLsbD_and, BitVec.getLsbD_not, BitVec.getLsbD_twoPow]
  by_cases hi : i < w
  · simp [hb, hi, eq_comm]
  · simp [BitVec.getLsbD_of_ge m i (by omega)]

theorem getLsbD_flip (hb : m.getLsbD b = true) (i : ℕ) :
    (m ^^^ (1#w <<< b)).getLsbD i = (m.getLsbD i && decide (i ≠ b)) := by
  have hlt : b < w := BitVec.lt_of_getLsbD hb
  rw [← BitVec.twoPow_eq, BitVec.getLsbD_xor, BitVec.getLsbD_twoPow]
  by_cases hi : i = b
  · subst hi; simp [hlt, hb]
  · simp [hi, Ne.symm hi]

/-- The positions of the bits that are set, the lowest first. -/
def ones (m : BitVec w) : List ℕ := (List.range w).filter fun i => m.getLsbD i

theorem mem_ones : b ∈ ones m ↔ m.getLsbD b = true := by
  constructor
  · intro h
    exact (List.mem_filter.1 h).2
  · intro h
    exact List.mem_filter.2 ⟨List.mem_range.2 (BitVec.lt_of_getLsbD h), h⟩

theorem nodup_ones (m : BitVec w) : (ones m).Nodup := List.nodup_range.filter _

theorem length_ones_le (m : BitVec w) : (ones m).length ≤ w :=
  (List.length_filter_le _ _).trans_eq List.length_range

/-- One plus the position of the lowest bit that is set, and 0 when there is none. -/
def ffs (m : BitVec w) : ℕ :=
  match (List.range w).find? fun i => m.getLsbD i with
  | some b => b + 1
  | none => 0

theorem ffs_of_ones_nil (h : ones m = []) : ffs m = 0 := by
  unfold ffs
  rw [← List.head?_filter, show (List.range w).filter (fun i => m.getLsbD i) = [] from h]
  rfl

theorem ffs_of_ones_cons {l : List ℕ} (h : ones m = b :: l) : ffs m = b + 1 := by
  unfold ffs
  rw [← List.head?_filter, show (List.range w).filter (fun i => m.getLsbD i) = b :: l from h]
  rfl

/-- Clearing the lowest position leaves the others. -/
theorem ones_flip {l : List ℕ} (h : ones m = b :: l) : ones (m ^^^ (1#w <<< b)) = l := by
  have hb : m.getLsbD b = true := mem_ones.1 (by rw [h]; exact List.mem_cons_self)
  have hnd : (b :: l).Nodup := h ▸ nodup_ones m
  have hfilter : ones (m ^^^ (1#w <<< b)) = (ones m).filter fun i => decide (i ≠ b) := by
    unfold ones
    rw [List.filter_filter]
    apply List.filter_congr
    intro i _
    rw [getLsbD_flip hb, Bool.and_comm]
  rw [hfilter, h, List.filter_cons_of_neg (by simp)]
  apply List.filter_eq_self.2
  intro i hi
  simpa using fun hib : i = b => (List.nodup_cons.1 hnd).1 (hib ▸ hi)

/-- The lowest position that is not skipped, by clearing those that are. -/
def firstOutside (skip : ℕ → Bool) (m : BitVec w) : ℕ → Option ℕ
  | 0 => none
  | rounds + 1 =>
    match ffs m with
    | 0 => none
    | b + 1 => if skip b then firstOutside skip (m ^^^ (1#w <<< b)) rounds else some b

theorem firstOutside_eq_find (skip : ℕ → Bool) (rounds : ℕ) (m : BitVec w)
    (h : (ones m).length < rounds) :
    firstOutside skip m rounds = (ones m).find? fun b => !skip b := by
  induction rounds generalizing m with
  | zero => exact absurd h (Nat.not_lt_zero _)
  | succ rounds ih =>
    cases hones : ones m with
    | nil => simp [firstOutside, ffs_of_ones_nil hones]
    | cons b l =>
      have hrest := ones_flip hones
      rw [hones, List.length_cons] at h
      simp only [firstOutside, ffs_of_ones_cons hones]
      cases hskip : skip b with
      | true => simp [ih _ (by rw [hrest]; omega), hrest, hskip]
      | false => simp [hskip]

/-- With more rounds than bits the loop finds the lowest position that is not skipped. -/
theorem firstOutside_eq (skip : ℕ → Bool) (m : BitVec w) :
    firstOutside skip m (w + 1) = (ones m).find? fun b => !skip b :=
  firstOutside_eq_find skip (w + 1) m (Nat.lt_succ_of_le (length_ones_le m))

theorem firstOutside_eq_find_range (skip : ℕ → Bool) (m : BitVec w) :
    firstOutside skip m (w + 1) = (List.range w).find? fun b => m.getLsbD b && !skip b := by
  rw [firstOutside_eq, ones, List.find?_filter]
  simp only [Bool.decide_and, Bool.decide_eq_true]

/-- The loop finds the lowest position that is not skipped. -/
theorem firstOutside_eq_some_iff {skip : ℕ → Bool} :
    firstOutside skip m (w + 1) = some b ↔
      (m.getLsbD b = true ∧ skip b = false) ∧ ∀ i < b, m.getLsbD i = true → skip i = true := by
  rw [firstOutside_eq_find_range, List.find?_range_eq_some]
  simp only [Bool.and_eq_true, Bool.not_eq_true', List.mem_range, Bool.and_eq_false_imp,
    Bool.not_eq_false']
  constructor
  · rintro ⟨hb, -, hlow⟩
    exact ⟨hb, hlow⟩
  · rintro ⟨hb, hlow⟩
    exact ⟨hb, BitVec.lt_of_getLsbD hb.1, hlow⟩

/-- What the loop finds is a position of the word that is not skipped. -/
theorem of_firstOutside {skip : ℕ → Bool} (h : firstOutside skip m (w + 1) = some b) :
    m.getLsbD b = true ∧ skip b = false := by
  rw [firstOutside_eq] at h
  exact ⟨mem_ones.1 (List.mem_of_find?_eq_some h), by simpa using List.find?_some h⟩

theorem getLsbD_of_ffs (h : ffs m = b + 1) : m.getLsbD b = true := by
  cases hones : ones m with
  | nil => rw [ffs_of_ones_nil hones] at h; omega
  | cons c l =>
    rw [ffs_of_ones_cons hones] at h
    obtain rfl : c = b := by omega
    exact mem_ones.1 (by rw [hones]; exact List.mem_cons_self)

theorem getLsbD_of_ffs_zero (h : ffs m = 0) (i : ℕ) : m.getLsbD i = false := by
  cases hones : ones m with
  | nil =>
    rw [← Bool.not_eq_true, ← mem_ones, hones]
    exact List.not_mem_nil
  | cons c l => rw [ffs_of_ones_cons hones] at h; omega

/-! ### Words in a row -/

section Words

variable {k q x : ℕ} {ws : Vector (BitVec w) k}

/-- Bit `q` of a row of words. -/
def bitAt (ws : Vector (BitVec w) k) (q : ℕ) : Bool := (ws[q / w]?.getD 0#w).getLsbD (q % w)

theorem bitAt_of_word (h : ws[q / w]? = some m) : bitAt ws q = m.getLsbD (q % w) := by
  rw [bitAt, h, Option.getD_some]

@[simp] theorem bitAt_replicate (q : ℕ) : bitAt (Vector.replicate k 0#w) q = false := by
  rw [bitAt, Vector.getElem?_replicate]
  split_ifs <;> simp

theorem bitAt_setIfInBounds {j : ℕ} (hj : j < k) (m : BitVec w) (x : ℕ) :
    bitAt (ws.setIfInBounds j m) x = if x / w = j then m.getLsbD (x % w) else bitAt ws x := by
  unfold bitAt
  rw [Vector.getElem?_setIfInBounds]
  by_cases hx : x / w = j
  · rw [if_pos hx.symm, if_pos hx, if_pos hj, Option.getD_some]
  · rw [if_neg (Ne.symm hx), if_neg hx]

theorem eq_iff_div_mod : x = q ↔ x / w = q / w ∧ x % w = q % w := by
  constructor
  · rintro rfl
    exact ⟨rfl, rfl⟩
  · rintro ⟨hdiv, hmod⟩
    rw [← Nat.div_add_mod x w, hdiv, hmod, Nat.div_add_mod]

/-- Replacing the word of a bit by one with the same other bits. -/
theorem bitAt_setWord {m' : BitVec w} (h : ws[q / w]? = some m)
    (hsame : ∀ i, i ≠ q % w → m'.getLsbD i = m.getLsbD i) (x : ℕ) :
    bitAt (ws.setIfInBounds (q / w) m') x =
      if x = q then m'.getLsbD (q % w) else bitAt ws x := by
  have hj : q / w < k := (Vector.getElem?_eq_some_iff.1 h).1
  rw [bitAt_setIfInBounds hj]
  by_cases hx : x = q
  · rw [hx, if_pos rfl, if_pos rfl]
  rw [if_neg hx]
  split_ifs with hdiv
  · have hmod : x % w ≠ q % w := fun he => hx (eq_iff_div_mod.2 ⟨hdiv, he⟩)
    rw [hsame _ hmod, bitAt_of_word (hdiv ▸ h)]
  · rfl

/-- Setting one bit of the row. -/
theorem bitAt_turnOn (hw : 0 < w) (h : ws[q / w]? = some m) (x : ℕ) :
    bitAt (ws.setIfInBounds (q / w) (m ||| (1#w <<< (q % w)))) x =
      (bitAt ws x || decide (x = q)) := by
  have hbit := fun i => getLsbD_turnOn (m := m) (Nat.mod_lt q hw) i
  rw [bitAt_setWord h fun i hi => by simp [hbit, hi]]
  by_cases hx : x = q
  · simp [hx, hbit]
  · simp [hx]

/-- Clearing one bit of the row. -/
theorem bitAt_turnOff (hw : 0 < w) (h : ws[q / w]? = some m) (x : ℕ) :
    bitAt (ws.setIfInBounds (q / w) (m &&& ~~~(1#w <<< (q % w)))) x =
      (bitAt ws x && decide (x ≠ q)) := by
  have hbit := fun i => getLsbD_turnOff (m := m) (Nat.mod_lt q hw) i
  rw [bitAt_setWord h fun i hi => by simp [hbit, hi]]
  by_cases hx : x = q
  · simp [hx, hbit]
  · simp [hx]

end Words

end Bits

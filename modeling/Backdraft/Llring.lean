import Backdraft.Lib.Word
import Mathlib.Data.List.GetD

/-!
# The `llring` ring buffer

`llring.h` (the copies in `lib/bd_vport/include` and in `core/kmod` have the same code): a ring
of pointers with producer and consumer indices that run over all 32-bit values and are masked
on access.

* `Llring`, `Llring.init`, `setWaterMark`, `count`, `freeCount`;
* `doEnqueue` and `doDequeue` with both behaviours of `enum llring_queue_behavior`, and the
  burst and bulk operations that the callers use;
* `copyIn4` and `copyOut4`, the unrolled form of the copy loops, which copies the same;
* `WF` and the abstraction `contents`: the entries from `cons.head` to `prod.tail` in order;
* every operation is the operation of a bounded first-in-first-out list of capacity `mask`
  (`spEnqueueBurst_spec`, `scDequeueBurst_spec`, `scDequeueBulk_spec`), for every starting index,
  so also across the wrap of the 32-bit indices.

Calls are atomic here, so the compare-and-set loop of the multi-producer version succeeds at
its first try and the version has the effect of the single-producer one.  A C `int` result is
given by its 32-bit pattern.  The flags `sp_enqueue` and `sc_dequeue` are read only by the
dispatching variants, which no modelled function calls, and are left out.
-/

namespace Backdraft

open Word

/-- `enum llring_queue_behavior`. -/
inductive QueueBehavior
  | queueFixed
  | queueVariable
  deriving DecidableEq

/-- `struct llring`; the entries are pointers, `default` is the null pointer. -/
structure Llring (α : Type) where
  slots : ℕ
  mask : ℕ
  watermark : ℕ
  prodHead : ℕ
  prodTail : ℕ
  consHead : ℕ
  consTail : ℕ
  ring : List α
  deriving DecidableEq

namespace Llring

variable {α : Type}

/-- `-LLRING_ERR_NOBUF`. -/
def errNobuf : ℕ := 2 ^ 32 - 1

/-- `-LLRING_ERR_QUOT`. -/
def errQuot : ℕ := 2 ^ 32 - 2

/-- `-LLRING_ERR_NOENT`. -/
def errNoent : ℕ := 2 ^ 32 - 3

/-- `RING_QUOT_EXCEED`. -/
def quotExceed : ℕ := 2 ^ 31

/-- `llring_init`; `none` is the result `-LLRING_ERR_NOPOW2`. -/
def init [Inhabited α] (slots : ℕ) : Option (Llring α) :=
  if slots &&& wsub 32 slots 1 ≠ 0 then none
  else some
    { slots := slots
      mask := wsub 32 slots 1
      watermark := slots
      prodHead := 0
      prodTail := 0
      consHead := 0
      consTail := 0
      ring := List.replicate slots default }

/-- `llring_set_water_mark`; a value of at least `slots` is refused. -/
def setWaterMark (r : Llring α) (count : ℕ) : Llring α :=
  if count ≥ r.slots then r
  else { r with watermark := if count = 0 then r.slots else count }

/-- `llring_count`. -/
def count (r : Llring α) : ℕ := wsub 32 r.prodTail r.consTail &&& r.mask

/-- `llring_free_count`. -/
def freeCount (r : Llring α) : ℕ := wsub 32 (wsub 32 r.consTail r.prodTail) 1 &&& r.mask

/-- The copy loop `ring[idx++] = obj_table[i++]`. -/
def copyIn : List α → ℕ → List α → List α
  | ring, _, [] => ring
  | ring, idx, x :: xs => copyIn (ring.set idx x) (idx + 1) xs

/-- `LLRING_ENQUEUE_PTRS`: one run of copies, or two when the end of the ring is reached. -/
def enqueuePtrs (ring : List α) (slots idx : ℕ) (objs : List α) : List α :=
  if idx + objs.length < slots then copyIn ring idx objs
  else copyIn (copyIn ring idx (objs.take (slots - idx))) 0 (objs.drop (slots - idx))

/-- The copy loop `obj_table[i++] = ring[idx++]`, `n` times. -/
def copyOut [Inhabited α] (ring : List α) (idx n : ℕ) : List α :=
  (List.range n).map fun i => ring.getD (idx + i) default

/-- `LLRING_DEQUEUE_PTRS`. -/
def dequeuePtrs [Inhabited α] (ring : List α) (slots idx n : ℕ) : List α :=
  if idx + n < slots then copyOut ring idx n
  else copyOut ring idx (slots - idx) ++ copyOut ring 0 (n - (slots - idx))

/-- `__llring_sp_do_enqueue` (and `__llring_mp_do_enqueue` run alone). -/
def doEnqueue (r : Llring α) (objs : List α) (behavior : QueueBehavior) : Llring α × ℕ :=
  let freeEntries := wsub 32 (wadd 32 r.mask r.consTail) r.prodHead
  if objs.length > freeEntries ∧ behavior = .queueFixed then (r, errNobuf)
  else if objs.length > freeEntries ∧ freeEntries = 0 then (r, 0)
  else
    let n := if objs.length > freeEntries then freeEntries else objs.length
    let prodNext := wadd 32 r.prodHead n
    let ring := enqueuePtrs r.ring r.slots (r.prodHead &&& r.mask) (objs.take n)
    let ret :=
      if wadd 32 (wsub 32 (wadd 32 r.mask 1) freeEntries) n > r.watermark then
        match behavior with
        | .queueFixed => errQuot
        | .queueVariable => n ||| quotExceed
      else
        match behavior with
        | .queueFixed => 0
        | .queueVariable => n
    ({ r with prodHead := prodNext, prodTail := prodNext, ring := ring }, ret)

/-- `__llring_sc_do_dequeue`: the new ring, the entries copied out and the result. -/
def doDequeue [Inhabited α] (r : Llring α) (n : ℕ) (behavior : QueueBehavior) :
    Llring α × List α × ℕ :=
  let entries := wsub 32 r.prodTail r.consHead
  if n > entries ∧ behavior = .queueFixed then (r, [], errNoent)
  else if n > entries ∧ entries = 0 then (r, [], 0)
  else
    let n := if n > entries then entries else n
    let consNext := wadd 32 r.consHead n
    let objs := dequeuePtrs r.ring r.slots (r.consHead &&& r.mask) n
    let ret :=
      match behavior with
      | .queueFixed => 0
      | .queueVariable => n
    ({ r with consHead := consNext, consTail := consNext }, objs, ret)

/-- `llring_sp_enqueue_burst`. -/
def spEnqueueBurst (r : Llring α) (objs : List α) : Llring α × ℕ :=
  r.doEnqueue objs .queueVariable

/-- `llring_mp_enqueue_burst`. -/
def mpEnqueueBurst (r : Llring α) (objs : List α) : Llring α × ℕ :=
  r.doEnqueue objs .queueVariable

/-- `llring_sc_dequeue_burst`. -/
def scDequeueBurst [Inhabited α] (r : Llring α) (n : ℕ) : Llring α × List α × ℕ :=
  r.doDequeue n .queueVariable

/-- `llring_sc_dequeue_bulk`. -/
def scDequeueBulk [Inhabited α] (r : Llring α) (n : ℕ) : Llring α × List α × ℕ :=
  r.doDequeue n .queueFixed

/-- `llring_sp_enqueue`. -/
def spEnqueue (r : Llring α) (obj : α) : Llring α × ℕ := r.doEnqueue [obj] .queueFixed

/-- `llring_sc_dequeue`. -/
def scDequeue [Inhabited α] (r : Llring α) : Llring α × List α × ℕ := r.scDequeueBulk 1

/-! ### The copy loops -/

@[simp] theorem length_copyIn (ring : List α) (idx : ℕ) (objs : List α) :
    (copyIn ring idx objs).length = ring.length := by
  induction objs generalizing ring idx with
  | nil => rfl
  | cons x xs ih => simp [copyIn, ih]

/-- A run of copies overwrites exactly the positions it passes. -/
theorem getElem?_copyIn (ring : List α) (idx : ℕ) (objs : List α) (p : ℕ) (hp : p < ring.length) :
    (copyIn ring idx objs)[p]? =
      if idx ≤ p ∧ p < idx + objs.length then objs[p - idx]? else ring[p]? := by
  induction objs generalizing ring idx with
  | nil => simp [copyIn]
  | cons x xs ih =>
    rw [copyIn, ih (ring.set idx x) (idx + 1) (by simpa using hp)]
    rcases Nat.lt_trichotomy p idx with h | rfl | h
    · rw [if_neg (by omega), if_neg (by omega), List.getElem?_set_ne (by omega)]
    · rw [if_neg (by omega), if_pos (by simp), List.getElem?_set_self hp]
      simp
    · rw [List.getElem?_set_ne (by omega)]
      by_cases hlt : p < idx + 1 + xs.length
      · rw [if_pos (by omega), if_pos (by simp; omega), show p - idx = p - (idx + 1) + 1 by omega,
          List.getElem?_cons_succ]
      · rw [if_neg (by omega), if_neg (by simp; omega)]

@[simp] theorem length_enqueuePtrs (ring : List α) (slots idx : ℕ) (objs : List α) :
    (enqueuePtrs ring slots idx objs).length = ring.length := by
  unfold enqueuePtrs; split_ifs <;> simp

/-- The `j`-th object lands `j` places after `idx`, around the end of the ring. -/
theorem getElem?_enqueuePtrs {ring objs : List α} {slots idx j : ℕ} (hlen : ring.length = slots)
    (hidx : idx < slots) (hobjs : objs.length ≤ slots) (hj : j < objs.length) :
    (enqueuePtrs ring slots idx objs)[(idx + j) % slots]? = objs[j]? := by
  have hmod : (idx + j) % slots < ring.length := hlen ▸ Nat.mod_lt _ (by omega)
  unfold enqueuePtrs
  split_ifs with h
  · rw [getElem?_copyIn _ _ _ _ hmod, Nat.mod_eq_of_lt (by omega), if_pos (by omega),
      Nat.add_sub_cancel_left]
  · rw [getElem?_copyIn _ _ _ _ (by simpa using hmod), getElem?_copyIn _ _ _ _ hmod]
    rcases Nat.lt_or_ge (idx + j) slots with hlt | hge
    · rw [Nat.mod_eq_of_lt hlt, if_neg (by simp; omega), if_pos (by simp; omega),
        Nat.add_sub_cancel_left, List.getElem?_take_of_lt (by omega)]
    · rw [show (idx + j) % slots = idx + j - slots by
          rw [Nat.mod_eq_sub_mod hge, Nat.mod_eq_of_lt (by omega)],
        if_pos (by simp; omega), List.getElem?_drop]
      congr 1; omega

/-- The other positions keep their entry. -/
theorem getElem?_enqueuePtrs_of_ne {ring objs : List α} {slots idx p : ℕ}
    (hlen : ring.length = slots) (hidx : idx < slots) (hp : p < slots)
    (hne : ∀ j < objs.length, p ≠ (idx + j) % slots) :
    (enqueuePtrs ring slots idx objs)[p]? = ring[p]? := by
  have hp' : p < ring.length := hlen ▸ hp
  have hfar : ¬ (idx ≤ p ∧ p < idx + objs.length) := by
    rintro ⟨h1, h2⟩
    exact hne (p - idx) (by omega) (by rw [Nat.add_sub_cancel' h1, Nat.mod_eq_of_lt hp])
  unfold enqueuePtrs
  split_ifs with h
  · rw [getElem?_copyIn _ _ _ _ hp', if_neg hfar]
  · have hnear : ¬ (0 ≤ p ∧ p < 0 + (objs.drop (slots - idx)).length) := by
      simp only [List.length_drop]
      rintro ⟨-, h2⟩
      refine hne (p + slots - idx) (by omega) ?_
      rw [show idx + (p + slots - idx) = p + slots by omega, Nat.add_mod_right,
        Nat.mod_eq_of_lt hp]
    rw [getElem?_copyIn _ _ _ _ (by simpa using hp'), if_neg hnear,
      getElem?_copyIn _ _ _ _ hp', if_neg (by simp only [List.length_take]; omega)]

/-- The entries copied out are those found `0, …, n - 1` places after `idx`. -/
theorem dequeuePtrs_eq [Inhabited α] (ring : List α) {slots idx n : ℕ} (hidx : idx < slots)
    (hn : n ≤ slots) :
    dequeuePtrs ring slots idx n =
      (List.range n).map fun i => ring.getD ((idx + i) % slots) default := by
  unfold dequeuePtrs copyOut
  split_ifs with h
  · refine List.map_congr_left fun i hi => ?_
    rw [Nat.mod_eq_of_lt (by have := List.mem_range.1 hi; omega)]
  · obtain ⟨m, rfl⟩ := Nat.exists_eq_add_of_le (show slots - idx ≤ n by omega)
    rw [List.range_add, List.map_append, List.map_map, Nat.add_sub_cancel_left]
    congr 1
    · refine List.map_congr_left fun i hi => ?_
      rw [Nat.mod_eq_of_lt (by have := List.mem_range.1 hi; omega)]
    · refine List.map_congr_left fun i hi => ?_
      have hi' := List.mem_range.1 hi
      rw [Function.comp_apply, show idx + (slots - idx + i) = 0 + i + slots by omega,
        Nat.add_mod_right, Nat.mod_eq_of_lt (by omega)]

/-! ### The unrolled loops

The branch of the two macros in which the end of the ring is not reached copies four entries in a
round and the rest by a `switch`.
-/

/-- The first loop of `LLRING_ENQUEUE_PTRS`: four copies in a round, then the `switch` for the
rest. -/
def copyIn4 : List α → ℕ → List α → List α
  | ring, idx, a :: b :: c :: d :: objs =>
    copyIn4 ((((ring.set idx a).set (idx + 1) b).set (idx + 2) c).set (idx + 3) d) (idx + 4) objs
  | ring, idx, [a, b, c] => ((ring.set idx a).set (idx + 1) b).set (idx + 2) c
  | ring, idx, [a, b] => (ring.set idx a).set (idx + 1) b
  | ring, idx, [a] => ring.set idx a
  | ring, _, [] => ring

/-- The first loop of `LLRING_DEQUEUE_PTRS`. -/
def copyOut4 [Inhabited α] (ring : List α) : ℕ → ℕ → List α
  | idx, n + 4 =>
    ring.getD idx default :: ring.getD (idx + 1) default :: ring.getD (idx + 2) default ::
      ring.getD (idx + 3) default :: copyOut4 ring (idx + 4) n
  | idx, 3 => [ring.getD idx default, ring.getD (idx + 1) default, ring.getD (idx + 2) default]
  | idx, 2 => [ring.getD idx default, ring.getD (idx + 1) default]
  | idx, 1 => [ring.getD idx default]
  | _, 0 => []

theorem copyIn4_eq (ring : List α) (idx : ℕ) (objs : List α) :
    copyIn4 ring idx objs = copyIn ring idx objs := by
  fun_induction copyIn4 ring idx objs with
  | case1 ring idx a b c d objs ih => simp only [copyIn, ih, Nat.add_assoc, Nat.reduceAdd]
  | _ => rfl

theorem copyOut_succ [Inhabited α] (ring : List α) (idx n : ℕ) :
    copyOut ring idx (n + 1) = ring.getD idx default :: copyOut ring (idx + 1) n := by
  rw [copyOut, List.range_succ_eq_map, List.map_cons, List.map_map, Nat.add_zero, copyOut]
  congr 1
  refine List.map_congr_left fun i _ => ?_
  rw [Function.comp_apply, Nat.succ_eq_add_one, Nat.add_right_comm, Nat.add_assoc]

theorem copyOut4_eq [Inhabited α] (ring : List α) (idx n : ℕ) :
    copyOut4 ring idx n = copyOut ring idx n := by
  fun_induction copyOut4 ring idx n with
  | case1 idx n ih => simp only [copyOut_succ, ih, Nat.add_assoc, Nat.reduceAdd]
  | case2 idx => simp only [copyOut_succ, Nat.add_assoc, Nat.reduceAdd]; rfl
  | case3 idx => rfl
  | case4 idx => rfl
  | case5 idx => rfl

/-- `LLRING_ENQUEUE_PTRS` as it is written. -/
theorem enqueuePtrs_unrolled (ring : List α) (slots idx : ℕ) (objs : List α) :
    enqueuePtrs ring slots idx objs =
      if idx + objs.length < slots then copyIn4 ring idx objs
      else copyIn (copyIn ring idx (objs.take (slots - idx))) 0 (objs.drop (slots - idx)) := by
  rw [copyIn4_eq, enqueuePtrs]

/-- `LLRING_DEQUEUE_PTRS` as it is written. -/
theorem dequeuePtrs_unrolled [Inhabited α] (ring : List α) (slots idx n : ℕ) :
    dequeuePtrs ring slots idx n =
      if idx + n < slots then copyOut4 ring idx n
      else copyOut ring idx (slots - idx) ++ copyOut ring 0 (n - (slots - idx)) := by
  rw [copyOut4_eq, dequeuePtrs]

/-! ### Well-formed rings and their contents -/

/-- The ring sizes `llring_init` is meant for: powers of two that fit in 32 bits. -/
def PowTwo (slots : ℕ) : Prop := ∃ k, k < 32 ∧ slots = 2 ^ k

/-- A ring between two operations. -/
structure WF (r : Llring α) : Prop where
  pow : PowTwo r.slots
  mask_eq : r.mask = r.slots - 1
  length_ring : r.ring.length = r.slots
  prod_eq : r.prodHead = r.prodTail
  cons_eq : r.consHead = r.consTail
  prod_lt : r.prodTail < 2 ^ 32
  entries_lt : wsub 32 r.prodTail r.consHead < r.slots

/-- The entries of the ring, oldest first. -/
def contents [Inhabited α] (r : Llring α) : List α :=
  (List.range (wsub 32 r.prodTail r.consHead)).map fun i =>
    r.ring.getD (wadd 32 r.consHead i &&& r.mask) default

theorem PowTwo.pos {slots : ℕ} (h : PowTwo slots) : 0 < slots := by
  obtain ⟨k, -, rfl⟩ := h
  positivity

theorem PowTwo.lt {slots : ℕ} (h : PowTwo slots) : slots < 2 ^ 32 := by
  obtain ⟨k, hk, rfl⟩ := h
  exact Nat.pow_lt_pow_right (by omega) hk

/-- An index is masked to its residue modulo the number of slots. -/
theorem wadd_and_pred {slots : ℕ} (h : PowTwo slots) (a b : ℕ) :
    wadd 32 a b &&& (slots - 1) = (a + b) % slots := by
  obtain ⟨k, hk, rfl⟩ := h
  exact wadd_and_mask hk.le

theorem and_pred {slots : ℕ} (h : PowTwo slots) {a : ℕ} (ha : a < 2 ^ 32) :
    a &&& (slots - 1) = a % slots := by
  simpa [wadd_zero ha] using wadd_and_pred h a 0

@[simp] theorem slots_setWaterMark (r : Llring α) (n : ℕ) :
    (r.setWaterMark n).slots = r.slots := by
  unfold setWaterMark; split_ifs <;> rfl

theorem WF.setWaterMark {r : Llring α} (h : r.WF) (n : ℕ) : (r.setWaterMark n).WF := by
  rw [Llring.setWaterMark]
  by_cases hn : n ≥ r.slots
  · rwa [if_pos hn]
  · rw [if_neg hn]
    exact ⟨h.pow, h.mask_eq, h.length_ring, h.prod_eq, h.cons_eq, h.prod_lt, h.entries_lt⟩

section Spec

variable [Inhabited α] {r : Llring α}

@[simp] theorem length_contents (r : Llring α) :
    r.contents.length = wsub 32 r.prodTail r.consHead := by
  simp [contents]

theorem WF.length_le_mask (h : r.WF) : r.contents.length ≤ r.mask := by
  have h1 := h.entries_lt
  have h2 := h.pow.pos
  rw [length_contents, h.mask_eq]
  omega

theorem WF.contents_eq (h : r.WF) :
    r.contents = (List.range (wsub 32 r.prodTail r.consHead)).map fun i =>
      r.ring.getD ((r.consHead + i) % r.slots) default := by
  refine List.map_congr_left fun i _ => ?_
  rw [h.mask_eq, wadd_and_pred h.pow]

/-- `llring_count` counts the entries. -/
theorem WF.count_eq (h : r.WF) : r.count = r.contents.length := by
  rw [count, ← h.cons_eq, h.mask_eq, and_pred h.pow (wsub_lt _ _), length_contents,
    Nat.mod_eq_of_lt h.entries_lt]

theorem WF.free_eq (h : r.WF) :
    wsub 32 (wadd 32 r.mask r.consTail) r.prodHead = r.mask - r.contents.length := by
  have hle := h.length_le_mask
  have hlt := h.pow.lt
  have hm := h.mask_eq
  refine (wsub_eq_iff (by omega)).2 ?_
  rw [h.prod_eq, ← h.cons_eq]
  have h1 : r.consHead + r.contents.length ≡ r.prodTail [MOD 2 ^ 32] := by
    rw [length_contents]; exact add_wsub_modEq _ _
  refine (wadd_modEq _ _).trans ?_
  have h2 := h1.add_right (r.mask - r.contents.length)
  rwa [show r.consHead + r.contents.length + (r.mask - r.contents.length) =
    r.mask + r.consHead by omega] at h2

/-- `llring_free_count` is the room left below the capacity `mask`. -/
theorem WF.freeCount_eq (h : r.WF) : r.freeCount = r.mask - r.contents.length := by
  have hle := h.length_le_mask
  have hpos := h.pow.pos
  have hlt := h.pow.lt
  have hm := h.mask_eq
  set n := r.contents.length with hn
  have h1 : r.consTail + n ≡ r.prodTail [MOD 2 ^ 32] := by
    rw [hn, length_contents, ← h.cons_eq]; exact add_wsub_modEq _ _
  -- the difference of the two tails, less one, before masking
  have h2 : wsub 32 (wsub 32 r.consTail r.prodTail) 1 = 2 ^ 32 - 1 - n := by
    refine (wsub_eq_iff (by omega)).2 (Nat.ModEq.add_left_cancel' r.prodTail ?_)
    refine (add_wsub_modEq _ _).trans ?_
    have h3 := (h1.add_right (1 + (2 ^ 32 - 1 - n))).symm
    rw [show r.consTail + n + (1 + (2 ^ 32 - 1 - n)) = r.consTail + 2 ^ 32 by omega] at h3
    exact (h3.trans (by simp [Nat.ModEq])).symm
  rw [freeCount, hm, and_pred h.pow (wsub_lt _ _), h2]
  obtain ⟨k, hk, hs⟩ := h.pow
  obtain ⟨m, hm'⟩ : r.slots ∣ 2 ^ 32 := hs ▸ Nat.pow_dvd_pow 2 hk.le
  obtain ⟨m, rfl⟩ : ∃ m', m = m' + 1 := ⟨m - 1, by
    rcases Nat.eq_zero_or_pos m with rfl | h0 <;> omega⟩
  rw [hm', Nat.mul_add, Nat.mul_one, show r.slots * m + r.slots - 1 - n =
    r.slots - 1 - n + r.slots * m by omega, Nat.add_mul_mod_self_left, Nat.mod_eq_of_lt (by omega)]

theorem PowTwo.and_pred_self {slots : ℕ} (h : PowTwo slots) :
    wsub 32 slots 1 = slots - 1 ∧ slots &&& wsub 32 slots 1 = 0 := by
  have h1 : wsub 32 slots 1 = slots - 1 := wsub_of_le h.pos h.lt
  refine ⟨h1, ?_⟩
  rw [h1, and_pred h h.lt, Nat.mod_self]

/-- A new ring is empty. -/
theorem init_spec {slots : ℕ} (h : PowTwo slots) :
    ∃ r : Llring α, init slots = some r ∧ r.WF ∧ r.slots = slots ∧ r.contents = [] := by
  obtain ⟨h1, h2⟩ := h.and_pred_self
  rw [init, if_neg (not_not.2 h2)]
  refine ⟨_, rfl, ⟨h, h1, by simp, rfl, rfl, ?_, ?_⟩, rfl, ?_⟩
  · exact Nat.two_pow_pos 32
  · simpa [wsub_self] using h.pos
  · simp [contents, wsub_self]

/-- `llring_init` refuses every size that is not a power of two, zero apart. -/
theorem powTwo_of_init {slots : ℕ} {r : Llring α} (h : init slots = some r) (h0 : 0 < slots)
    (hlt : slots < 2 ^ 32) : PowTwo slots := by
  rw [init, wsub_of_le h0 hlt] at h
  split_ifs at h with hand
  obtain ⟨k, rfl⟩ := eq_two_pow_of_and_pred h0.ne' (not_not.1 hand)
  exact ⟨k, (Nat.pow_lt_pow_iff_right (by omega)).1 hlt, rfl⟩

@[simp] theorem contents_setWaterMark (r : Llring α) (n : ℕ) :
    (r.setWaterMark n).contents = r.contents := by
  unfold setWaterMark; split_ifs <;> rfl

/-- The slot that the producer writes next is the one behind the last entry. -/
theorem WF.prodHead_and_mask (h : r.WF) :
    r.prodHead &&& r.mask = (r.consHead + r.contents.length) % r.slots := by
  rw [h.mask_eq, and_pred h.pow (h.prod_eq ▸ h.prod_lt), h.prod_eq, length_contents r]
  obtain ⟨k, hk, hs⟩ := h.pow
  exact ((add_wsub_modEq _ _).of_dvd (hs ▸ Nat.pow_dvd_pow 2 hk.le)).symm

theorem WF.prodHead_and_mask_add (h : r.WF) (j : ℕ) :
    (r.prodHead &&& r.mask) + j ≡ r.consHead + (r.contents.length + j) [MOD r.slots] := by
  rw [h.prodHead_and_mask, ← Nat.add_assoc]
  exact (Nat.mod_modEq _ _).add_right j

/-- The slots of the entries are not among those behind them: the two offsets from `cons.head`
differ by less than a turn of the ring. -/
theorem WF.slot_ne (h : r.WF) {i j : ℕ} (hi : i < r.contents.length)
    (hj : r.contents.length + j ≤ r.mask) :
    (r.consHead + i) % r.slots ≠ ((r.prodHead &&& r.mask) + j) % r.slots := by
  intro heq
  have hm := h.mask_eq
  have hpos := h.pow.pos
  have hoff : r.consHead + i ≡ r.consHead + (r.contents.length + j) [MOD r.slots] :=
    (show r.consHead + i ≡ _ [MOD r.slots] from heq).trans (h.prodHead_and_mask_add j)
  have := Nat.ModEq.eq_of_lt_of_lt (Nat.ModEq.add_left_cancel' _ hoff) (by omega) (by omega)
  omega

/-- Writing `objs` behind the last entry and advancing the producer appends `objs`. -/
theorem WF.append (h : r.WF) {objs : List α} (hroom : r.contents.length + objs.length ≤ r.mask) :
    let r' : Llring α :=
      { r with
        prodHead := wadd 32 r.prodHead objs.length
        prodTail := wadd 32 r.prodHead objs.length
        ring := enqueuePtrs r.ring r.slots (r.prodHead &&& r.mask) objs }
    r'.WF ∧ r'.contents = r.contents ++ objs := by
  intro r'
  have hpos := h.pow.pos
  have hm := h.mask_eq
  have hlt := h.pow.lt
  have hlen := length_contents r
  have hentries : wsub 32 r'.prodTail r'.consHead = r.contents.length + objs.length := by
    show wsub 32 (wadd 32 r.prodHead objs.length) r.consHead = _
    rw [h.prod_eq, wsub_wadd_left (by omega), hlen]
  have hwf : r'.WF :=
    ⟨h.pow, hm, by simpa [r'] using h.length_ring, rfl, h.cons_eq, wadd_lt _ _, by
      rw [hentries]; show _ < r.slots; omega⟩
  refine ⟨hwf, ?_⟩
  have hidx_lt : r.prodHead &&& r.mask < r.slots := by
    rw [h.prodHead_and_mask]
    exact Nat.mod_lt _ hpos
  rw [hwf.contents_eq, hentries, List.range_add, List.map_append, List.map_map]
  congr 1
  · conv_rhs => rw [h.contents_eq, ← hlen]
    refine List.map_congr_left fun i hi => ?_
    have hi' := List.mem_range.1 hi
    simp only [List.getD_eq_getElem?_getD]
    show (enqueuePtrs _ _ _ _)[(r.consHead + i) % r.slots]?.getD _ = _
    rw [getElem?_enqueuePtrs_of_ne h.length_ring hidx_lt (Nat.mod_lt _ hpos)]
    exact fun j hj => h.slot_ne hi' (by omega)
  · refine List.ext_getElem? fun j => ?_
    rcases Nat.lt_or_ge j objs.length with hj | hj
    · simp only [List.getElem?_map, List.getElem?_range hj, Option.map_some, Function.comp_apply,
        List.getD_eq_getElem?_getD]
      show some ((enqueuePtrs _ _ _ _)[(r.consHead + (_ + j)) % r.slots]?.getD _) = _
      rw [← h.prodHead_and_mask_add j, getElem?_enqueuePtrs h.length_ring hidx_lt (by omega) hj,
        List.getElem?_eq_getElem hj]
      rfl
    · rw [List.getElem?_eq_none (by simpa using hj), List.getElem?_eq_none hj]

/-- Advancing the consumer by `n` entries drops them. -/
theorem WF.drop (h : r.WF) {n : ℕ} (hn : n ≤ r.contents.length) :
    let r' : Llring α :=
      { r with consHead := wadd 32 r.consHead n, consTail := wadd 32 r.consHead n }
    r'.WF ∧ r'.contents = r.contents.drop n := by
  intro r'
  have hlen := length_contents r
  have hentries : wsub 32 r'.prodTail r'.consHead = r.contents.length - n := by
    show wsub 32 r.prodTail (wadd 32 r.consHead n) = _
    rw [wsub_wadd_right (by omega), hlen]
  have hwf : r'.WF :=
    ⟨h.pow, h.mask_eq, h.length_ring, h.prod_eq, rfl, h.prod_lt, by
      have := h.entries_lt
      rw [hentries]; show _ < r.slots; omega⟩
  refine ⟨hwf, ?_⟩
  obtain ⟨k, hk, hs⟩ := h.pow
  have hdvd : r.slots ∣ 2 ^ 32 := hs ▸ Nat.pow_dvd_pow 2 hk.le
  obtain ⟨m, hm⟩ := Nat.exists_eq_add_of_le hn
  rw [hwf.contents_eq, hentries, hm, Nat.add_sub_cancel_left]
  conv_rhs => rw [h.contents_eq, ← hlen, hm, List.range_add, List.map_append,
    List.drop_left' (by simp), List.map_map]
  refine List.map_congr_left fun i _ => ?_
  show r.ring.getD ((wadd 32 r.consHead n + i) % r.slots) default = _
  rw [Function.comp_apply, ← Nat.add_assoc]
  congr 1
  exact ((wadd_modEq _ _).of_dvd hdvd).add_right i

/-- The entries copied out of a ring are its oldest entries. -/
theorem WF.dequeuePtrs_eq (h : r.WF) {n : ℕ} (hn : n ≤ r.contents.length) :
    dequeuePtrs r.ring r.slots (r.consHead &&& r.mask) n = r.contents.take n := by
  have hpos := h.pow.pos
  have hlt := h.entries_lt
  have hlen := length_contents r
  have hcons : r.consHead &&& r.mask ≡ r.consHead [MOD r.slots] := by
    obtain ⟨k, hk, hs⟩ := h.pow
    rw [h.mask_eq, hs, Nat.and_two_pow_sub_one_eq_mod]
    exact Nat.mod_modEq _ _
  have hidx : r.consHead &&& r.mask < r.slots := by
    obtain ⟨k, hk, hs⟩ := h.pow
    rw [h.mask_eq, hs, Nat.and_two_pow_sub_one_eq_mod]
    exact Nat.mod_lt _ (by positivity)
  rw [Llring.dequeuePtrs_eq _ hidx (by omega)]
  conv_rhs => rw [h.contents_eq, ← List.map_take, List.take_range, min_eq_left (by omega)]
  refine List.map_congr_left fun i _ => ?_
  rw [show ((r.consHead &&& r.mask) + i) % r.slots = (r.consHead + i) % r.slots from
    hcons.add_right i]

/-! ### The operations on well-formed rings -/

theorem and_quot {n : ℕ} (hn : n < 2 ^ 31) :
    n &&& 0x7fffffff = n ∧ (n ||| quotExceed) &&& 0x7fffffff = n := by
  have h : (0x7fffffff : ℕ) = 2 ^ 31 - 1 := by norm_num
  rw [h, Nat.and_two_pow_sub_one_eq_mod, Nat.and_two_pow_sub_one_eq_mod, Nat.or_mod_two_pow,
    Nat.mod_eq_of_lt hn]
  exact ⟨rfl, by simp [quotExceed]⟩

/-- A burst enqueue leaves a full ring as it is; otherwise it writes the longest part of the batch
that fits below `mask` entries, and sets the quota bit if it passes the water mark. -/
theorem WF.doEnqueue_variable_cases (h : r.WF) (objs : List α) :
    r.mask - r.contents.length = 0 ∧ r.doEnqueue objs .queueVariable = (r, 0) ∨
    r.doEnqueue objs .queueVariable =
      let n := min objs.length (r.mask - r.contents.length)
      ({ r with
          prodHead := wadd 32 r.prodHead n
          prodTail := wadd 32 r.prodHead n
          ring := enqueuePtrs r.ring r.slots (r.prodHead &&& r.mask) (objs.take n) },
        if r.watermark < wadd 32 (wsub 32 (wadd 32 r.mask 1) (r.mask - r.contents.length)) n then
          n ||| quotExceed
        else n) := by
  simp only [doEnqueue, h.free_eq]
  set room := r.mask - r.contents.length with hroom
  rw [if_neg (by simp)]
  by_cases hfull : objs.length > room ∧ room = 0
  · exact .inl ⟨hfull.2, if_pos hfull⟩
  · have hn : (if objs.length > room then room else objs.length) = min objs.length room := by
      split_ifs <;> omega
    right
    rw [if_neg hfull, hn]

omit [Inhabited α] in
theorem WF.mask_lt (h : r.WF) : r.mask < 2 ^ 31 := by
  obtain ⟨k, hk, hs⟩ := h.pow
  have hpow := Nat.pow_le_pow_right (show 0 < 2 by omega) (show k ≤ 31 by omega)
  have hpos := h.pow.pos
  have hmask := h.mask_eq
  omega

/-- A burst enqueue appends the longest part of the batch that fits below `mask` entries and
returns its length, up to the quota bit. -/
theorem WF.doEnqueue_variable (h : r.WF) (objs : List α) :
    (r.doEnqueue objs .queueVariable).1.WF ∧
      (r.doEnqueue objs .queueVariable).1.contents =
        r.contents ++ objs.take (r.mask - r.contents.length) ∧
      (r.doEnqueue objs .queueVariable).1.slots = r.slots ∧
      (r.doEnqueue objs .queueVariable).2 &&& 0x7fffffff =
        min objs.length (r.mask - r.contents.length) := by
  have hle := h.length_le_mask
  have hmask := h.mask_lt
  obtain ⟨hfull, heq⟩ | heq := h.doEnqueue_variable_cases objs
  · rw [heq, hfull]
    exact ⟨h, by simp, rfl, by simp⟩
  · rw [heq]
    set n := min objs.length (r.mask - r.contents.length) with hn
    have hlen : (objs.take n).length = n := by rw [List.length_take]; omega
    have hfits : r.contents.length + (objs.take n).length ≤ r.mask := by omega
    obtain ⟨hwf, hcont⟩ := h.append hfits
    rw [hlen] at hwf hcont
    refine ⟨hwf, hcont.trans ?_, rfl, ?_⟩
    · rw [hn, min_comm, ← List.take_eq_take_min]
    · dsimp only
      split_ifs
      · exact (and_quot (by omega)).2
      · exact (and_quot (by omega)).1

theorem WF.mpEnqueueBurst_spec (h : r.WF) (objs : List α) :
    (r.mpEnqueueBurst objs).1.WF ∧
      (r.mpEnqueueBurst objs).1.contents =
        r.contents ++ objs.take (r.mask - r.contents.length) ∧
      (r.mpEnqueueBurst objs).1.slots = r.slots ∧
      (r.mpEnqueueBurst objs).2 &&& 0x7fffffff =
        min objs.length (r.mask - r.contents.length) :=
  h.doEnqueue_variable objs

theorem WF.spEnqueueBurst_spec (h : r.WF) (objs : List α) :
    (r.spEnqueueBurst objs).1.WF ∧
      (r.spEnqueueBurst objs).1.contents =
        r.contents ++ objs.take (r.mask - r.contents.length) ∧
      (r.spEnqueueBurst objs).1.slots = r.slots ∧
      (r.spEnqueueBurst objs).2 &&& 0x7fffffff =
        min objs.length (r.mask - r.contents.length) :=
  h.doEnqueue_variable objs

omit [Inhabited α] in
@[simp] theorem watermark_mpEnqueueBurst (r : Llring α) (objs : List α) :
    (r.mpEnqueueBurst objs).1.watermark = r.watermark := by
  simp only [mpEnqueueBurst, doEnqueue]
  split_ifs <;> rfl

@[simp] theorem watermark_scDequeueBurst (r : Llring α) (n : ℕ) :
    (r.scDequeueBurst n).1.watermark = r.watermark := by
  simp only [scDequeueBurst, doDequeue]
  split_ifs <;> rfl

/-- With the water mark that `llring_init` sets the quota bit stays clear. -/
theorem WF.mpEnqueueBurst_result (h : r.WF) (hw : r.watermark = r.slots) (objs : List α) :
    (r.mpEnqueueBurst objs).2 = min objs.length (r.mask - r.contents.length) := by
  have hpos := h.pow.pos
  have hlt := h.pow.lt
  have hm := h.mask_eq
  rw [mpEnqueueBurst]
  obtain ⟨hfull, heq⟩ | heq := h.doEnqueue_variable_cases objs
  · rw [heq, hfull, Nat.min_zero]
  rw [heq]
  set room := r.mask - r.contents.length with hroom
  -- the entries after the call, and the one slot that stays free, are at most `slots`
  have hcount : wadd 32 (wsub 32 (wadd 32 r.mask 1) room) (min objs.length room) ≤ r.watermark := by
    have hslots : wadd 32 r.mask 1 = r.slots := by rw [wadd_of_lt (by omega)]; omega
    have hused : wsub 32 r.slots room = r.slots - room := wsub_of_le (by omega) hlt
    rw [hslots, hused, wadd_of_lt (by omega), hw]
    omega
  exact if_neg (Nat.not_lt.2 hcount)

/-- A burst dequeue takes the oldest entries, as many as asked for and present. -/
theorem WF.scDequeueBurst_spec (h : r.WF) (n : ℕ) :
    (r.scDequeueBurst n).1.WF ∧
      (r.scDequeueBurst n).1.contents = r.contents.drop n ∧
      (r.scDequeueBurst n).1.slots = r.slots ∧
      (r.scDequeueBurst n).2.1 = r.contents.take n ∧
      (r.scDequeueBurst n).2.2 = min n r.contents.length := by
  have hlen := length_contents r
  simp only [scDequeueBurst, doDequeue, ← hlen]
  rw [if_neg (by simp)]
  split_ifs with hempty hgt
  · have hnil : r.contents = [] := List.eq_nil_of_length_eq_zero hempty.2
    exact ⟨h, by simp [hnil], rfl, by simp [hnil], by simp [hnil]⟩
  · obtain ⟨hwf, hcont⟩ := h.drop (n := r.contents.length) le_rfl
    refine ⟨hwf, ?_, rfl, ?_, by rw [min_eq_right hgt.le]⟩
    · rw [hcont, List.drop_length, List.drop_eq_nil_of_le hgt.le]
    · rw [h.dequeuePtrs_eq le_rfl, List.take_length, List.take_of_length_le hgt.le]
  · obtain ⟨hwf, hcont⟩ := h.drop (n := n) (by omega)
    exact ⟨hwf, hcont, rfl, h.dequeuePtrs_eq (by omega), by rw [min_eq_left (by omega)]⟩

/-- The same by the number of objects that were taken. -/
theorem WF.scDequeueBurst_taken (h : r.WF) (n : ℕ) :
    (r.scDequeueBurst n).2.2 ≤ r.contents.length ∧
      (r.scDequeueBurst n).2.1 = r.contents.take (r.scDequeueBurst n).2.2 ∧
      (r.scDequeueBurst n).1.contents = r.contents.drop (r.scDequeueBurst n).2.2 := by
  obtain ⟨-, hcont, -, hobjs, hcnt⟩ := h.scDequeueBurst_spec n
  rw [hcont, hobjs, hcnt]
  refine ⟨min_le_right _ _, List.take_eq_take_min, ?_⟩
  rcases Nat.le_total n r.contents.length with hle | hle
  · rw [min_eq_left hle]
  · rw [min_eq_right hle, List.drop_length, List.drop_eq_nil_of_le hle]

/-- A bulk dequeue of entries that are present succeeds. -/
theorem WF.scDequeueBulk_spec (h : r.WF) {n : ℕ} (hn : n ≤ r.contents.length) :
    (r.scDequeueBulk n).1.WF ∧
      (r.scDequeueBulk n).1.contents = r.contents.drop n ∧
      (r.scDequeueBulk n).1.slots = r.slots ∧
      (r.scDequeueBulk n).2.1 = r.contents.take n ∧
      (r.scDequeueBulk n).2.2 = 0 := by
  have hlen := length_contents r
  simp only [scDequeueBulk, doDequeue, ← hlen]
  rw [if_neg (by omega), if_neg (by omega), if_neg (by omega)]
  obtain ⟨hwf, hcont⟩ := h.drop hn
  exact ⟨hwf, hcont, rfl, h.dequeuePtrs_eq hn, rfl⟩

theorem scDequeue_of_nil (hnil : r.contents = []) : r.scDequeue.2.2 = errNoent := by
  have hlen := length_contents r
  simp only [scDequeue, scDequeueBulk, doDequeue, ← hlen, hnil]
  rfl

/-- Taking one entry from a ring that has some. -/
theorem WF.scDequeue_of_cons (h : r.WF) {x : α} {rest : List α} (hcons : r.contents = x :: rest) :
    r.scDequeue.1.WF ∧ r.scDequeue.1.contents = rest ∧ r.scDequeue.2.1 = [x] ∧
      r.scDequeue.2.2 = 0 := by
  obtain ⟨hwf, hcont, -, hobjs, hret⟩ := h.scDequeueBulk_spec (n := 1) (by simp [hcons])
  rw [hcons] at hcont hobjs
  exact ⟨hwf, hcont, hobjs, hret⟩

/-- An entry is put into a ring that is not full. -/
theorem WF.spEnqueue_of_lt (h : r.WF) (hw : r.watermark = r.slots) (x : α)
    (hlt : r.contents.length < r.mask) :
    (r.spEnqueue x).1.WF ∧ (r.spEnqueue x).1.contents = r.contents ++ [x] ∧
      (r.spEnqueue x).1.slots = r.slots ∧ (r.spEnqueue x).1.watermark = r.slots ∧
      (r.spEnqueue x).2 = 0 := by
  have hpos := h.pow.pos
  have hslots_lt := h.pow.lt
  have hm := h.mask_eq
  have hslots : wadd 32 r.mask 1 = r.slots := by rw [wadd_of_lt (by omega)]; omega
  have hroom : r.contents.length + [x].length ≤ r.mask := by simpa using hlt
  obtain ⟨hwf, hcont⟩ := h.append hroom
  obtain ⟨room, hroom⟩ : ∃ room, r.mask - r.contents.length = room + 1 :=
    ⟨r.mask - r.contents.length - 1, by omega⟩
  simp only [spEnqueue, doEnqueue, h.free_eq, hslots, hroom, List.length_singleton]
  have hfits : ¬ 1 > room + 1 := by omega
  rw [if_neg fun hc => hfits hc.1, if_neg fun hc => hfits hc.1, if_neg hfits]
  refine ⟨hwf, hcont, rfl, hw, if_neg ?_⟩
  rw [wsub_of_le (by omega) hslots_lt, wadd_of_lt (by omega), hw]
  omega

theorem WF.spEnqueue_of_full (h : r.WF) (x : α) (hfull : r.contents.length = r.mask) :
    r.spEnqueue x = (r, errNobuf) := by
  simp only [spEnqueue, doEnqueue, h.free_eq, hfull, Nat.sub_self]
  rfl

end Spec

end Llring

end Backdraft

import Mathlib.Tactic
import Mathlib.Data.List.Chain
import Mathlib.Data.List.Nodup

/-!
# Circular doubly linked lists

A heap of nodes is given by the two maps `next` and `prev`.  `IsCycle next prev l` says that the
nodes of `l`, all different, are linked one after the other and the last back to the first.

* the successor of every node (`IsCycle.next_mid`, `IsCycle.next_last`);
* the same cycle read from its second node (`IsCycle.rotate`);
* inserting a node before the first one (`IsCycle.insert`), the effect of linking it between
  `prev` of the first node and the first node;
* `walk`, which lists the nodes by following `next`, recovers the list
  (`IsCycle.walk_eq`) and its ends (`IsCycle.walk_suffix`).
-/

namespace Cycle

variable {α : Type*} {next prev next' prev' : α → α}

/-- `y` follows `x` in both directions. -/
def Linked (next prev : α → α) (x y : α) : Prop := next x = y ∧ prev y = x

/-- The nodes of `l` form a circular doubly linked list, in this order. -/
def IsCycle (next prev : α → α) : List α → Prop
  | [] => False
  | a :: l => (a :: l).Nodup ∧ (a :: (l ++ [a])).IsChain (Linked next prev)

/-- Follow `next` from `x` until it leads back to `stop`, at most `fuel` nodes. -/
def walk [DecidableEq α] (next : α → α) (stop : α) : ℕ → α → List α
  | 0, _ => []
  | fuel + 1, x => if next x = stop then [x] else x :: walk next stop fuel (next x)

theorem IsCycle.nodup {l : List α} (h : IsCycle next prev l) : l.Nodup := by
  cases l with
  | nil => exact List.nodup_nil
  | cons a l => exact h.1

theorem isCycle_singleton {a : α} : IsCycle next prev [a] ↔ next a = a ∧ prev a = a := by
  simp [IsCycle, Linked]

/-- Inside the list, the successor is the next element. -/
theorem IsCycle.next_mid {A B : List α} {x y : α} (h : IsCycle next prev (A ++ x :: y :: B)) :
    next x = y := by
  cases A with
  | nil => exact (List.rel_of_isChain_cons_cons h.2).1
  | cons a A =>
    rw [List.cons_append] at h
    have h2 := h.2
    rw [show a :: (A ++ x :: y :: B ++ [a]) = (a :: A) ++ x :: y :: (B ++ [a]) by simp,
      List.isChain_append_cons_cons] at h2
    exact h2.2.1.1

theorem IsCycle.linked_last_first {A : List α} {a x : α}
    (h : IsCycle next prev (a :: (A ++ [x]))) : Linked next prev x a := by
  have h2 := h.2
  rw [show a :: (A ++ [x] ++ [a]) = (a :: A) ++ x :: [a] by simp,
    List.isChain_append_cons_cons] at h2
  exact h2.2.1

/-- The successor of the last element is the first. -/
theorem IsCycle.next_last {A : List α} {a x : α} (h : IsCycle next prev (a :: (A ++ [x]))) :
    next x = a :=
  h.linked_last_first.1

/-- The predecessor of the first element is the last. -/
theorem IsCycle.prev_first {A : List α} {a x : α} (h : IsCycle next prev (a :: (A ++ [x]))) :
    prev a = x :=
  h.linked_last_first.2

/-- The successor of a node is a node. -/
theorem IsCycle.next_mem {l : List α} {x : α} (h : IsCycle next prev l) (hx : x ∈ l) :
    next x ∈ l := by
  obtain ⟨A, B, rfl⟩ := List.append_of_mem hx
  cases B with
  | cons y B => rw [h.next_mid]; simp
  | nil =>
    cases A with
    | nil => rw [(isCycle_singleton.1 h).1]; simp
    | cons a A =>
      have hlast : IsCycle next prev (a :: (A ++ [x])) := h
      rw [hlast.next_last]; simp

/-- The predecessor of the first node is a node. -/
theorem IsCycle.prev_mem {a : α} {l : List α} (h : IsCycle next prev (a :: l)) :
    prev a ∈ a :: l := by
  cases l using List.reverseRecOn with
  | nil => rw [(isCycle_singleton.1 h).2]; simp
  | append_singleton l x => rw [h.prev_first]; simp

/-- The cycle read from its second element. -/
theorem IsCycle.rotate {a b : α} {l : List α} (h : IsCycle next prev (a :: b :: l)) :
    IsCycle next prev (b :: (l ++ [a])) := by
  obtain ⟨hnd, hch⟩ := h
  obtain ⟨ha, hbl⟩ := List.nodup_cons.1 hnd
  refine ⟨?_, ?_⟩
  · rw [← List.cons_append]
    exact List.concat_eq_append ▸ hbl.concat ha
  · rw [List.cons_append] at hch
    rw [show b :: (l ++ [a] ++ [b]) = (b :: l) ++ a :: [b] by simp, List.isChain_split]
    exact ⟨by simpa using List.isChain_of_isChain_cons hch,
      by simpa using List.rel_of_isChain_cons_cons hch⟩

/-- The cycle read from any of its elements. -/
theorem IsCycle.rotate_append {A B : List α} {x : α} (h : IsCycle next prev (A ++ x :: B)) :
    IsCycle next prev (x :: (B ++ A)) := by
  induction A generalizing B with
  | nil => simpa using h
  | cons a A ih =>
    have hrot : IsCycle next prev (A ++ x :: (B ++ [a])) := by
      cases A with
      | nil => simpa using IsCycle.rotate (a := a) (b := x) (l := B) h
      | cons b A => simpa using IsCycle.rotate (a := a) (b := b) (l := A ++ x :: B) h
    simpa using ih hrot

/-- The links of a cycle are those of its own nodes. -/
theorem IsCycle.congr {l : List α} (h : IsCycle next prev l)
    (heq : ∀ x ∈ l, next' x = next x ∧ prev' x = prev x) : IsCycle next' prev' l := by
  cases l with
  | nil => exact h
  | cons a l =>
    refine ⟨h.1, h.2.imp_of_mem_imp fun x y hx hy hxy => ?_⟩
    have hmem : ∀ z ∈ a :: (l ++ [a]), z ∈ a :: l := by
      simp only [List.mem_cons, List.mem_append, List.not_mem_nil, or_false]; tauto
    exact ⟨(heq x (hmem x hx)).1.trans hxy.1, (heq y (hmem y hy)).2.trans hxy.2⟩

/-- The last node of a cycle comes before its first. -/
theorem IsCycle.exists_last {a : α} {l : List α} (h : IsCycle next prev (a :: l)) :
    ∃ m p, a :: l = m ++ [p] ∧ prev a = p ∧ next p = a := by
  obtain ⟨m, p, hmp⟩ : ∃ m p, a :: l = m ++ [p] :=
    ⟨(a :: l).dropLast, (a :: l).getLast (by simp), (List.dropLast_append_getLast _).symm⟩
  refine ⟨m, p, hmp, ?_⟩
  cases m with
  | nil =>
    obtain ⟨rfl, rfl⟩ : a = p ∧ l = [] := by simpa using hmp
    exact ⟨(isCycle_singleton.1 h).2, (isCycle_singleton.1 h).1⟩
  | cons b m =>
    obtain rfl : a = b := by simpa using congrArg List.head? hmp
    have hcycle : IsCycle next prev (a :: (m ++ [p])) := by
      rw [← List.cons_append, ← hmp]
      exact h
    exact ⟨IsCycle.prev_first (A := m) hcycle, IsCycle.next_last (A := m) hcycle⟩

/-- Linking a new node between `prev a` and `a` appends it to the cycle that starts at `a`. -/
theorem IsCycle.insert {a n : α} {l : List α} (h : IsCycle next prev (a :: l))
    (hn : n ∉ a :: l) (hnext_n : next' n = a) (hprev_a : prev' a = n)
    (hprev_n : prev' n = prev a) (hnext_p : next' (prev a) = n)
    (hnext : ∀ x ∈ a :: l, x ≠ prev a → next' x = next x)
    (hprev : ∀ x ∈ l, prev' x = prev x) : IsCycle next' prev' (a :: (l ++ [n])) := by
  obtain ⟨m, p, hmp, hpa, hlast⟩ := h.exists_last
  refine ⟨?_, ?_⟩
  · rw [← List.cons_append]
    exact List.concat_eq_append ▸ h.1.concat hn
  · have hch : (a :: l).IsChain (Linked next prev) :=
      (show (a :: l ++ [a]).IsChain (Linked next prev) from h.2).left_of_append
    have hfirst : (a :: l).IsChain (Linked next' prev') := by
      rw [List.IsChain.iff_mem_mem_tail] at hch ⊢
      refine hch.imp fun x y ⟨hx, hy, hxy⟩ => ⟨hx, hy, ?_, (hprev y hy).trans hxy.2⟩
      -- only the last node has `a` as its successor, and `a` is not in the tail
      have hxp : x ≠ prev a := by
        rintro rfl
        have hya : y = a := hxy.1.symm.trans (hpa ▸ hlast)
        exact (List.nodup_cons.1 h.1).1 (hya ▸ hy)
      exact (hnext x hx hxp).trans hxy.1
    rw [hmp] at hfirst
    rw [show a :: (l ++ [n] ++ [a]) = a :: l ++ n :: [a] by simp, hmp,
      show m ++ [p] ++ n :: [a] = m ++ p :: n :: [a] by simp, List.isChain_append_cons_cons]
    exact ⟨hfirst, ⟨hpa ▸ hnext_p, hprev_n.trans hpa⟩, by simpa using ⟨hnext_n, hprev_a⟩⟩

/-- Following `next` from a node to the end of the list lists the nodes in between. -/
theorem IsCycle.walk_suffix [DecidableEq α] {A B l : List α} {a x : α} {fuel : ℕ}
    (h : IsCycle next prev (a :: l)) (hA : A ++ x :: B = a :: l) (hf : (x :: B).length ≤ fuel) :
    walk next a fuel x = x :: B := by
  induction B generalizing A x fuel with
  | nil =>
    obtain ⟨fuel, rfl⟩ := Nat.exists_eq_add_of_le' (show 1 ≤ fuel by simpa using hf)
    have hx : next x = a := by
      cases A with
      | nil =>
        obtain ⟨rfl, rfl⟩ : x = a ∧ [] = l := by simpa using hA
        exact (isCycle_singleton.1 h).1
      | cons b A =>
        obtain rfl : b = a := by simpa using congrArg List.head? hA
        have hlast : IsCycle next prev (b :: (A ++ [x])) := by rw [← List.cons_append, hA]; exact h
        exact hlast.next_last
    rw [walk, if_pos hx]
  | cons y B ih =>
    obtain ⟨fuel, rfl⟩ := Nat.exists_eq_add_of_le' (show 1 ≤ fuel by simp at hf; omega)
    have hcycle : IsCycle next prev (A ++ x :: y :: B) := hA ▸ h
    have hx : next x = y := hcycle.next_mid
    have hya : y ≠ a := by
      -- `y` stands behind `x`, so it is not the first element
      rintro rfl
      have hnd := hA ▸ h.nodup
      cases A with
      | nil =>
        obtain ⟨rfl, -⟩ : x = y ∧ y :: B = l := by simpa using hA
        simp at hnd
      | cons b A =>
        obtain rfl : b = y := by simpa using congrArg List.head? hA
        simp at hnd
    rw [walk, if_neg (hx ▸ hya), hx, ih (A := A ++ [x]) (by simpa using hA) (by simpa using hf)]

/-- Following `next` around the cycle lists its nodes. -/
theorem IsCycle.walk_eq [DecidableEq α] {a : α} {l : List α} (h : IsCycle next prev (a :: l))
    {fuel : ℕ} (hf : (a :: l).length ≤ fuel) : walk next a fuel a = a :: l :=
  h.walk_suffix (A := []) rfl hf

end Cycle

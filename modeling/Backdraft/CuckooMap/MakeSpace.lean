import Backdraft.CuckooMap.Invariant

/-!
# Displacing entries

`MakeSpace` frees a slot of a full bucket by moving one of its entries to its other bucket, where
it frees a slot in the same way if there is none.  The path of moves can come back to a bucket it
has left, and then the slot that is written last need not have the entry that was looked at first.
With at most three levels this does no harm: what a call of two levels brings into a slot that was
taken comes from the bucket that the call has made space in (`Settled`).

* `makeSpace_eq_none`: a failed call changes nothing;
* `Freed`, `freed_makeSpace`: a successful call frees a slot of the bucket and keeps the entries.
-/

namespace Backdraft.CuckooMap

open Placement

variable {K V κ : Type*} {H : KeyHash K κ} {m m₁ m' : CuckooMap K V} {b index alt x : ℕ}
  {i j : Fin 4} {k : K} {d : ℕ}

/-- Every slot of the bucket is taken. -/
def Full (m : CuckooMap K V) (b : ℕ) : Prop := ∀ i, m.occ (b, i) ≠ none

/-- What one pass of the loop does to the slot that it frees: an entry of `(index, i)` goes to its
other bucket, to a slot that was free or that `again` has freed. -/
def Displaces (H : KeyHash K κ) (again : CuckooMap K V → ℕ → CuckooMap K V × Option (Fin 4))
    (m : CuckooMap K V) (index : ℕ) (i : Fin 4) (m' : CuckooMap K V) : Prop :=
  ∃ alt j m₁, m.altIndex H (index, i) = some alt ∧
    (m₁ = m ∧ m.occ (alt, j) = none ∨ m.Full alt ∧ again m alt = (m₁, some j)) ∧
    m' = m₁.moveSlot (index, i) (alt, j)

theorem makeSpaceLoop_spec {again : CuckooMap K V → ℕ → CuckooMap K V × Option (Fin 4)}
    (hagain : ∀ b, (again m b).2 = none → (again m b).1 = m) (l : List (Fin 4)) :
    ((makeSpaceLoop H again m index l).2 = none → (makeSpaceLoop H again m index l).1 = m) ∧
      ∀ i, (makeSpaceLoop H again m index l).2 = some i →
        Displaces H again m index i (makeSpaceLoop H again m index l).1 := by
  induction l with
  | nil => exact ⟨fun _ => rfl, nofun⟩
  | cons i l ih =>
    cases halt : m.altIndex H (index, i) with
    | none =>
      rw [makeSpaceLoop, halt]
      exact ⟨fun _ => rfl, nofun⟩
    | some alt =>
      cases hempty : m.findEmptySlot alt with
      | some j =>
        simp only [makeSpaceLoop, halt, hempty]
        refine ⟨nofun, fun i' hi' => ?_⟩
        cases hi'
        exact ⟨alt, j, m, halt, .inl ⟨rfl, findEmptySlot_eq_some hempty⟩, rfl⟩
      | none =>
        cases hj : (again m alt).2 with
        | none =>
          simp only [makeSpaceLoop, halt, hempty, hj, hagain alt hj]
          exact ih
        | some j =>
          simp only [makeSpaceLoop, halt, hempty, hj]
          refine ⟨nofun, fun i' hi' => ?_⟩
          cases hi'
          exact ⟨alt, j, (again m alt).1, halt,
            .inr ⟨findEmptySlot_eq_none_iff.1 hempty, Prod.ext rfl hj⟩, rfl⟩

/-- A failed call changes nothing. -/
theorem makeSpace_eq_none (d : ℕ) (m : CuckooMap K V) (index : ℕ)
    (h : (makeSpace H d m index).2 = none) : (makeSpace H d m index).1 = m := by
  induction d generalizing index with
  | zero => rfl
  | succ d ih => exact (makeSpaceLoop_spec ih _).1 h

theorem displaces_makeSpace (h : makeSpace H (d + 1) m index = (m', some i)) :
    Displaces H (makeSpace H d) m index i m' := by
  have hspec := (makeSpaceLoop_spec (makeSpace_eq_none (H := H) d m) (List.finRange 4)).2 i
    (congrArg Prod.snd h)
  rwa [show makeSpaceLoop H (makeSpace H d) m index (List.finRange 4) = _ from h] at hspec

/-- The other bucket that is computed for an entry is one of its buckets. -/
theorem WF.home_altIndex (h : m.WF H) (hp : m.occ (index, i) = some x)
    (halt : m.altIndex H (index, i) = some alt) : Home H m (m.entries x).1 alt := by
  have hhash := h.hash _ _ hp
  obtain ⟨-, hidx⟩ := occ_eq_some_iff.1 hp
  simp only [altIndex, hidx, hhash, if_true, Option.some.injEq] at halt
  exact .inr halt.symm

/-- The slot `(b, i)` has been freed, with the entries as they were. -/
structure Freed (H : KeyHash K κ) (m : CuckooMap K V) (b : ℕ) (i : Fin 4) (m' : CuckooMap K V) :
    Prop where
  wf : m'.WF H
  content : m'.content = m.content
  mask : m'.bucketMask = m.bucketMask
  entries : m'.entries = m.entries
  free : m'.occ (b, i) = none

/-- A slot that was taken has its entry still, or none, or one that can lie in the bucket `b`. -/
def Settled (H : KeyHash K κ) (m : CuckooMap K V) (b : ℕ) (m' : CuckooMap K V) : Prop :=
  ∀ p x, m.occ p ≠ none → m'.occ p = some x → m.occ p = some x ∨ Home H m (m.entries x).1 b

theorem home_of_frame (hmask : m'.bucketMask = m.bucketMask) : Home H m' = Home H m := by
  funext k b
  rw [Home, Home, bucketOf, bucketOf, bucketOf, bucketOf, hmask]

theorem WF.freed_refl (h : m.WF H) (hfree : m.occ (alt, j) = none) : Freed H m alt j m :=
  ⟨h, rfl, rfl, rfl, hfree⟩

theorem settled_refl (H : KeyHash K κ) (m : CuckooMap K V) (b : ℕ) : Settled H m b m :=
  fun _ _ _ hx => .inl hx

/-- The move of the loop frees the slot, when the other bucket has got a free slot and nothing
foreign to it has come into the slots. -/
theorem WF.freed_moveSlot (h : m.WF H) (hfull : m.Full index)
    (halt : m.altIndex H (index, i) = some alt) (hfreed : Freed H m alt j m₁)
    (hset : Settled H m alt m₁) : Freed H m index i (m₁.moveSlot (index, i) (alt, j)) where
  wf := by
    refine hfreed.wf.moveSlot hfreed.free fun x hx => ?_
    rw [home_of_frame hfreed.mask, hfreed.entries]
    rcases hset (index, i) x (hfull i) hx with hx' | hx'
    · exact h.home_altIndex hx' halt
    · exact hx'
  content := (content_moveSlot hfreed.free).trans hfreed.content
  mask := hfreed.mask
  entries := hfreed.entries
  free := by rw [occ_moveSlot, shift_left]

/-- One level: the entry goes to a slot that was free, and no other taken slot changes. -/
theorem WF.freed_makeSpace_one (h : m.WF H) (hfull : m.Full index)
    (hm : makeSpace H 1 m index = (m', some i)) :
    Freed H m index i m' ∧ ∀ p x, m.occ p ≠ none → m'.occ p = some x → m.occ p = some x := by
  obtain ⟨alt, j, m₁, halt, ⟨rfl, hfree⟩ | ⟨-, hagain⟩, rfl⟩ := displaces_makeSpace hm
  · refine ⟨h.freed_moveSlot hfull halt (h.freed_refl hfree) (settled_refl H m₁ alt), ?_⟩
    intro p x hp hx
    rw [occ_moveSlot] at hx
    rcases of_shift_eq_some hx with ⟨-, ⟨rfl, -⟩ | ⟨-, hx⟩⟩
    exacts [absurd hfree hp, hx]
  · exact absurd (congrArg Prod.snd hagain) nofun

/-- Two levels: the slot freed by the first move is taken by an entry of the bucket. -/
theorem WF.freed_makeSpace_two (h : m.WF H) (hfull : m.Full index)
    (hm : makeSpace H 2 m index = (m', some i)) :
    Freed H m index i m' ∧ Settled H m index m' := by
  obtain ⟨alt, j, m₁, halt, hj, rfl⟩ := displaces_makeSpace hm
  have hstep : Freed H m alt j m₁ ∧
      ∀ p x, m.occ p ≠ none → m₁.occ p = some x → m.occ p = some x := by
    rcases hj with ⟨rfl, hfree⟩ | ⟨haltFull, hagain⟩
    · exact ⟨h.freed_refl hfree, fun _ _ _ hx => hx⟩
    · exact h.freed_makeSpace_one haltFull hagain
  obtain ⟨hfreed, hkept⟩ := hstep
  refine ⟨h.freed_moveSlot hfull halt hfreed fun p x hp hx => .inl (hkept p x hp hx), ?_⟩
  intro p x hp hx
  rw [occ_moveSlot] at hx
  rcases of_shift_eq_some hx with ⟨-, ⟨-, hx⟩ | ⟨-, hx⟩⟩
  · exact .inr (h.home _ _ (hkept _ _ (hfull i) hx))
  · exact .inl (hkept p x hp hx)

/-- **`MakeSpace`**, when it succeeds. -/
theorem WF.freed_makeSpace (h : m.WF H) (hfull : m.Full index)
    (hm : makeSpace H maxCuckooPath m index = (m', some i)) : Freed H m index i m' := by
  obtain ⟨alt, j, m₁, halt, ⟨rfl, hfree⟩ | ⟨haltFull, hagain⟩, rfl⟩ := displaces_makeSpace hm
  · exact h.freed_moveSlot hfull halt (h.freed_refl hfree) (settled_refl H m₁ alt)
  · obtain ⟨hfreed, hset⟩ := h.freed_makeSpace_two haltFull hagain
    exact h.freed_moveSlot hfull halt hfreed hset

end Backdraft.CuckooMap

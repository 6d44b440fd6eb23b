import Backdraft.CuckooMap.Model

/-!
# The invariant of the cuckoo map

What a lookup finds, and that the single writes keep the invariant: a new value for a stored key, a
removed entry, an entry put in a free slot, and an entry moved to a free slot of its other bucket.

* `WF.find_eq_some_iff`: a lookup finds the entry whose key is equal to the given one;
* `WF.count_eq`: `Count` is the number of the entries;
* `WF.setValue`, `WF.removeFromBucket`, `WF.emplaceInBucket`, `WF.moveSlot`.
-/

namespace Backdraft.CuckooMap

open Placement

variable {K V κ : Type*} {H : KeyHash K κ} {m m' : CuckooMap K V} {p q : ℕ × Fin 4} {x y : ℕ}
  {b : ℕ} {i : Fin 4} {k : K} {v : V} {e : K × V}

/-! ### Slots -/

theorem hashValues_setSlot (m : CuckooMap K V) (p q : ℕ × Fin 4) (h : BitVec 32) (idx : ℕ) :
    ((m.setSlot p h idx).buckets q.1).hashValues q.2 =
      if q = p then h else (m.buckets q.1).hashValues q.2 := by
  simp only [setSlot, Function.update_apply, Prod.ext_iff]
  split_ifs <;> simp_all

theorem entryIndices_setSlot (m : CuckooMap K V) (p q : ℕ × Fin 4) (h : BitVec 32) (idx : ℕ) :
    ((m.setSlot p h idx).buckets q.1).entryIndices q.2 =
      if q = p then idx else (m.buckets q.1).entryIndices q.2 := by
  simp only [setSlot, Function.update_apply, Prod.ext_iff]
  split_ifs <;> simp_all

theorem occ_setSlot (m : CuckooMap K V) (p : ℕ × Fin 4) (h : BitVec 32) (idx : ℕ) :
    (m.setSlot p h idx).occ = Function.update m.occ p (if h = 0 then none else some idx) := by
  funext q
  rw [occ, hashValues_setSlot, entryIndices_setSlot, Function.update_apply]
  split_ifs <;> simp_all [occ]

@[simp] theorem occ_clearSlot (m : CuckooMap K V) (p : ℕ × Fin 4) :
    (m.clearSlot p).occ = Function.update m.occ p none := by
  rw [clearSlot, occ_setSlot, if_pos rfl]

theorem occ_moveSlot (m : CuckooMap K V) (p q : ℕ × Fin 4) :
    (m.moveSlot p q).occ = shift m.occ p q := by
  rw [moveSlot, occ_clearSlot, occ_setSlot]
  rfl

theorem occ_eq_none_iff : m.occ p = none ↔ (m.buckets p.1).hashValues p.2 = 0 := by
  rw [occ]
  split_ifs with h
  exacts [iff_of_true rfl h, iff_of_false nofun h]

theorem occ_eq_some_iff :
    m.occ p = some x ↔
      (m.buckets p.1).hashValues p.2 ≠ 0 ∧ (m.buckets p.1).entryIndices p.2 = x := by
  rw [occ]
  split_ifs with h
  · exact iff_of_false nofun fun hx => hx.1 h
  · exact ⟨fun hx => ⟨h, Option.some.inj hx⟩, fun hx => congrArg some hx.2⟩

theorem findEmptySlot_eq_some (h : m.findEmptySlot b = some i) : m.occ (b, i) = none := by
  rw [occ_eq_none_iff]
  simpa using List.find?_some h

theorem findEmptySlot_eq_none_iff : m.findEmptySlot b = none ↔ ∀ i, m.occ (b, i) ≠ none := by
  simp only [findEmptySlot, List.find?_eq_none, List.mem_finRange, true_imp_iff, ne_eq,
    occ_eq_none_iff, beq_iff_eq]

/-! ### Lookup -/

theorem getFromBucket_eq_some (hx : m.getFromBucket H (H.hash k) b k = some x) :
    m.Stored x ∧ H.key (m.entries x).1 = H.key k := by
  obtain ⟨i, hi, rfl⟩ := Option.map_eq_some_iff.1 hx
  have hslot := List.find?_some hi
  rw [Bool.and_eq_true, beq_iff_eq, H.eq_iff] at hslot
  refine ⟨⟨(b, i), occ_eq_some_iff.2 ⟨?_, rfl⟩⟩, hslot.2⟩
  rw [hslot.1]
  exact H.hash_ne_zero k

theorem WF.getFromBucket_ne_none (h : m.WF H) (hp : m.occ (b, i) = some x)
    (hk : H.key (m.entries x).1 = H.key k) : m.getFromBucket H (H.hash k) b k ≠ none := by
  have hhash := h.hash _ _ hp
  obtain ⟨-, hidx⟩ := occ_eq_some_iff.1 hp
  rw [getFromBucket, Ne, Option.map_eq_none_iff, findSlot, List.find?_eq_none]
  intro hall
  refine hall i (List.mem_finRange i) ?_
  rw [Bool.and_eq_true, beq_iff_eq, H.eq_iff, hidx]
  exact ⟨hhash.trans (H.hash_eq hk), hk⟩

theorem WF.findWithHash_eq_some_iff (h : m.WF H) :
    m.findWithHash H (H.hash k) k = some x ↔ m.Stored x ∧ H.key (m.entries x).1 = H.key k := by
  have hsome : ∀ {y}, m.findWithHash H (H.hash k) k = some y →
      m.Stored y ∧ H.key (m.entries y).1 = H.key k := by
    intro y hy
    rw [findWithHash] at hy
    split at hy
    · cases hy
      exact getFromBucket_eq_some ‹_›
    · exact getFromBucket_eq_some hy
  refine ⟨hsome, ?_⟩
  rintro ⟨⟨⟨b, i⟩, hp⟩, hk⟩
  -- the entry is in one of the two buckets that are searched
  have hne : m.findWithHash H (H.hash k) k ≠ none := by
    have hfound := h.getFromBucket_ne_none hp hk
    rw [findWithHash]
    split
    · simp
    · rename_i hnone
      rcases h.home _ _ hp with hb | hb <;> rw [H.hash_eq hk] at hb <;> subst hb
      · exact absurd hnone hfound
      · exact hfound
  obtain ⟨y, hy⟩ := Option.ne_none_iff_exists'.1 hne
  obtain ⟨hy', hky⟩ := hsome hy
  rw [hy, h.keys y x hy' ⟨_, hp⟩ (hky.trans hk.symm)]

/-- **What a lookup finds.** -/
theorem WF.find_eq_some_iff (h : m.WF H) :
    m.find H k = some e ↔ e ∈ m.content ∧ H.key e.1 = H.key k := by
  simp only [find, Option.map_eq_some_iff, h.findWithHash_eq_some_iff, content,
    Set.mem_ofPred_eq]
  constructor
  · rintro ⟨x, ⟨hx, hk⟩, rfl⟩
    exact ⟨⟨x, hx, rfl⟩, hk⟩
  · rintro ⟨⟨x, hx, rfl⟩, hk⟩
    exact ⟨x, ⟨hx, hk⟩, rfl⟩

theorem WF.find_eq_none_iff (h : m.WF H) :
    m.find H k = none ↔ ∀ e ∈ m.content, H.key e.1 ≠ H.key k := by
  rw [Option.eq_none_iff_forall_ne_some]
  exact ⟨fun hn e he hk => hn e (h.find_eq_some_iff.2 ⟨he, hk⟩),
    fun hall e he => hall e (h.find_eq_some_iff.1 he).1 (h.find_eq_some_iff.1 he).2⟩

theorem findWithHash_eq_none_iff :
    m.findWithHash H (H.hash k) k = none ↔ m.find H k = none := by
  rw [find, Option.map_eq_none_iff]

/-- Two entries with equal keys are the same. -/
theorem WF.content_unique (h : m.WF H) {e e' : K × V} (he : e ∈ m.content) (he' : e' ∈ m.content)
    (hk : H.key e.1 = H.key e'.1) : e = e' := by
  obtain ⟨x, hx, rfl⟩ := he
  obtain ⟨y, hy, rfl⟩ := he'
  rw [h.keys x y hx hy hk]

/-! ### The number of entries -/

theorem WF.setOf_stored (h : m.WF H) :
    {x | m.Stored x} = ↑(Finset.range m.entryCount \ m.freeEntryIndices.toFinset) := by
  ext x
  simp only [Set.mem_ofPred_eq, Finset.coe_sdiff, Finset.coe_range, Set.mem_sdiff, Set.mem_Iio,
    List.coe_toFinset, h.free_iff]
  exact ⟨fun hx => ⟨h.stored_lt x hx, fun hn => hn.2 hx⟩, fun hx => by_contra fun hn =>
    hx.2 ⟨hx.1, hn⟩⟩

theorem WF.content_eq_image (m : CuckooMap K V) : m.content = m.entries '' {x | m.Stored x} := rfl

theorem WF.content_finite (h : m.WF H) : m.content.Finite := by
  rw [WF.content_eq_image, h.setOf_stored]
  exact (Finset.finite_toSet _).image _

/-- **`Count`.** -/
theorem WF.count_eq (h : m.WF H) : m.count = m.content.ncard := by
  have hinj : Set.InjOn m.entries {x | m.Stored x} := fun x hx y hy hxy =>
    h.keys x y hx hy (by rw [hxy])
  have hsub : m.freeEntryIndices.toFinset ⊆ Finset.range m.entryCount := fun x hx =>
    Finset.mem_range.2 ((h.free_iff x).1 (List.mem_toFinset.1 hx)).1
  have hcard := h.card
  rw [WF.content_eq_image, hinj.ncard_image, h.setOf_stored, Set.ncard_coe_finset,
    Finset.card_sdiff_of_subset hsub, Finset.card_range,
    List.toFinset_card_of_nodup h.free_nodup, count]
  omega

/-! ### A new map -/

section Values

variable [Inhabited K] [Inhabited V]

theorem not_stored_new (a c : ℕ) : ¬ (new a c : CuckooMap K V).Stored x := by
  rintro ⟨p, hp⟩
  simp [new, occ] at hp

theorem wf_new (n : ℕ) {c : ℕ} (hc : 2 ≤ c) : (new (2 ^ n) c : CuckooMap K V).WF H where
  pow := ⟨n, rfl⟩
  mask := rfl
  home := fun p idx hp => absurd ⟨p, hp⟩ (not_stored_new _ _)
  hash := fun p idx hp => absurd ⟨p, hp⟩ (not_stored_new _ _)
  once := fun p _ _ hp => absurd ⟨p, hp⟩ (not_stored_new _ _)
  keys := fun _ _ hx => absurd hx (not_stored_new _ _)
  free_nodup := List.nodup_range
  free_iff := fun _ =>
    ⟨fun hx => ⟨List.mem_range.1 hx, not_stored_new _ _⟩, fun hx => List.mem_range.2 hx.1⟩
  stored_lt := fun _ hx => absurd hx (not_stored_new _ _)
  card := by simp [new]
  two_le := hc

theorem content_new (a c : ℕ) : (new a c : CuckooMap K V).content = ∅ := by
  ext e
  simp only [content, Set.mem_ofPred_eq, Set.mem_empty_iff_false, iff_false]
  rintro ⟨x, hx, -⟩
  exact not_stored_new a c hx

end Values

/-! ### A new value for a stored key -/

theorem setValue_self (m : CuckooMap K V) (x : ℕ) : m.setValue x (m.entries x).2 = m := by
  rw [setValue, Prod.mk.eta, Function.update_eq_self]

theorem fst_entries_setValue (m : CuckooMap K V) (x : ℕ) (v : V) (y : ℕ) :
    ((m.setValue x v).entries y).1 = (m.entries y).1 := by
  simp only [setValue, Function.update_apply]
  split_ifs with h
  · rw [h]
  · rfl

theorem WF.setValue (h : m.WF H) (x : ℕ) (v : V) : (m.setValue x v).WF H where
  pow := h.pow
  mask := h.mask
  home := fun p idx hp => by
    rw [Home, fst_entries_setValue]
    exact h.home p idx hp
  hash := fun p idx hp => by
    rw [fst_entries_setValue]
    exact h.hash p idx hp
  once := h.once
  keys := fun a c ha hc hk => by
    rw [fst_entries_setValue, fst_entries_setValue] at hk
    exact h.keys a c ha hc hk
  free_nodup := h.free_nodup
  free_iff := h.free_iff
  stored_lt := h.stored_lt
  card := h.card
  two_le := h.two_le

theorem WF.mem_content_setValue (h : m.WF H) (hx : m.Stored x) :
    e ∈ (m.setValue x v).content ↔
      e = ((m.entries x).1, v) ∨ e ∈ m.content ∧ H.key e.1 ≠ H.key (m.entries x).1 := by
  constructor
  · rintro ⟨y, hy, rfl⟩
    by_cases hyx : y = x
    · exact .inl (hyx ▸ Function.update_self ..)
    · have hget : (m.setValue x v).entries y = m.entries y := Function.update_of_ne hyx _ _
      rw [hget]
      exact .inr ⟨⟨y, hy, rfl⟩, fun hk => hyx (h.keys y x hy hx hk)⟩
  · rintro (rfl | ⟨⟨y, hy, rfl⟩, hk⟩)
    · exact ⟨x, hx, Function.update_self ..⟩
    · exact ⟨y, hy, Function.update_of_ne (by rintro rfl; exact hk rfl) _ _⟩

/-! ### An entry moved to another slot -/

theorem hashValues_moveSlot (m : CuckooMap K V) {p q r : ℕ × Fin 4} (hr : r ≠ p) :
    ((m.moveSlot p q).buckets r.1).hashValues r.2 =
      if r = q then (m.buckets p.1).hashValues p.2 else (m.buckets r.1).hashValues r.2 := by
  rw [moveSlot, clearSlot, hashValues_setSlot, if_neg hr, hashValues_setSlot]

theorem stored_moveSlot (hq : m.occ q = none) : (m.moveSlot p q).Stored x ↔ m.Stored x := by
  rw [Stored, occ_moveSlot, holds_shift hq, Stored]

/-- An entry can be carried to a free slot of one of its buckets. -/
theorem WF.moveSlot (h : m.WF H) (hq : m.occ q = none)
    (hhome : ∀ x, m.occ p = some x → Home H m (m.entries x).1 q.1) : (m.moveSlot p q).WF H where
  pow := h.pow
  mask := h.mask
  home := fun r x hr => by
    rw [occ_moveSlot] at hr
    rcases of_shift_eq_some hr with ⟨-, ⟨rfl, hp⟩ | ⟨-, hr⟩⟩
    exacts [hhome x hp, h.home r x hr]
  hash := fun r x hr => by
    rw [occ_moveSlot] at hr
    rcases of_shift_eq_some hr with ⟨hrp, ⟨hrq, hp⟩ | ⟨hrq, hr'⟩⟩
    · rw [hashValues_moveSlot m hrp, if_pos hrq]
      exact h.hash p x hp
    · rw [hashValues_moveSlot m hrp, if_neg hrq]
      exact h.hash r x hr'
  once := by
    rw [occ_moveSlot]
    exact h.once.shift
  keys := fun x y hx hy => h.keys x y ((stored_moveSlot hq).1 hx) ((stored_moveSlot hq).1 hy)
  free_nodup := h.free_nodup
  free_iff := fun x => by
    rw [stored_moveSlot hq]
    exact h.free_iff x
  stored_lt := fun x hx => h.stored_lt x ((stored_moveSlot hq).1 hx)
  card := h.card
  two_le := h.two_le

theorem content_moveSlot (hq : m.occ q = none) : (m.moveSlot p q).content = m.content := by
  ext e
  exact exists_congr fun x => and_congr_left' (stored_moveSlot hq)

section Values

variable [Inhabited K] [Inhabited V]

/-! ### An entry taken out -/

/-- The writes of `RemoveFromBucket` for the slot `p` with the entry `idx`. -/
def takeOut (m : CuckooMap K V) (p : ℕ × Fin 4) (idx : ℕ) : CuckooMap K V :=
  { m.clearSlot p with
    entries := Function.update m.entries idx default
    freeEntryIndices := idx :: m.freeEntryIndices
    numEntries := m.numEntries - 1 }

theorem occ_takeOut (m : CuckooMap K V) (p : ℕ × Fin 4) (idx : ℕ) :
    (m.takeOut p idx).occ = Function.update m.occ p none :=
  occ_clearSlot m p

theorem WF.stored_takeOut (h : m.WF H) (hp : m.occ p = some x) :
    (m.takeOut p x).Stored y ↔ y ≠ x ∧ m.Stored y := by
  rw [Stored, occ_takeOut, holds_take h.once hp, Stored]

theorem entries_takeOut (m : CuckooMap K V) (p : ℕ × Fin 4) (hy : y ≠ x) :
    (m.takeOut p x).entries y = m.entries y :=
  Function.update_of_ne hy _ _

theorem WF.takeOut (h : m.WF H) (hp : m.occ p = some x) : (m.takeOut p x).WF H where
  pow := h.pow
  mask := h.mask
  home := fun r y hr => by
    have hyx := ((h.stored_takeOut hp).1 ⟨r, hr⟩).1
    rw [occ_takeOut, Function.update_apply] at hr
    split_ifs at hr
    rw [entries_takeOut m p hyx]
    exact h.home r y hr
  hash := fun r y hr => by
    have hyx := ((h.stored_takeOut hp).1 ⟨r, hr⟩).1
    rw [occ_takeOut, Function.update_apply] at hr
    split_ifs at hr with hrp
    rw [entries_takeOut m p hyx, ← h.hash r y hr]
    exact (hashValues_setSlot m p r 0 _).trans (if_neg hrp)
  once := by
    rw [occ_takeOut]
    exact h.once.take
  keys := fun y z hy hz hk => by
    obtain ⟨hyx, hy⟩ := (h.stored_takeOut hp).1 hy
    obtain ⟨hzx, hz⟩ := (h.stored_takeOut hp).1 hz
    rw [entries_takeOut m p hyx, entries_takeOut m p hzx] at hk
    exact h.keys y z hy hz hk
  free_nodup := List.nodup_cons.2 ⟨fun hx => ((h.free_iff x).1 hx).2 ⟨p, hp⟩, h.free_nodup⟩
  free_iff := fun y => by
    have hx := h.stored_lt x ⟨p, hp⟩
    rw [h.stored_takeOut hp, CuckooMap.takeOut, List.mem_cons, h.free_iff]
    constructor
    · rintro (rfl | ⟨hlt, hy⟩)
      exacts [⟨hx, fun hn => hn.1 rfl⟩, ⟨hlt, fun hn => hy hn.2⟩]
    · rintro ⟨hlt, hn⟩
      by_cases hyx : y = x
      exacts [.inl hyx, .inr ⟨hlt, fun hy => hn ⟨hyx, hy⟩⟩]
  stored_lt := fun y hy => h.stored_lt y ((h.stored_takeOut hp).1 hy).2
  card := by
    have hpos : 0 < m.count := by
      rw [h.count_eq, Set.ncard_pos h.content_finite]
      exact ⟨_, x, ⟨p, hp⟩, rfl⟩
    have hcard := h.card
    simp only [CuckooMap.takeOut, CuckooMap.clearSlot, CuckooMap.setSlot, List.length_cons,
      count] at hpos ⊢
    omega
  two_le := h.two_le

theorem WF.content_takeOut (h : m.WF H) (hp : m.occ p = some x) :
    (m.takeOut p x).content = m.content \ {m.entries x} := by
  ext e
  constructor
  · rintro ⟨y, hy, rfl⟩
    obtain ⟨hyx, hy⟩ := (h.stored_takeOut hp).1 hy
    rw [entries_takeOut m p hyx]
    refine ⟨⟨y, hy, rfl⟩, fun he => hyx (h.keys y x hy ⟨p, hp⟩ ?_)⟩
    rw [Set.mem_singleton_iff.1 he]
  · rintro ⟨⟨y, hy, rfl⟩, he⟩
    have hyx : y ≠ x := by rintro rfl; exact he rfl
    exact ⟨y, (h.stored_takeOut hp).2 ⟨hyx, hy⟩, entries_takeOut m p hyx⟩

/-- **`RemoveFromBucket`** takes out the entry of the key. -/
theorem WF.of_removeFromBucket (h : m.WF H)
    (hr : m.removeFromBucket H (H.hash k) b k = some m') :
    m'.WF H ∧ ∃ e ∈ m.content, H.key e.1 = H.key k ∧ m'.content = m.content \ {e} := by
  obtain ⟨i, hi, rfl⟩ := Option.map_eq_some_iff.1 hr
  have hget : m.getFromBucket H (H.hash k) b k = some ((m.buckets b).entryIndices i) := by
    rw [getFromBucket, hi, Option.map_some]
  have hslot := List.find?_some hi
  rw [Bool.and_eq_true, beq_iff_eq] at hslot
  have hp : m.occ (b, i) = some ((m.buckets b).entryIndices i) :=
    occ_eq_some_iff.2 ⟨hslot.1 ▸ H.hash_ne_zero k, rfl⟩
  exact ⟨h.takeOut hp, _, ⟨_, ⟨_, hp⟩, rfl⟩, (getFromBucket_eq_some hget).2, h.content_takeOut hp⟩

theorem removeFromBucket_eq_none_iff {h : BitVec 32} :
    m.removeFromBucket H h b k = none ↔ m.getFromBucket H h b k = none := by
  rw [removeFromBucket, Option.map_eq_none_iff, getFromBucket, Option.map_eq_none_iff]

/-- **`Remove`** takes out the entry of the key, if there is one, and reports it. -/
theorem WF.remove (h : m.WF H) (k : K) :
    (m.remove H k).1.WF H ∧ (m.remove H k).2 = (m.find H k).isSome ∧
      (m.remove H k).1.content = {e ∈ m.content | H.key e.1 ≠ H.key k} := by
  have hsome : ∀ {b m'}, m.removeFromBucket H (H.hash k) b k = some m' →
      m'.WF H ∧ true = (m.find H k).isSome ∧
        m'.content = {e ∈ m.content | H.key e.1 ≠ H.key k} := by
    intro b m' hr
    obtain ⟨hwf, e, he, hk, hcontent⟩ := h.of_removeFromBucket hr
    refine ⟨hwf, by rw [h.find_eq_some_iff.2 ⟨he, hk⟩]; rfl, ?_⟩
    rw [hcontent]
    ext e'
    exact and_congr_right fun he' =>
      not_congr ⟨fun h' => by rw [h', hk], fun hk' => h.content_unique he' he (hk'.trans hk.symm)⟩
  simp only [CuckooMap.remove]
  split
  · exact hsome ‹_›
  · rename_i hpri
    split
    · exact hsome ‹_›
    · rename_i hsec
      rw [removeFromBucket_eq_none_iff] at hpri hsec
      have hnone : m.find H k = none := by
        rw [← findWithHash_eq_none_iff, findWithHash, hpri]
        exact hsec
      refine ⟨h, by rw [hnone]; rfl, ?_⟩
      ext e
      exact ⟨fun he => ⟨he, h.find_eq_none_iff.1 hnone e he⟩, fun he => he.1⟩

/-! ### An entry put in -/

theorem WF.expandEntries (h : m.WF H) : m.expandEntries.WF H ∧
    m.expandEntries.content = m.content ∧ m.expandEntries.freeEntryIndices ≠ [] := by
  have hentry : ∀ x, m.Stored x → m.expandEntries.entries x = m.entries x := fun x hx =>
    if_pos (h.stored_lt x hx)
  have htwo := h.two_le
  refine ⟨?_, ?_, ?_⟩
  · exact {
      pow := h.pow
      mask := h.mask
      home := fun p x hp => by
        rw [hentry x ⟨p, hp⟩]
        exact h.home p x hp
      hash := fun p x hp => by
        rw [hentry x ⟨p, hp⟩]
        exact h.hash p x hp
      once := h.once
      keys := fun x y hx hy hk => by
        rw [hentry x hx, hentry y hy] at hk
        exact h.keys x y hx hy hk
      free_nodup := List.nodup_append.2 ⟨List.nodup_range', h.free_nodup, fun x hx y hy hxy => by
        have hlt := ((h.free_iff y).1 hy).1
        have hge := (List.mem_range'_1.1 hx).1
        omega⟩
      free_iff := fun x => by
        have hlt := h.stored_lt x
        show x ∈ List.range' _ _ ++ _ ↔ x < m.entryCount + m.entryCount / 2 ∧ ¬ m.Stored x
        rw [List.mem_append, List.mem_range'_1, h.free_iff]
        by_cases hx : m.Stored x
        · have := hlt hx
          simp only [hx, not_true_eq_false, and_false, or_false, iff_false]
          omega
        · simp only [hx, not_false_eq_true, and_true]
          omega
      stored_lt := fun x hx => (h.stored_lt x hx).trans_le (Nat.le_add_right _ _)
      card := by
        have hcard := h.card
        simp only [CuckooMap.expandEntries, List.length_append, List.length_range']
        omega
      two_le := htwo.trans (Nat.le_add_right _ _) }
  · ext e
    exact exists_congr fun x => and_congr_right fun hx => by rw [hentry x hx]
  · intro hnil
    have hlen := congrArg List.length hnil
    simp only [CuckooMap.expandEntries, List.length_append, List.length_range',
      List.length_nil] at hlen
    omega

theorem WF.withFreeIndex (h : m.WF H) : m.withFreeIndex.WF H ∧
    m.withFreeIndex.content = m.content ∧ m.withFreeIndex.freeEntryIndices ≠ [] := by
  rw [CuckooMap.withFreeIndex]
  split_ifs with hempty
  · exact h.expandEntries
  · exact ⟨h, rfl, fun hnil => hempty (by rw [hnil]; rfl)⟩

theorem occ_withFreeIndex (m : CuckooMap K V) : m.withFreeIndex.occ = m.occ := by
  rw [withFreeIndex]
  split_ifs <;> rfl

theorem home_withFreeIndex (m : CuckooMap K V) : Home H m.withFreeIndex = Home H m := by
  rw [withFreeIndex]
  split_ifs <;> rfl

end Values

/-- The writes of `EmplaceInBucket` for the slot `p` and the free index `idx`. -/
def putIn (H : KeyHash K κ) (m : CuckooMap K V) (p : ℕ × Fin 4) (idx : ℕ) (k : K) (v : V) :
    CuckooMap K V :=
  { m.setSlot p (H.hash k) idx with
    entries := Function.update m.entries idx (k, v)
    freeEntryIndices := m.freeEntryIndices.tail
    numEntries := m.numEntries + 1 }

theorem occ_putIn (m : CuckooMap K V) (p : ℕ × Fin 4) (idx : ℕ) (k : K) (v : V) :
    (m.putIn H p idx k v).occ = Function.update m.occ p (some idx) :=
  (occ_setSlot m p _ _).trans (by rw [if_neg (H.hash_ne_zero k)])

theorem stored_putIn (hp : m.occ p = none) :
    (m.putIn H p x k v).Stored y ↔ y = x ∨ m.Stored y := by
  rw [Stored, occ_putIn, holds_put hp, Stored]

theorem entries_putIn_self (m : CuckooMap K V) (p : ℕ × Fin 4) (x : ℕ) (k : K) (v : V) :
    (m.putIn H p x k v).entries x = (k, v) :=
  Function.update_self ..

theorem entries_putIn (m : CuckooMap K V) (p : ℕ × Fin 4) (k : K) (v : V) (hy : y ≠ x) :
    (m.putIn H p x k v).entries y = m.entries y :=
  Function.update_of_ne hy _ _

/-- A free index can be given to an entry with a new key, in a free slot of one of its buckets. -/
theorem WF.putIn (h : m.WF H) {idx : ℕ} {free : List ℕ} (hfree : m.freeEntryIndices = idx :: free)
    (hp : m.occ p = none) (hhome : Home H m k p.1)
    (hnew : ∀ e ∈ m.content, H.key e.1 ≠ H.key k) : (m.putIn H p idx k v).WF H := by
  have hnodup := h.free_nodup
  rw [hfree, List.nodup_cons] at hnodup
  have hidx := (h.free_iff idx).1 (by rw [hfree]; exact List.mem_cons_self)
  have hne : ∀ {y}, m.Stored y → y ≠ idx := fun hy hyi => hidx.2 (hyi ▸ hy)
  exact {
    pow := h.pow
    mask := h.mask
    home := fun r y hr => by
      rw [occ_putIn, Function.update_apply] at hr
      split_ifs at hr with hrp
      · cases hr
        rw [entries_putIn_self, hrp]
        exact hhome
      · rw [entries_putIn m p k v (hne ⟨r, hr⟩)]
        exact h.home r y hr
    hash := fun r y hr => by
      rw [occ_putIn, Function.update_apply] at hr
      split_ifs at hr with hrp
      · cases hr
        rw [entries_putIn_self]
        exact (hashValues_setSlot m p r _ _).trans (if_pos hrp)
      · rw [entries_putIn m p k v (hne ⟨r, hr⟩), ← h.hash r y hr]
        exact (hashValues_setSlot m p r _ _).trans (if_neg hrp)
    once := by
      rw [occ_putIn]
      exact h.once.put hidx.2
    keys := fun y z hy hz hk => by
      rcases (stored_putIn hp).1 hy with rfl | hy' <;>
        rcases (stored_putIn hp).1 hz with rfl | hz'
      · rfl
      · rw [entries_putIn_self, entries_putIn m p k v (hne hz')] at hk
        exact absurd hk.symm (hnew _ ⟨z, hz', rfl⟩)
      · rw [entries_putIn_self, entries_putIn m p k v (hne hy')] at hk
        exact absurd hk (hnew _ ⟨y, hy', rfl⟩)
      · rw [entries_putIn m p k v (hne hy'), entries_putIn m p k v (hne hz')] at hk
        exact h.keys y z hy' hz' hk
    free_nodup := by
      show m.freeEntryIndices.tail.Nodup
      rw [hfree]
      exact hnodup.2
    free_iff := fun y => by
      have hy := h.free_iff y
      rw [stored_putIn hp, not_or]
      show y ∈ m.freeEntryIndices.tail ↔ y < m.entryCount ∧ _
      rw [hfree, List.mem_cons] at hy
      rw [hfree, List.tail_cons]
      constructor
      · intro hmem
        have hlt := hy.1 (.inr hmem)
        exact ⟨hlt.1, fun hyi => hnodup.1 (hyi ▸ hmem), hlt.2⟩
      · rintro ⟨hlt, hyi, hns⟩
        exact (hy.2 ⟨hlt, hns⟩).resolve_left hyi
    stored_lt := fun y hy => by
      rcases (stored_putIn hp).1 hy with rfl | hy
      exacts [hidx.1, h.stored_lt y hy]
    card := by
      have hcard := h.card
      rw [hfree, List.length_cons] at hcard
      show m.numEntries + 1 + m.freeEntryIndices.tail.length = m.entryCount
      rw [hfree, List.tail_cons]
      omega
    two_le := h.two_le }

theorem WF.content_putIn (h : m.WF H) {idx : ℕ} (hidx : idx ∈ m.freeEntryIndices)
    (hp : m.occ p = none) : (m.putIn H p idx k v).content = Insert.insert (k, v) m.content := by
  have hne : ∀ {y}, m.Stored y → y ≠ idx := fun hy hyi =>
    ((h.free_iff idx).1 hidx).2 (hyi ▸ hy)
  ext e
  constructor
  · rintro ⟨y, hy, rfl⟩
    rcases (stored_putIn hp).1 hy with rfl | hy
    · exact .inl (entries_putIn_self ..)
    · exact .inr ⟨y, hy, (entries_putIn m p k v (hne hy)).symm⟩
  · rintro (rfl | ⟨y, hy, rfl⟩)
    · exact ⟨idx, (stored_putIn hp).2 (.inl rfl), entries_putIn_self ..⟩
    · exact ⟨y, (stored_putIn hp).2 (.inr hy), entries_putIn m p k v (hne hy)⟩

section Values

variable [Inhabited K] [Inhabited V]

/-- **`EmplaceInBucket`** adds the entry, when the bucket has a free slot. -/
theorem WF.of_emplaceInBucket (h : m.WF H) (hhome : Home H m k b)
    (hnew : ∀ e ∈ m.content, H.key e.1 ≠ H.key k)
    (he : m.emplaceInBucket H b k v = some (m', x)) :
    m'.WF H ∧ m'.content = Insert.insert (k, v) m.content ∧ m'.Stored x ∧
      m'.entries x = (k, v) := by
  obtain ⟨i, hi, heq⟩ := Option.map_eq_some_iff.1 he
  obtain ⟨hwf, hcontent, hfree⟩ := h.withFreeIndex
  obtain ⟨idx, free, hcons⟩ := List.exists_cons_of_ne_nil hfree
  have hp : m.withFreeIndex.occ (b, i) = none := by
    rw [occ_withFreeIndex]
    exact findEmptySlot_eq_some hi
  have hhead : m.withFreeIndex.freeEntryIndices.headD 0 = idx := by rw [hcons]; rfl
  simp only [hhead] at heq
  obtain ⟨rfl, rfl⟩ := Prod.mk.inj heq
  refine ⟨hwf.putIn hcons hp (home_withFreeIndex (H := H) m ▸ hhome) (hcontent.symm ▸ hnew), ?_,
    (stored_putIn hp).2 (.inl rfl), entries_putIn_self ..⟩
  rw [← hcontent]
  exact hwf.content_putIn (hcons ▸ List.mem_cons_self) hp

theorem emplaceInBucket_eq_none_iff :
    m.emplaceInBucket H b k v = none ↔ ∀ i, m.occ (b, i) ≠ none := by
  rw [emplaceInBucket, Option.map_eq_none_iff, findEmptySlot_eq_none_iff]

end Values

end Backdraft.CuckooMap

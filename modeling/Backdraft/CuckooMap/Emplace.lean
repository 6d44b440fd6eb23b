import Backdraft.CuckooMap.MakeSpace

/-!
# Insertion into the cuckoo map

`DoEmplace` gives a stored key its new value, or adds the entry, or reports that it could not.  It
returns in every case: a rebuild inserts the entries one by one into a new table, and a rebuild
within one of these insertions has fewer entries to insert.

* `mem_toList`, `pairwise_toList`, `length_toList`: the iterator gives each entry once;
* `Inserted`: what an insertion does;
* `WF.exists_doEmplace`: with fuel for more levels than there are entries it returns, and does this.
-/

namespace Backdraft.CuckooMap

open Placement

variable {K V κ : Type*} {H : KeyHash K κ} {m m' : CuckooMap K V} {x b : ℕ} {i : Fin 4} {k : K}
  {v : V} {e : K × V}

/-! ### The iterator -/

theorem WF.bucketOf_lt (h : m.WF H) (hash : BitVec 32) : m.bucketOf hash < m.bucketCount := by
  obtain ⟨n, hn⟩ := h.pow
  have hpos : 0 < m.bucketCount := hn ▸ Nat.two_pow_pos n
  calc m.bucketOf hash = hash.toNat &&& m.bucketMask.toNat := BitVec.toNat_and ..
    _ ≤ m.bucketMask.toNat := Nat.and_le_right
    _ = (m.bucketCount - 1) % 2 ^ 32 := by rw [h.mask, BitVec.toNat_ofNat]
    _ ≤ m.bucketCount - 1 := Nat.mod_le _ _
    _ < m.bucketCount := by omega

theorem WF.home_lt (h : m.WF H) (hb : Home H m k b) : b < m.bucketCount := by
  rcases hb with rfl | rfl <;> exact h.bucketOf_lt _

theorem WF.mem_toList (h : m.WF H) : e ∈ m.toList ↔ e ∈ m.content := by
  simp only [toList, indices, List.mem_map, List.mem_filterMap, content, Set.mem_ofPred_eq]
  refine exists_congr fun x => and_congr_left' ?_
  constructor
  · rintro ⟨p, -, hp⟩
    exact ⟨p, hp⟩
  · rintro ⟨p, hp⟩
    have hlt := h.home_lt (h.home p x hp)
    exact ⟨p, List.pair_mem_product.2 ⟨List.mem_range.2 hlt, List.mem_finRange _⟩, hp⟩

/-- The entries of the iterator have different keys. -/
theorem WF.pairwise_toList (h : m.WF H) :
    m.toList.Pairwise fun e e' => H.key e.1 ≠ H.key e'.1 := by
  have hcells : ((List.range m.bucketCount) ×ˢ List.finRange 4).Nodup :=
    List.nodup_range.product (List.nodup_finRange 4)
  rw [toList, List.pairwise_map, indices, List.pairwise_filterMap]
  refine hcells.imp fun {p q} hpq x hx y hy hk => hpq ?_
  rw [h.keys x y ⟨p, hx⟩ ⟨q, hy⟩ hk] at hx
  exact h.once p q y hx hy

theorem WF.length_toList (h : m.WF H) : m.toList.length = m.numEntries := by
  classical
  have hnodup : m.toList.Nodup := h.pairwise_toList.imp fun hk he => hk (by rw [he])
  have hset : m.content = ↑m.toList.toFinset := by
    ext e
    rw [List.coe_toFinset, Set.mem_ofPred_eq, h.mem_toList]
  have hcount := h.count_eq
  rw [hset, Set.ncard_coe_finset, List.toFinset_card_of_nodup hnodup] at hcount
  exact hcount.symm

/-- A full bucket has four entries. -/
theorem WF.four_le_count (h : m.WF H) (hfull : m.Full b) : 4 ≤ m.count := by
  choose idx hidx using fun i => Option.ne_none_iff_exists'.1 (hfull i)
  have hinj : Function.Injective fun i => m.entries (idx i) := by
    intro i j hij
    have hidxs : idx i = idx j := h.keys _ _ ⟨_, hidx i⟩ ⟨_, hidx j⟩ (congrArg (H.key ·.1) hij)
    exact (Prod.mk.inj (h.once _ _ _ (hidx i) (hidxs ▸ hidx j))).2
  calc 4 = (Set.range fun i => m.entries (idx i)).ncard := by
        rw [← Set.image_univ, hinj.injOn.ncard_image, Set.ncard_univ, Nat.card_eq_fintype_card,
          Fintype.card_fin]
    _ ≤ m.content.ncard := by
        refine Set.ncard_le_ncard ?_ h.content_finite
        rintro e ⟨i, rfl⟩
        exact ⟨idx i, ⟨_, hidx i⟩, rfl⟩
    _ = m.count := h.count_eq.symm

/-! ### A new key -/

/-- What an attempt to add the entry `(k, v)` does when no key is equal to `k`. -/
structure Emplaced (H : KeyHash K κ) (m : CuckooMap K V) (k : K) (v : V) (m' : CuckooMap K V)
    (r : Option ℕ) : Prop where
  wf : m'.WF H
  content : m'.content = if r.isSome then Insert.insert (k, v) m.content else m.content
  entry : ∀ x ∈ r, m'.entries x = (k, v)
  full : r = none → ∃ b, Home H m' k b ∧ m'.Full b

/-- No stored key is equal to `k`. -/
def Fresh (H : KeyHash K κ) (m : CuckooMap K V) (k : K) : Prop :=
  ∀ e ∈ m.content, H.key e.1 ≠ H.key k

theorem Emplaced.trans {m₁ : CuckooMap K V} {r : Option ℕ} (hcontent : m₁.content = m.content)
    (h : Emplaced H m₁ k v m' r) : Emplaced H m k v m' r :=
  ⟨h.wf, hcontent ▸ h.content, h.entry, h.full⟩

section Values

variable [Inhabited K] [Inhabited V]

theorem WF.emplaced_of_emplaceInBucket (h : m.WF H) (hb : Home H m k b) (hnew : Fresh H m k)
    (he : m.emplaceInBucket H b k v = some (m', x)) : Emplaced H m k v m' (some x) := by
  obtain ⟨hwf, hcontent, -, hentry⟩ := h.of_emplaceInBucket hb hnew he
  refine ⟨hwf, by rw [hcontent]; rfl, fun y hy => ?_, nofun⟩
  cases hy
  exact hentry

/-- With a free slot in one of the two buckets no entry is displaced. -/
theorem WF.exists_emplaceEntry_of_free (h : m.WF H) (hnew : Fresh H m k) (hb : Home H m k b)
    (hfree : m.occ (b, i) = none) (fuel : ℕ) :
    ∃ m' r, m.emplaceEntry H (fuel + 1) k v = some (m', r) ∧ Emplaced H m k v m' r := by
  rw [emplaceEntry]
  cases hpri : m.emplaceInBucket H (m.bucketOf (H.hash k)) k v with
  | some r => exact ⟨r.1, some r.2, rfl, h.emplaced_of_emplaceInBucket (.inl rfl) hnew hpri⟩
  | none =>
    cases hsec : m.emplaceInBucket H (m.bucketOf (hashSecondary (H.hash k))) k v with
    | some r => exact ⟨r.1, some r.2, rfl, h.emplaced_of_emplaceInBucket (.inr rfl) hnew hsec⟩
    | none =>
      rw [emplaceInBucket_eq_none_iff] at hpri hsec
      rcases hb with rfl | rfl
      exacts [absurd hfree (hpri i), absurd hfree (hsec i)]

/-- A slot that `MakeSpace` has freed is taken by the next attempt. -/
theorem WF.exists_emplaceEntry_of_freed (hnew : Fresh H m k) (hb : Home H m k b)
    (hfreed : Freed H m b i m') (fuel : ℕ) :
    ∃ m'' r, m'.emplaceEntry H (fuel + 1) k v = some (m'', r) ∧ Emplaced H m k v m'' r := by
  have hnew' : Fresh H m' k := fun e he => hnew e (hfreed.content ▸ he)
  have hb' : Home H m' k b := by rwa [home_of_frame hfreed.mask]
  obtain ⟨m'', r, he, hr⟩ :=
    hfreed.wf.exists_emplaceEntry_of_free (v := v) hnew' hb' hfreed.free fuel
  exact ⟨m'', r, he, hr.trans hfreed.content⟩

/-- **`EmplaceEntry`** jumps back at most once. -/
theorem WF.exists_emplaceEntry (h : m.WF H) (hnew : Fresh H m k) (fuel : ℕ) :
    ∃ m' r, m.emplaceEntry H (fuel + 2) k v = some (m', r) ∧ Emplaced H m k v m' r := by
  by_cases hfree : ∃ b i, Home H m k b ∧ m.occ (b, i) = none
  · obtain ⟨b, i, hb, hi⟩ := hfree
    exact h.exists_emplaceEntry_of_free hnew hb hi _
  · have hfull : ∀ b, Home H m k b → m.Full b := fun b hb i hi => hfree ⟨b, i, hb, hi⟩
    rw [emplaceEntry, emplaceInBucket_eq_none_iff.2 (hfull _ (.inl rfl)),
      emplaceInBucket_eq_none_iff.2 (hfull _ (.inr rfl))]
    dsimp only
    cases hpri : (m.makeSpace H maxCuckooPath (m.bucketOf (H.hash k))).2 with
    | some i =>
      rw [if_pos Option.isSome_some]
      exact WF.exists_emplaceEntry_of_freed hnew (.inl rfl)
        (h.freed_makeSpace (hfull _ (.inl rfl)) (Prod.ext rfl hpri)) fuel
    | none =>
      rw [if_neg nofun, makeSpace_eq_none _ _ _ hpri]
      cases hsec : (m.makeSpace H maxCuckooPath (m.bucketOf (hashSecondary (H.hash k)))).2 with
      | some i =>
        rw [if_pos Option.isSome_some]
        exact WF.exists_emplaceEntry_of_freed hnew (.inr rfl)
          (h.freed_makeSpace (hfull _ (.inr rfl)) (Prod.ext rfl hsec)) fuel
      | none =>
        rw [if_neg nofun, makeSpace_eq_none _ _ _ hsec]
        exact ⟨m, none, rfl, h, rfl, nofun, fun _ => ⟨_, .inl rfl, hfull _ (.inl rfl)⟩⟩

/-- The trials of `DoEmplace`, when a rebuild returns and keeps the entries. -/
theorem WF.exists_emplaceTrials {expand : CuckooMap K V → Option (CuckooMap K V)}
    (hexpand : ∀ m₁ : CuckooMap K V, m₁.WF H → m₁.content = m.content →
      ∃ m₂, expand m₁ = some m₂ ∧ m₂.WF H ∧ m₂.content = m.content)
    (hnew : Fresh H m k) (n : ℕ) {m₁ : CuckooMap K V} (h₁ : m₁.WF H)
    (hcontent : m₁.content = m.content) :
    ∃ m' r, m₁.emplaceTrials H expand (n + 1) k v = some (m', r) ∧ Emplaced H m k v m' r := by
  induction n generalizing m₁ with
  | zero =>
    have hnew₁ : Fresh H m₁ k := fun e he => hnew e (hcontent ▸ he)
    obtain ⟨m', r, he, hr⟩ := h₁.exists_emplaceEntry (v := v) hnew₁ 0
    rw [emplaceTrials, he]
    cases r with
    | some idx => exact ⟨m', some idx, rfl, hr.trans hcontent⟩
    | none => exact ⟨m', none, rfl, hr.trans hcontent⟩
  | succ n ih =>
    have hnew₁ : Fresh H m₁ k := fun e he => hnew e (hcontent ▸ he)
    obtain ⟨m', r, he, hr⟩ := h₁.exists_emplaceEntry (v := v) hnew₁ 0
    have hr' := hr.trans hcontent
    rw [emplaceTrials, he]
    cases r with
    | some idx => exact ⟨m', some idx, rfl, hr'⟩
    | none =>
      obtain ⟨m₂, hm₂, hwf₂, hcontent₂⟩ := hexpand m' hr'.wf hr'.content
      obtain ⟨m₃, r₃, he₃, hr₃⟩ := ih hwf₂ hcontent₂
      refine ⟨m₃, r₃, ?_, hr₃⟩
      simp only [Option.bind_some, if_neg (Nat.succ_ne_zero n), hm₂, he₃]

end Values

/-! ### Insertion -/

/-- What an insertion of `(k, v)` does.  A stored key stays and gets the new value. -/
structure Inserted (H : KeyHash K κ) (m : CuckooMap K V) (k : K) (v : V) (m' : CuckooMap K V)
    (r : Option ℕ) : Prop where
  wf : m'.WF H
  /-- on success -/
  content : ∀ x ∈ r, m'.entries x = (((m.find H k).map Prod.fst).getD k, v) ∧
    m'.content = Insert.insert (m'.entries x) {e ∈ m.content | H.key e.1 ≠ H.key k}
  /-- on failure -/
  refused : r = none → m'.content = m.content ∧ Fresh H m k ∧
    ∃ b, Home H m' k b ∧ m'.Full b

theorem Fresh.sep_content (hnew : Fresh H m k) :
    {e ∈ m.content | H.key e.1 ≠ H.key k} = m.content :=
  Set.ext fun e => ⟨fun he => he.1, fun he => ⟨he, hnew e he⟩⟩

theorem Emplaced.inserted (h : m.WF H) (hnew : Fresh H m k) {r : Option ℕ}
    (he : Emplaced H m k v m' r) : Inserted H m k v m' r where
  wf := he.wf
  content := by
    rintro x hx
    have hcontent := he.content
    rw [Option.mem_def.1 hx] at hcontent
    rw [he.entry x hx, h.find_eq_none_iff.2 hnew, hnew.sep_content]
    exact ⟨rfl, hcontent⟩
  refused := by
    rintro rfl
    exact ⟨he.content, hnew, he.full rfl⟩

/-- The write to an entry that is there. -/
theorem WF.inserted_setValue (h : m.WF H) (hx : m.Stored x)
    (hk : H.key (m.entries x).1 = H.key k) : Inserted H m k v (m.setValue x v) (some x) where
  wf := h.setValue x v
  content := by
    rintro y hy
    cases hy
    have hentry : (m.setValue x v).entries x = ((m.entries x).1, v) := Function.update_self ..
    rw [hentry, h.find_eq_some_iff.2 ⟨⟨x, hx, rfl⟩, hk⟩]
    refine ⟨rfl, Set.ext fun e => ?_⟩
    rw [h.mem_content_setValue hx, hk]
    rfl
  refused := nofun

/-- The entries of the old table, put one by one in the new one. -/
theorem WF.exists_refill {moved : V → V} (hmoved : ∀ v, moved v = v)
    {emplace : CuckooMap K V → K → V → Option (CuckooMap K V × Option ℕ)}
    {n : ℕ} (hemplace : ∀ (m : CuckooMap K V) (k : K) (v : V), m.WF H → m.numEntries < n →
      ∃ m' r, emplace m k v = some (m', r) ∧ Inserted H m k v m' r) (old : CuckooMap K V)
    (xs : List ℕ) (hxs : (xs.map old.entries).Pairwise fun e e' => H.key e.1 ≠ H.key e'.1)
    (h : m.WF H) (hnew : ∀ x ∈ xs, Fresh H m (old.entries x).1)
    (hn : m.numEntries + xs.length ≤ n) :
    ∃ r, refill moved emplace xs old m = some (old, r) ∧
      ∀ m' ∈ r, m'.WF H ∧ m'.content = m.content ∪ {e | e ∈ xs.map old.entries} := by
  induction xs generalizing m with
  | nil =>
    refine ⟨some m, rfl, fun m' hm' => ?_⟩
    cases hm'
    exact ⟨h, by simp⟩
  | cons x xs ih =>
    rw [List.map_cons, List.pairwise_cons] at hxs
    rw [List.length_cons] at hn
    obtain ⟨m₁, r, he, hr⟩ := hemplace m (old.entries x).1 (old.entries x).2 h (by omega)
    rw [refill, he, Option.bind_some, hmoved, setValue_self]
    cases r with
    | none => exact ⟨none, rfl, nofun⟩
    | some y =>
      have hfresh := hnew x List.mem_cons_self
      obtain ⟨hentry, hcontent⟩ := hr.content y rfl
      rw [h.find_eq_none_iff.2 hfresh] at hentry
      rw [hentry, hfresh.sep_content] at hcontent
      have hcontent' : m₁.content = Insert.insert (old.entries x) m.content := hcontent
      have hcount : m₁.numEntries = m.numEntries + 1 := by
        have hcount₁ := hr.wf.count_eq
        rwa [hcontent', Set.ncard_insert_of_notMem (fun hmem => hfresh _ hmem rfl)
          h.content_finite, ← h.count_eq] at hcount₁
      have hnew₁ : ∀ x' ∈ xs, Fresh H m₁ (old.entries x').1 := by
        intro x' hx' e he'
        rw [hcontent'] at he'
        rcases he' with rfl | he'
        exacts [hxs.1 _ (List.mem_map_of_mem hx'), hnew x' (List.mem_cons_of_mem x hx') e he']
      obtain ⟨r', hr', hspec⟩ := ih hxs.2 hr.wf hnew₁ (by omega)
      refine ⟨r', hr', fun m' hm' => ⟨(hspec m' hm').1, ?_⟩⟩
      rw [(hspec m' hm').2, hcontent']
      ext e'
      simp only [Set.mem_union, Set.mem_ofPred_eq, List.map_cons, List.mem_cons]
      exact ⟨fun hmem => hmem.elim (fun hins => hins.elim (fun he => .inr (.inl he)) .inl)
        fun he => .inr (.inr he), fun hmem => hmem.elim (fun hc => .inl (.inr hc))
        fun hc => hc.elim (fun he => .inl (.inl he)) .inr⟩

section Values

variable [Inhabited K] [Inhabited V]

/-- **`ExpandBuckets`** keeps the entries. -/
theorem WF.exists_expandBuckets {moved : V → V} (hmoved : ∀ v, moved v = v)
    {emplace : CuckooMap K V → K → V → Option (CuckooMap K V × Option ℕ)} {n : ℕ}
    (hemplace : ∀ (m : CuckooMap K V) (k : K) (v : V), m.WF H → m.numEntries < n →
      ∃ m' r, emplace m k v = some (m', r) ∧ Inserted H m k v m' r)
    (h : m.WF H) (hn : m.numEntries ≤ n) :
    ∃ m', expandBuckets moved emplace m = some m' ∧ m'.WF H ∧ m'.content = m.content := by
  obtain ⟨a, ha⟩ := h.pow
  have hnewmap : (new (m.bucketCount * 2) m.entryCount : CuckooMap K V).WF H := by
    rw [ha, ← pow_succ]
    exact wf_new (a + 1) h.two_le
  have hfresh : ∀ x ∈ m.indices,
      Fresh H (new (m.bucketCount * 2) m.entryCount : CuckooMap K V) (m.entries x).1 := by
    intro x _ e he
    rw [content_new] at he
    exact absurd he (Set.notMem_empty e)
  have hlen : (new (m.bucketCount * 2) m.entryCount : CuckooMap K V).numEntries + m.indices.length
      ≤ n := by
    rw [← m.indices.length_map m.entries, ← toList, h.length_toList]
    show 0 + _ ≤ n
    omega
  obtain ⟨r, hr, hspec⟩ :=
    WF.exists_refill hmoved hemplace m m.indices h.pairwise_toList hnewmap hfresh hlen
  refine ⟨r.getD m, by rw [expandBuckets, hr, Option.map_some], ?_⟩
  cases r with
  | none => exact ⟨h, rfl⟩
  | some m' =>
    obtain ⟨hwf, hcontent⟩ := hspec m' rfl
    refine ⟨hwf, ?_⟩
    rw [Option.getD_some, hcontent, content_new, Set.empty_union]
    exact Set.ext fun e => h.mem_toList

/-- **`DoEmplace` returns.**  The fuel is for the rebuilds within rebuilds. -/
theorem WF.exists_doEmplace {moved : V → V} (hmoved : ∀ v, moved v = v) (fuel : ℕ) (h : m.WF H)
    (hfuel : m.numEntries < fuel) :
    ∃ m' r, m.doEmplace H moved fuel k v = some (m', r) ∧ Inserted H m k v m' r := by
  induction fuel generalizing m k v with
  | zero => exact absurd hfuel (Nat.not_lt_zero _)
  | succ fuel ih =>
    rw [doEmplace]
    cases hfind : m.findWithHash H (H.hash k) k with
    | some x =>
      obtain ⟨hx, hk⟩ := h.findWithHash_eq_some_iff.1 hfind
      exact ⟨m.setValue x v, some x, rfl, h.inserted_setValue hx hk⟩
    | none =>
      have hnew : Fresh H m k := h.find_eq_none_iff.1 (findWithHash_eq_none_iff.1 hfind)
      have hexpand : ∀ m₁ : CuckooMap K V, m₁.WF H → m₁.content = m.content →
          ∃ m₂, expandBuckets moved (doEmplace H moved fuel) m₁ = some m₂ ∧ m₂.WF H ∧
            m₂.content = m.content := by
        intro m₁ h₁ hcontent
        have hcount : m₁.numEntries = m.numEntries := by
          have hcount₁ := h₁.count_eq
          rwa [hcontent, ← h.count_eq] at hcount₁
        obtain ⟨m₂, hm₂, hwf₂, hcontent₂⟩ := h₁.exists_expandBuckets hmoved
          (fun m k v hm hlt => ih (k := k) (v := v) hm hlt) (by omega)
        exact ⟨m₂, hm₂, hwf₂, hcontent₂.trans hcontent⟩
      obtain ⟨m', r, he, hr⟩ := WF.exists_emplaceTrials (v := v) hexpand hnew 2 h rfl
      exact ⟨m', r, he, hr.inserted h hnew⟩

end Values

end Backdraft.CuckooMap

import Backdraft.CuckooMap.Refinement
import Backdraft.Lib.HashTable

/-!
# The keys that a cuckoo map refuses

An entry lies in one of two buckets of four slots, so a map never holds more than eight keys with
one hash, however often it is rebuilt.  But for its refusals a cuckoo map is a finite map: with the
right answers a `HashTable` finds what it finds.

* `WF.ncard_hash_le`: at most eight entries have keys with a given hash;
* `Represents.refuses_of_eight`: the insertion of a ninth key is refused;
* `Stands`: the map finds what a table of keys and values has;
* `Stands.exists_run`: for every sequence of calls there are answers with which a `HashTable` has
  at the end what the map finds;
* `Owner`, `Owner.exists_answers`: the same along the steps of a component that keeps a table.
-/

namespace Backdraft.CuckooMap

variable {K V κ : Type*} {H : KeyHash K κ} {m m' : CuckooMap K V} {f : κ → Option (K × V)} {k : K}
  {v : V}

/-! ### Nine keys of one hash -/

theorem WF.ncard_hash_le (h : m.WF H) (p : BitVec 32) :
    {e ∈ m.content | H.hash e.1 = p}.ncard ≤ 8 := by
  classical
  -- the slots of the two buckets
  let cells : Finset (ℕ × Fin 4) :=
    {m.bucketOf p, m.bucketOf (hashSecondary p)} ×ˢ Finset.univ
  let entryAt : ℕ × Fin 4 → K × V := fun c => m.entries ((m.occ c).getD 0)
  have hsub : {e ∈ m.content | H.hash e.1 = p} ⊆ ↑(cells.image entryAt) := by
    rintro e ⟨⟨x, ⟨c, hc⟩, rfl⟩, rfl⟩
    refine Finset.mem_coe.2
      (Finset.mem_image.2 ⟨c, Finset.mem_product.2 ⟨?_, Finset.mem_univ _⟩, ?_⟩)
    · rcases h.home c x hc with hb | hb <;> simp [hb]
    · simp only [entryAt, hc, Option.getD_some]
  calc {e ∈ m.content | H.hash e.1 = p}.ncard
      ≤ (↑(cells.image entryAt) : Set (K × V)).ncard :=
        Set.ncard_le_ncard hsub (Finset.finite_toSet _)
    _ = (cells.image entryAt).card := Set.ncard_coe_finset _
    _ ≤ cells.card := Finset.card_image_le
    _ ≤ 2 * 4 := by
        rw [Finset.card_product, Finset.card_univ, Fintype.card_fin]
        exact Nat.mul_le_mul_right 4 Finset.card_le_two
    _ = 8 := rfl

/-- Keys of one hash that are all in the map. -/
theorem Represents.length_le (h : Represents H m f) {ks : List K} (hnodup : (ks.map H.key).Nodup)
    {p : BitVec 32} (hks : ∀ k ∈ ks, H.hash k = p ∧ f (H.key k) ≠ none) : ks.length ≤ 8 := by
  classical
  have hsub : (↑(ks.map H.key).toFinset : Set κ) ⊆
      (fun e : K × V => H.key e.1) '' {e ∈ m.content | H.hash e.1 = p} := by
    intro c hc
    obtain ⟨k, hk, rfl⟩ := List.mem_map.1 (List.mem_toFinset.1 (Finset.mem_coe.1 hc))
    obtain ⟨hhash, hsome⟩ := hks k hk
    obtain ⟨e, he⟩ := Option.ne_none_iff_exists'.1 hsome
    obtain ⟨hmem, hkey⟩ := (h.apply_eq_some_iff _ _).1 he
    exact ⟨e, ⟨hmem, (H.hash_eq hkey).trans hhash⟩, hkey⟩
  have hfinite : {e ∈ m.content | H.hash e.1 = p}.Finite :=
    h.wf.content_finite.subset fun e he => he.1
  calc ks.length = (ks.map H.key).toFinset.card := by
        rw [List.toFinset_card_of_nodup hnodup, List.length_map]
    _ = (↑(ks.map H.key).toFinset : Set κ).ncard := (Set.ncard_coe_finset _).symm
    _ ≤ _ := Set.ncard_le_ncard hsub (hfinite.image _)
    _ ≤ _ := Set.ncard_image_le hfinite
    _ ≤ 8 := h.wf.ncard_hash_le p

variable [DecidableEq κ] [Inhabited K] [Inhabited V] {moved : V → V}

/-- **A ninth key is refused.** -/
theorem Represents.refuses_of_eight (hmoved : ∀ v, moved v = v) (h : Represents H m f)
    {ks : List K} (hlen : 8 ≤ ks.length) (hnodup : (ks.map H.key).Nodup)
    (hks : ∀ k' ∈ ks, H.hash k' = H.hash k ∧ f (H.key k') ≠ none) (hk : f (H.key k) = none)
    (v : V) : ∃ m', m.insert H moved k v = some (m', none) := by
  obtain ⟨m', r, he, hins⟩ :=
    h.wf.exists_doEmplace (k := k) (v := v) hmoved (m.numEntries + 1) (Nat.lt_succ_self _)
  cases r with
  | none => exact ⟨m', he⟩
  | some x =>
    -- the map would hold nine keys of one hash
    obtain ⟨-, hrep⟩ := h.inserted hins
    have hne : ∀ k' ∈ ks, H.key k' ≠ H.key k := by
      intro k' hk' heq
      exact (hks k' hk').2 (heq ▸ hk)
    have hnine : ((k :: ks).map H.key).Nodup :=
      List.nodup_cons.2 ⟨fun hmem => by
        obtain ⟨k', hk', heq⟩ := List.mem_map.1 hmem
        exact hne k' hk' heq, hnodup⟩
    have hle := hrep.length_le hnine (p := H.hash k) (List.forall_mem_cons.2
      ⟨⟨rfl, by simp⟩, fun k' hk' => ⟨(hks k' hk').1, by
        rw [Function.update_of_ne (hne k' hk')]; exact (hks k' hk').2⟩⟩)
    rw [List.length_cons] at hle
    omega

/-! ### The map as a hash table -/

/-- The map finds the values of the table. -/
def Stands (H : KeyHash K κ) (m : CuckooMap K V) (t : AList fun _ : κ => V) : Prop :=
  ∃ f, Represents H m f ∧ ∀ c, (f c).map Prod.snd = t.lookup c

/-- A call, carried out on a hash table. -/
def Call.apply (H : KeyHash K κ) (t : HashTable κ V) : Call K V → HashTable κ V
  | .insert k v => t.insert (H.key k) v
  | .remove k => t.erase (H.key k)
  | .clear => { t with table := ∅ }
  | _ => t

variable {t : AList fun _ : κ => V}

omit [Inhabited K] [Inhabited V] in
theorem Stands.find_eq (h : Stands H m t) (k : K) :
    (m.find H k).map Prod.snd = t.lookup (H.key k) := by
  obtain ⟨f, hrep, hf⟩ := h
  rw [hrep.find_eq, hf]

theorem stands_new (H : KeyHash K κ) :
    Stands H (new initNumBucket initNumEntries : CuckooMap K V) ∅ :=
  ⟨_, represents_new 2 (by decide), fun _ => rfl⟩

omit [Inhabited K] [Inhabited V] in
/-- With the right answer an insertion does to a hash table what it does to a finite map. -/
theorem exists_apply_insert (H : KeyHash K κ) (t : AList fun _ : κ => V) (k : K) (v : V)
    (rest : ℕ → Bool) :
    ∃ refuses, (Call.insert k v).apply H ⟨t, refuses⟩ = ⟨t.insert (H.key k) v, rest⟩ := by
  cases hlook : t.lookup (H.key k) with
  | some w => exact ⟨rest, if_pos (Option.isSome_iff_exists.2 ⟨w, hlook⟩)⟩
  | none => exact ⟨HashTable.answer false rest, HashTable.insert_answer hlook false rest⟩

section Runs

variable (hmoved : ∀ v, moved v = v)

include hmoved

/-- One call: whatever the answers after it are, with the right one for it the hash table has what
the map finds. -/
theorem Stands.exists_step (h : Stands H m t) (c : Call K V) :
    ∃ m' r t', step H moved m c = some (m', r) ∧ Stands H m' t' ∧
      ∀ rest, ∃ refuses, c.apply H ⟨t, refuses⟩ = ⟨t', rest⟩ := by
  obtain ⟨f, hrep, hf⟩ := h
  obtain ⟨m', r, f', hstep, hmeets, hrep'⟩ := hrep.exists_step hmoved c
  refine ⟨m', r, ?_⟩
  cases hmeets with
  | insert k v =>
    refine ⟨t.insert (H.key k) v, hstep, ⟨_, hrep', fun c => ?_⟩, exists_apply_insert H t k v⟩
    by_cases hc : c = H.key k
    · rw [hc, Function.update_self, AList.lookup_insert]
      rfl
    · rw [Function.update_of_ne hc, AList.lookup_insert_ne hc, hf]
  | refuse k v hnone _ =>
    have habsent : t.lookup (H.key k) = none := by rw [← hf, hnone]; rfl
    exact ⟨t, hstep, ⟨_, hrep', hf⟩, fun rest =>
      ⟨HashTable.answer true rest, HashTable.insert_answer habsent true rest⟩⟩
  | remove k =>
    refine ⟨t.erase (H.key k), hstep, ⟨_, hrep', fun c => ?_⟩, fun rest => ⟨rest, rfl⟩⟩
    by_cases hc : c = H.key k
    · rw [hc, Function.update_self, AList.lookup_erase]
      rfl
    · rw [Function.update_of_ne hc, AList.lookup_erase_ne hc, hf]
  | clear => exact ⟨∅, hstep, ⟨_, hrep', fun _ => rfl⟩, fun rest => ⟨rest, rfl⟩⟩
  | find k => exact ⟨t, hstep, ⟨_, hrep', hf⟩, fun rest => ⟨rest, rfl⟩⟩
  | count => exact ⟨t, hstep, ⟨_, hrep', hf⟩, fun rest => ⟨rest, rfl⟩⟩
  | entries l _ _ => exact ⟨t, hstep, ⟨_, hrep', hf⟩, fun rest => ⟨rest, rfl⟩⟩

/-- A sequence of calls. -/
theorem Stands.exists_run (h : Stands H m t) (cs : List (Call K V)) :
    ∃ m' rs t', run H moved m cs = some (m', rs) ∧ Stands H m' t' ∧
      ∀ rest, ∃ refuses, cs.foldl (Call.apply H) ⟨t, refuses⟩ = ⟨t', rest⟩ := by
  induction cs generalizing m t with
  | nil => exact ⟨m, [], t, rfl, h, fun rest => ⟨rest, rfl⟩⟩
  | cons c cs ih =>
    obtain ⟨m₁, r, t₁, hstep, hstands, hanswer⟩ := h.exists_step hmoved c
    obtain ⟨m', rs, t', hrun, hstands', hrest⟩ := ih hstands
    refine ⟨m', r :: rs, t', by simp [run, hstep, hrun], hstands', fun rest => ?_⟩
    obtain ⟨later, hlater⟩ := hrest rest
    obtain ⟨refuses, happly⟩ := hanswer later
    exact ⟨refuses, by rw [List.foldl_cons, happly, hlater]⟩

end Runs

omit [DecidableEq κ] in
theorem run_append {cs cs' : List (Call K V)} {m₁ : CuckooMap K V} {rs rs' : List (Reply K V)}
    (h : run H moved m cs = some (m₁, rs)) (h' : run H moved m₁ cs' = some (m', rs')) :
    run H moved m (cs ++ cs') = some (m', rs ++ rs') := by
  induction cs generalizing m rs with
  | nil =>
    obtain ⟨rfl, rfl⟩ := Prod.mk.inj (Option.some.inj h)
    exact h'
  | cons c cs ih =>
    simp only [run, Option.bind_eq_bind, Option.bind_eq_some_iff, Option.pure_def,
      Option.some.injEq, Prod.mk.injEq] at h
    obtain ⟨r, hstep, rs₁, hrun, rfl, rfl⟩ := h
    simp [run, hstep, ih hrun]

/-! ### A component with a map -/

/-- A component that keeps a hash table.  Its steps, and the calls it makes, are decided by what the
table has; the answers of the table matter only to the table itself. -/
structure Owner (H : KeyHash K κ) (V S O : Type*) where
  table : S → HashTable κ V
  setTable : S → HashTable κ V → S
  step : S → O → Option S
  calls : S → O → List (Call K V)
  table_setTable : ∀ s T, table (setTable s T) = T
  setTable_setTable : ∀ s T T', setTable (setTable s T) T' = setTable s T'
  calls_setTable : ∀ s o T, T.table = (table s).table → calls (setTable s T) o = calls s o
  step_setTable : ∀ s o T, T.table = (table s).table →
    step (setTable s T) o =
      (step s o).map fun s' => setTable s' ((calls s o).foldl (Call.apply H) T)

namespace Owner

variable {S O : Type*} (A : Owner H V S O) {s s' : S} {o : O}

/-- The component, with other answers of its table. -/
def answering (s : S) (refuses : ℕ → Bool) : S := A.setTable s ⟨(A.table s).table, refuses⟩

omit [Inhabited K] [Inhabited V] in
theorem table_answering (s : S) (refuses : ℕ → Bool) :
    (A.table (A.answering s refuses)).table = (A.table s).table := by
  rw [answering, A.table_setTable]

omit [Inhabited K] [Inhabited V] in
theorem answering_setTable (s : S) (t : AList fun _ : κ => V) (r refuses : ℕ → Bool) :
    A.answering (A.setTable s ⟨t, r⟩) refuses = A.setTable s ⟨t, refuses⟩ := by
  rw [answering, A.table_setTable, A.setTable_setTable]

omit [Inhabited K] [Inhabited V] in
/-- A step with answers that make its calls lead to `T`. -/
theorem step_answering {refuses : ℕ → Bool} {T : HashTable κ V}
    (h : (A.calls s o).foldl (Call.apply H) ⟨(A.table s).table, refuses⟩ = T) :
    A.step (A.answering s refuses) o = (A.step s o).map fun s' => A.setTable s' T := by
  rw [answering, A.step_setTable s o ⟨(A.table s).table, refuses⟩ rfl, h]

/-- The calls of a run. -/
def callsAlong : S → List O → List (Call K V)
  | _, [] => []
  | s, o :: os => A.calls s o ++ ((A.step s o).map fun s' => callsAlong s' os).getD []

/-- **The table of a component can be a cuckoo map.**  For every sequence of steps there are answers
with which, after each of them, the table has what the map finds on which the same calls were
made. -/
theorem exists_answers (hmoved : ∀ v, moved v = v) (h : Stands H m (A.table s).table)
    (os : List O) :
    ∃ refuses, ∀ pre, pre <+: os → ∀ s', pre.foldlM A.step (A.answering s refuses) = some s' →
      ∃ m' rs, run H moved m (A.callsAlong (A.answering s refuses) pre) = some (m', rs) ∧
        Stands H m' (A.table s').table := by
  induction os generalizing m s with
  | nil =>
    refine ⟨fun _ => false, fun pre hpre s' hs' => ?_⟩
    obtain rfl := List.prefix_nil.1 hpre
    obtain rfl := Option.some.inj hs'
    exact ⟨m, [], rfl, by rwa [A.table_answering]⟩
  | cons o os ih =>
    obtain ⟨m₁, rs₁, t₁, hrun, hstands, hanswer⟩ := h.exists_run hmoved (A.calls s o)
    -- the answers after the step are those for the state to which it leads
    obtain ⟨rest, hrest⟩ : ∃ rest, ∀ u, A.step s o = some u → ∀ pre, pre <+: os →
        ∀ s', pre.foldlM A.step (A.setTable u ⟨t₁, rest⟩) = some s' →
          ∃ m' rs, run H moved m₁ (A.callsAlong (A.setTable u ⟨t₁, rest⟩) pre) = some (m', rs) ∧
            Stands H m' (A.table s').table := by
      cases A.step s o with
      | none => exact ⟨fun _ => false, fun u hu => by cases hu⟩
      | some u =>
        obtain ⟨rest, hrest⟩ := ih (m := m₁) (s := A.setTable u ⟨t₁, fun _ => false⟩)
          (by rwa [A.table_setTable])
        simp only [A.answering_setTable] at hrest
        exact ⟨rest, fun u' hu' => Option.some.inj hu' ▸ hrest⟩
    obtain ⟨refuses, happly⟩ := hanswer rest
    refine ⟨refuses, fun pre hpre s' hs' => ?_⟩
    cases pre with
    | nil =>
      obtain rfl := Option.some.inj hs'
      exact ⟨m, [], rfl, by rwa [A.table_answering]⟩
    | cons o' pre =>
      obtain ⟨rfl, htail⟩ := List.cons_prefix_cons.1 hpre
      have hfirst := A.step_answering happly
      have hcalls : A.calls (A.answering s refuses) o' = A.calls s o' :=
        A.calls_setTable s o' _ rfl
      rw [List.foldlM_cons, hfirst] at hs'
      cases hstep : A.step s o' with
      | none => simp [hstep] at hs'
      | some u =>
        rw [hstep] at hs'
        obtain ⟨m', rs, hrun', hstands'⟩ := hrest u hstep pre htail s' hs'
        refine ⟨m', rs₁ ++ rs, ?_, hstands'⟩
        rw [callsAlong, hcalls, hfirst, hstep]
        exact run_append hrun hrun'

end Owner

end Backdraft.CuckooMap

import Backdraft.CuckooMap.Emplace

/-!
# The cuckoo map as a finite map

A map stands for the function that takes what `E` compares of a key to the entry with such a key.
Every call changes it as a finite map is changed, and replies as one; an insertion may be refused,
but only for a key that is not there, when a bucket is full, and then it changes nothing.  This is
for values that a move leaves as they were, as it does pointers and plain structures; of others,
such as strings, a refused rebuild leaves the values empty that it has moved.

* `Represents`: the finite map of a table;
* `Call`, `Reply`, `step`, `run`: the calls of a user, carried out;
* `Meets`: the replies of a finite map;
* `exists_run_new`: every sequence of calls on a new map returns, with such replies.
-/

namespace Backdraft.CuckooMap

variable {K V κ : Type*} {H : KeyHash K κ} {m m' : CuckooMap K V} {f f' : κ → Option (K × V)}
  {k : K} {v : V}

/-- The table `m` stands for the finite map `f`. -/
structure Represents (H : KeyHash K κ) (m : CuckooMap K V) (f : κ → Option (K × V)) : Prop where
  wf : m.WF H
  apply_eq_some_iff : ∀ c e, f c = some e ↔ e ∈ m.content ∧ H.key e.1 = c

theorem Represents.find_eq (h : Represents H m f) (k : K) : m.find H k = f (H.key k) :=
  Option.ext fun e => by rw [h.wf.find_eq_some_iff, h.apply_eq_some_iff]

theorem Represents.count_eq (h : Represents H m f) : m.count = {c | f c ≠ none}.ncard := by
  have himage : {c | f c ≠ none} = (fun e : K × V => H.key e.1) '' m.content := by
    ext c
    simp only [Set.mem_ofPred_eq, Option.ne_none_iff_exists', h.apply_eq_some_iff, Set.mem_image]
  have hinj : Set.InjOn (fun e : K × V => H.key e.1) m.content := fun e he e' he' hk =>
    h.wf.content_unique he he' hk
  rw [himage, hinj.ncard_image, h.wf.count_eq]

/-- The entry that an insertion leaves: a stored key stays. -/
def insertedEntry (H : KeyHash K κ) (f : κ → Option (K × V)) (k : K) (v : V) : K × V :=
  (((f (H.key k)).map Prod.fst).getD k, v)

theorem key_insertedEntry (h : Represents H m f) (k : K) (v : V) :
    H.key (insertedEntry H f k v).1 = H.key k := by
  rw [insertedEntry]
  cases hk : f (H.key k) with
  | none => rfl
  | some e => exact ((h.apply_eq_some_iff _ _).1 hk).2

theorem Represents.refused (h : Represents H m f) (hins : Inserted H m k v m' none) :
    f (H.key k) = none ∧ 4 ≤ {c | f c ≠ none}.ncard ∧ Represents H m' f := by
  obtain ⟨hcontent, hnew, b, -, hfull⟩ := hins.refused rfl
  have hrep : Represents H m' f := ⟨hins.wf, fun c e => by rw [hcontent, h.apply_eq_some_iff]⟩
  refine ⟨?_, hrep.count_eq ▸ hins.wf.four_le_count hfull, hrep⟩
  rw [← h.find_eq, h.wf.find_eq_none_iff.2 hnew]

theorem represents_new [Inhabited K] [Inhabited V] (n : ℕ) {c : ℕ} (hc : 2 ≤ c) :
    Represents H (new (2 ^ n) c : CuckooMap K V) fun _ => none :=
  ⟨wf_new n hc, fun _ e => iff_of_false nofun fun he => by rw [content_new] at he; exact he.1⟩

theorem represents_clear [Inhabited K] [Inhabited V] (m : CuckooMap K V) :
    Represents H m.clear fun _ => none :=
  represents_new 2 (by decide)

variable [DecidableEq κ]

theorem Represents.inserted (h : Represents H m f) {x : ℕ} (hins : Inserted H m k v m' (some x)) :
    m'.entries x = insertedEntry H f k v ∧
      Represents H m' (Function.update f (H.key k) (some (insertedEntry H f k v))) := by
  have hkey := key_insertedEntry h k v
  obtain ⟨hentry, hcontent⟩ := hins.content x rfl
  rw [h.find_eq] at hentry
  rw [hentry] at hcontent
  refine ⟨hentry, hins.wf, fun c e => ?_⟩
  rw [hcontent, Function.update_apply]
  split_ifs with hc
  · subst hc
    constructor
    · intro he
      cases he
      exact ⟨.inl rfl, hkey⟩
    · rintro ⟨rfl | ⟨-, hne⟩, hk⟩
      exacts [rfl, absurd hk hne]
  · rw [h.apply_eq_some_iff]
    refine and_congr_left fun hk => ⟨fun he => .inr ⟨he, fun hk' => hc (hk.symm.trans hk')⟩, ?_⟩
    rintro (rfl | he)
    exacts [absurd (hk.symm.trans hkey) hc, he.1]

variable [Inhabited K] [Inhabited V]

theorem Represents.remove (h : Represents H m f) (k : K) :
    (m.remove H k).2 = (f (H.key k)).isSome ∧
      Represents H (m.remove H k).1 (Function.update f (H.key k) none) := by
  obtain ⟨hwf, hflag, hcontent⟩ := h.wf.remove k
  refine ⟨by rw [hflag, h.find_eq], hwf, fun c e => ?_⟩
  rw [hcontent, Function.update_apply]
  split_ifs with hc
  · exact iff_of_false nofun fun he => he.1.2 (he.2.trans hc)
  · rw [h.apply_eq_some_iff]
    exact and_congr_left fun hk => ⟨fun he => ⟨he, fun hk' => hc (hk.symm.trans hk')⟩, And.left⟩

/-! ### Calls -/

/-- The calls of a user. -/
inductive Call (K V : Type*)
  | insert (k : K) (v : V)
  | find (k : K)
  | remove (k : K)
  | clear
  | count
  /-- a loop from `begin()` to `end()` -/
  | entries

/-- What the calls return.  `entry none` is the null pointer. -/
inductive Reply (K V : Type*)
  | entry (e : Option (K × V))
  | flag (b : Bool)
  | done
  | number (n : ℕ)
  | list (l : List (K × V))

/-- One call. -/
def step (H : KeyHash K κ) (moved : V → V) (m : CuckooMap K V) :
    Call K V → Option (CuckooMap K V × Reply K V)
  | .insert k v => (m.insert H moved k v).map fun r => (r.1, .entry (r.2.map r.1.entries))
  | .find k => some (m, .entry (m.find H k))
  | .remove k => some ((m.remove H k).1, .flag (m.remove H k).2)
  | .clear => some (m.clear, .done)
  | .count => some (m, .number m.count)
  | .entries => some (m, .list m.toList)

/-- The calls of a list, with their replies. -/
def run (H : KeyHash K κ) (moved : V → V) :
    CuckooMap K V → List (Call K V) → Option (CuckooMap K V × List (Reply K V))
  | m, [] => some (m, [])
  | m, c :: cs => do
    let r ← step H moved m c
    let rs ← run H moved r.1 cs
    return (rs.1, r.2 :: rs.2)

/-- The replies of the finite map `f`, and the finite map after the call. -/
inductive Meets (H : KeyHash K κ) (f : κ → Option (K × V)) :
    Call K V → Reply K V → (κ → Option (K × V)) → Prop
  | insert (k : K) (v : V) : Meets H f (.insert k v) (.entry (some (insertedEntry H f k v)))
      (Function.update f (H.key k) (some (insertedEntry H f k v)))
  | refuse (k : K) (v : V) (h : f (H.key k) = none) (hfour : 4 ≤ {c | f c ≠ none}.ncard) :
      Meets H f (.insert k v) (.entry none) f
  | find (k : K) : Meets H f (.find k) (.entry (f (H.key k))) f
  | remove (k : K) : Meets H f (.remove k) (.flag (f (H.key k)).isSome)
      (Function.update f (H.key k) none)
  | clear : Meets H f .clear .done fun _ => none
  | count : Meets H f .count (.number {c | f c ≠ none}.ncard) f
  | entries (l : List (K × V)) (hl : l.Pairwise fun e e' => H.key e.1 ≠ H.key e'.1)
      (hmem : ∀ e, e ∈ l ↔ f (H.key e.1) = some e) : Meets H f .entries (.list l) f

/-- A sequence of calls and replies of a finite map. -/
inductive MeetsAll (H : KeyHash K κ) :
    (κ → Option (K × V)) → List (Call K V) → List (Reply K V) → (κ → Option (K × V)) → Prop
  | nil (f : κ → Option (K × V)) : MeetsAll H f [] [] f
  | cons {f f' f'' : κ → Option (K × V)} {c r cs rs} (h : Meets H f c r f')
      (hs : MeetsAll H f' cs rs f'') :
      MeetsAll H f (c :: cs) (r :: rs) f''

section Runs

variable {moved : V → V} (hmoved : ∀ v, moved v = v)

include hmoved

theorem Represents.exists_step (h : Represents H m f) (c : Call K V) :
    ∃ m' r f', step H moved m c = some (m', r) ∧ Meets H f c r f' ∧ Represents H m' f' := by
  cases c with
  | insert k v =>
    obtain ⟨m', r, he, hins⟩ :=
      h.wf.exists_doEmplace (k := k) (v := v) hmoved (m.numEntries + 1) (Nat.lt_succ_self _)
    cases r with
    | none =>
      obtain ⟨hnone, hfour, hrep⟩ := h.refused hins
      exact ⟨m', _, f, by rw [step, CuckooMap.insert, he]; rfl, .refuse k v hnone hfour, hrep⟩
    | some x =>
      obtain ⟨hentry, hrep⟩ := h.inserted hins
      refine ⟨m', _, _, ?_, .insert k v, hrep⟩
      rw [step, CuckooMap.insert, he, ← hentry]
      rfl
  | find k => exact ⟨m, _, f, rfl, by rw [h.find_eq]; exact .find k, h⟩
  | remove k =>
    obtain ⟨hflag, hrep⟩ := h.remove k
    exact ⟨_, _, _, rfl, by rw [hflag]; exact .remove k, hrep⟩
  | clear => exact ⟨_, _, _, rfl, .clear, represents_clear m⟩
  | count => exact ⟨m, _, f, rfl, by rw [h.count_eq]; exact .count, h⟩
  | entries =>
    refine ⟨m, _, f, rfl, .entries _ h.wf.pairwise_toList fun e => ?_, h⟩
    rw [h.wf.mem_toList, h.apply_eq_some_iff]
    exact ⟨fun he => ⟨he, rfl⟩, And.left⟩

theorem Represents.exists_run (h : Represents H m f) (cs : List (Call K V)) :
    ∃ m' rs f', run H moved m cs = some (m', rs) ∧ MeetsAll H f cs rs f' ∧
      Represents H m' f' := by
  induction cs generalizing m f with
  | nil => exact ⟨m, [], f, rfl, .nil f, h⟩
  | cons c cs ih =>
    obtain ⟨m₁, r, f₁, hstep, hmeets, hrep⟩ := h.exists_step hmoved c
    obtain ⟨m', rs, f', hrun, hall, hrep'⟩ := ih hrep
    exact ⟨m', r :: rs, f', by simp [run, hstep, hrun], .cons hmeets hall, hrep'⟩

/-- **The cuckoo map is a finite map**, for values that a move leaves as they were.  Every sequence
of calls on a new map returns, with replies that a finite map gives; the table still stands for that
finite map at the end. -/
theorem exists_run_new (H : KeyHash K κ) (cs : List (Call K V)) :
    ∃ m' rs f', run H moved (new initNumBucket initNumEntries) cs = some (m', rs) ∧
      MeetsAll H (fun _ => none) cs rs f' ∧ Represents H m' f' :=
  (represents_new 2 (by decide)).exists_run hmoved cs

end Runs

end Backdraft.CuckooMap

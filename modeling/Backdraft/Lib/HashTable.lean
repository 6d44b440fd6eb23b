import Mathlib.Data.List.AList

/-!
# Hash tables that may refuse a key

A hash table with buckets of a fixed size is a finite map, but for one thing: the insertion of a key
that it does not have may be refused.  Whether it is depends on the buckets, and on all that was
done to the table before; here the answers are given with the table, one for each such insertion
that is still to come.

* `lookup`, `insert`, `erase`, `entries`;
* `lookup_insert_ne`, `lookup_insert_self`, `lookup_of_insert`: what an insertion does, whatever the
  answer;
* `Accepts`: no insertion is refused; then what was inserted is found, and insertions and removals
  keep it.
-/

/-- A finite map, and whether the next insertions of new keys are refused. -/
structure HashTable (K V : Type*) where
  table : AList fun _ : K => V
  refuses : ℕ → Bool

namespace HashTable

variable {K V : Type*}

/-- An empty table that refuses nothing. -/
instance : EmptyCollection (HashTable K V) := ⟨⟨∅, fun _ => false⟩⟩

/-- One answer, and then others. -/
def answer (b : Bool) (rest : ℕ → Bool) : ℕ → Bool
  | 0 => b
  | n + 1 => rest n

/-- The entries, in some order. -/
def entries (m : HashTable K V) : List ((_ : K) × V) := m.table.entries

/-- No insertion is refused. -/
def Accepts (m : HashTable K V) : Prop := ∀ n, m.refuses n = false

theorem accepts_empty : (∅ : HashTable K V).Accepts := fun _ => rfl

variable [DecidableEq K]

def lookup (k : K) (m : HashTable K V) : Option V := m.table.lookup k

/-- A key that is there gets the new value, any other key is added or refused. -/
def insert (k : K) (v : V) (m : HashTable K V) : HashTable K V :=
  if (m.lookup k).isSome then { m with table := m.table.insert k v }
  else ⟨if m.refuses 0 then m.table else m.table.insert k v, fun n => m.refuses (n + 1)⟩

def erase (k : K) (m : HashTable K V) : HashTable K V := { m with table := m.table.erase k }

variable {m : HashTable K V} {k k' : K} {v : V}

@[simp] theorem lookup_empty (k : K) : (∅ : HashTable K V).lookup k = none := rfl

/-- The insertion of a new key gets the first answer. -/
theorem insert_answer {t : AList fun _ : K => V} (h : t.lookup k = none) (b : Bool)
    (rest : ℕ → Bool) :
    insert k v ⟨t, answer b rest⟩ = ⟨if b then t else t.insert k v, rest⟩ := by
  have habsent : ¬ (lookup k ⟨t, answer b rest⟩).isSome = true := by simp [lookup, h]
  rw [insert, if_neg habsent]
  rfl

theorem lookup_erase (k : K) (m : HashTable K V) : (m.erase k).lookup k = none :=
  AList.lookup_erase k m.table

theorem lookup_erase_ne (h : k ≠ k') : (m.erase k').lookup k = m.lookup k :=
  AList.lookup_erase_ne h

theorem lookup_insert_ne (h : k ≠ k') : (m.insert k' v).lookup k = m.lookup k := by
  unfold insert
  split_ifs
  · exact AList.lookup_insert_ne h
  · rfl
  · exact AList.lookup_insert_ne h

/-- The key of an insertion afterwards: it has the value, or it was refused. -/
theorem lookup_insert_self (k : K) (v : V) (m : HashTable K V) :
    (m.insert k v).lookup k = some v ∨
      m.refuses 0 = true ∧ m.lookup k = none ∧ (m.insert k v).lookup k = none := by
  unfold insert
  split_ifs with hthere hrefused
  · exact .inl (AList.lookup_insert _)
  · have hnone : m.lookup k = none := by simpa using hthere
    exact .inr ⟨hrefused, hnone, hnone⟩
  · exact .inl (AList.lookup_insert _)

/-- A key that is there is not refused. -/
theorem lookup_insert_of_some {w : V} (h : m.lookup k' = some w) :
    (m.insert k' v).lookup k = if k = k' then some v else m.lookup k := by
  split_ifs with hk
  · subst hk
    refine (lookup_insert_self k v m).resolve_right fun hrefused => ?_
    exact absurd (hrefused.2.1.symm.trans h) (by simp)
  · exact lookup_insert_ne hk

/-- What is found after an insertion was inserted, or was there before. -/
theorem lookup_of_insert {w : V} (h : (m.insert k' v).lookup k = some w) :
    k = k' ∧ w = v ∨ k ≠ k' ∧ m.lookup k = some w := by
  by_cases hk : k = k'
  · subst hk
    obtain hv | ⟨-, -, hnone⟩ := lookup_insert_self k v m
    · exact .inl ⟨rfl, Option.some.inj (h.symm.trans hv)⟩
    · rw [hnone] at h
      cases h
  · exact .inr ⟨hk, (lookup_insert_ne hk).symm.trans h⟩

/-! ### Tables that refuse nothing -/

theorem Accepts.insert (h : m.Accepts) (k : K) (v : V) : (m.insert k v).Accepts := by
  unfold HashTable.insert
  split_ifs
  · exact h
  all_goals exact fun n => h (n + 1)

theorem Accepts.erase (h : m.Accepts) (k : K) : (m.erase k).Accepts := h

theorem Accepts.lookup_insert (h : m.Accepts) (k : K) (v : V) :
    (m.insert k v).lookup k = some v := by
  refine (lookup_insert_self k v m).resolve_right fun hrefused => ?_
  exact absurd (hrefused.1.symm.trans (h 0)) (by decide)

end HashTable

import Backdraft.Lib.Bytes

/-!
# Computations that read a memory

A `Reading` computes a value from a memory and records the places it reads.  That the value depends
on nothing else is a field of the structure, so it holds of whatever is put together from `fetch`,
`pure` and `bind`.

* `Reading`, with its monad: the places of a sequence are those of its parts, in their order;
* `Reading.Within`: all places lie in the first `len` bytes (`within_bind`, `within_fetch`);
* `Reading.run_eq_of_within`: then the first `len` bytes decide the value.
-/

namespace Bytes

/-- Two memories have the same bytes at the places of a list, each with its length. -/
def AgreeOn (places : List (ℕ × ℕ)) (h h' : Mem) : Prop :=
  ∀ x ∈ places, ∀ i, x.1 ≤ i → i < x.1 + x.2 → h i = h' i

theorem agreeOn_append {l₁ l₂ : List (ℕ × ℕ)} {h h' : Mem} :
    AgreeOn (l₁ ++ l₂) h h' ↔ AgreeOn l₁ h h' ∧ AgreeOn l₂ h h' := by
  simp only [AgreeOn, List.forall_mem_append]

/-- A computation on a memory, and the places that it reads. -/
structure Reading (α : Type) where
  run : Mem → α
  reads : Mem → List (ℕ × ℕ)
  decided : ∀ {h h' : Mem}, AgreeOn (reads h) h h' → run h' = run h ∧ reads h' = reads h

namespace Reading

variable {α β : Type} {r : Reading α} {f : α → Reading β} {h h' : Mem} {a k len : ℕ}

/-- The `k` bytes from `a` on. -/
def fetch (a k : ℕ) : Reading (List UInt8) where
  run h := h.load a k
  reads _ := [(a, k)]
  decided {h h'} hagree := by
    have hsame : ∀ i, a ≤ i → i < a + k → h i = h' i := hagree (a, k) (by simp)
    exact ⟨(Mem.load_congr hsame).symm, rfl⟩

/-- The byte at `a`. -/
def byte (a : ℕ) : Reading UInt8 where
  run h := h a
  reads _ := [(a, 1)]
  decided {h h'} hagree := by
    have hsame := hagree (a, 1) (by simp) a le_rfl (Nat.lt_succ_self a)
    exact ⟨hsame.symm, rfl⟩

instance : Monad Reading where
  pure x := ⟨fun _ => x, fun _ => [], fun _ => ⟨rfl, rfl⟩⟩
  bind r f :=
    { run := fun h => (f (r.run h)).run h
      reads := fun h => r.reads h ++ (f (r.run h)).reads h
      decided := by
        intro h h' hagree
        obtain ⟨hleft, hright⟩ := agreeOn_append.1 hagree
        obtain ⟨hrun, hreads⟩ := r.decided hleft
        obtain ⟨hrun', hreads'⟩ := (f (r.run h)).decided hright
        rw [hrun, hreads]
        exact ⟨hrun', by rw [hreads']⟩ }

@[simp] theorem run_bind : (r >>= f).run h = (f (r.run h)).run h := rfl

@[simp] theorem run_ite {c : Prop} [Decidable c] {r r' : Reading α} :
    (if c then r else r').run h = if c then r.run h else r'.run h :=
  apply_ite (fun r => r.run h) c r r'

/-- All places that are read lie in the first `len` bytes. -/
def Within (r : Reading α) (h : Mem) (len : ℕ) : Prop := ∀ x ∈ r.reads h, x.1 + x.2 ≤ len

@[simp] theorem within_pure (x : α) : (pure x : Reading α).Within h len := by
  intro x hx
  exact absurd hx List.not_mem_nil

@[simp] theorem within_fetch : (fetch a k).Within h len ↔ a + k ≤ len := by
  simp [Within, fetch]

@[simp] theorem within_byte : (byte a).Within h len ↔ a + 1 ≤ len := by
  simp [Within, byte]

@[simp] theorem within_bind :
    (r >>= f).Within h len ↔ r.Within h len ∧ (f (r.run h)).Within h len :=
  List.forall_mem_append

@[simp] theorem within_ite {c : Prop} [Decidable c] {r r' : Reading α} :
    (if c then r else r').Within h len ↔ if c then r.Within h len else r'.Within h len := by
  split_ifs <;> rfl

/-- **A computation that reads only the first `len` bytes is decided by them.** -/
theorem run_eq_of_within (hw : r.Within h len) (hsame : ∀ i < len, h i = h' i) :
    r.run h' = r.run h :=
  (r.decided fun x hx i _ hi => hsame i (lt_of_lt_of_le hi (hw x hx))).1

end Reading

end Bytes

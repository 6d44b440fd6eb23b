import Mathlib.Data.List.Perm.Basic
import Mathlib.Logic.Function.Basic

/-!
# Buffers behind handles

A heap keeps a list behind every handle.  An entry is a handle with a destination, and its contents
are on their way there.  As long as no handle occurs in two entries, what is put behind one of them
changes the contents of its own entry only.

* `contents`: all that is on its way, with where it goes;
* `contents_update`: a handle without an entry does not matter;
* `contents_extend`: more is put behind the handle of an entry;
* `contents_perm`: the order of the entries does not matter but for the order of the contents.
-/

namespace Backdraft.Handles

variable {K R P : Type*} [DecidableEq R]

omit [DecidableEq R] in
/-- What is behind the handles of entries, with their destinations. -/
def contents (heap : R → List P) (es : List (K × R)) : List (K × P) :=
  es.flatMap fun e => (heap e.2).map (e.1, ·)

variable {heap : R → List P}

omit [DecidableEq R] in
@[simp] theorem contents_nil : contents heap ([] : List (K × R)) = [] := rfl

omit [DecidableEq R] in
theorem contents_cons (e : K × R) (es : List (K × R)) :
    contents heap (e :: es) = (heap e.2).map (e.1, ·) ++ contents heap es := rfl

omit [DecidableEq R] in
theorem contents_perm {es fs : List (K × R)} (h : es.Perm fs) :
    (contents heap es).Perm (contents heap fs) := h.flatMap_right _

theorem contents_update {r : R} (ps : List P) {es : List (K × R)} (h : r ∉ es.map Prod.snd) :
    contents (Function.update heap r ps) es = contents heap es := by
  refine List.flatMap_congr fun e he => ?_
  have hne : e.2 ≠ r := fun heq => h (heq ▸ List.mem_map_of_mem he)
  rw [Function.update_of_ne hne]

/-- More is put behind the handle of an entry. -/
theorem contents_extend {k : K} {r : R} (ps : List P) {es : List (K × R)} (he : (k, r) ∈ es)
    (h : (es.map Prod.snd).Nodup) :
    (contents (Function.update heap r (heap r ++ ps)) es).Perm
      (contents heap es ++ ps.map (k, ·)) := by
  obtain ⟨xs, ys, rfl⟩ := List.append_of_mem he
  have hmid : (xs ++ (k, r) :: ys).Perm ((k, r) :: (xs ++ ys)) := List.perm_middle
  have hnot : r ∉ (xs ++ ys).map Prod.snd := by
    have hnodup := (hmid.map Prod.snd).nodup_iff.mp h
    exact (List.nodup_cons.mp hnodup).1
  refine (contents_perm hmid).trans (List.Perm.trans ?_ ((contents_perm hmid).symm.append_right _))
  rw [contents_cons, contents_cons, contents_update _ hnot, Function.update_self, List.map_append,
    List.append_assoc, List.append_assoc]
  exact List.Perm.append_left _ List.perm_append_comm

end Backdraft.Handles

import Mathlib.Data.Fintype.Card
import Mathlib.Logic.Relation
import Mathlib.Tactic

/-!
# Depth-first search

A search of a finite graph that does not go on from the vertices where it stops, and that acts on a
state at each vertex it meets.

* `forUnseen`: a loop over vertices that passes over those seen before their turn;
* `search`, `searchAll`: the search from a vertex, and from the vertices of a list in turn;
* `Edge`: the edges that the search follows;
* `Explores`: what a search adds to the vertices seen before it;
* `search_spec`, `searchAll_spec`: the search ends, and meets each vertex that can be reached once.
-/

namespace Backdraft.DepthFirst

variable {V σ : Type*} [DecidableEq V]

/-- Call `f` for those vertices of a list that are not seen before their turn. -/
def forUnseen (f : V → List V × σ → Option (List V × σ)) (vs : List V) (s : List V × σ) :
    Option (List V × σ) :=
  vs.foldlM (fun s c => if c ∈ s.1 then some s else f c s) s

/-- The search from a vertex that was not seen; `none` when the fuel is spent. -/
def search (children : V → List V) (stop : V → Bool) (visit : σ → V → σ) :
    ℕ → V → List V × σ → Option (List V × σ)
  | 0, _, _ => none
  | fuel + 1, v, (seen, st) =>
    if stop v then some (seen ++ [v], visit st v)
    else forUnseen (search children stop visit fuel) (children v) (seen ++ [v], visit st v)

/-- The search from those vertices of a list that are not seen before their turn. -/
def searchAll (children : V → List V) (stop : V → Bool) (visit : σ → V → σ) (fuel : ℕ)
    (vs : List V) (s : List V × σ) : Option (List V × σ) :=
  forUnseen (search children stop visit fuel) vs s

/-- The search goes on from `u` to `v`. -/
def Edge (children : V → List V) (stop : V → Bool) (u v : V) : Prop :=
  stop u = false ∧ v ∈ children u

/-- From the vertices `vs` the search adds the vertices `new` to those in `seen`. -/
structure Explores (children : V → List V) (stop : V → Bool) (vs seen new : List V) : Prop where
  nodup : (seen ++ new).Nodup
  starts : ∀ v ∈ vs, v ∈ seen ++ new
  reach : ∀ v ∈ new, ∃ u ∈ vs, Relation.ReflTransGen (Edge children stop) u v
  closed : ∀ v ∈ new, stop v = false → ∀ c ∈ children v, c ∈ seen ++ new

variable {children : V → List V} {stop : V → Bool} {visit : σ → V → σ}

omit [DecidableEq V] in
theorem explores_nil {seen : List V} (h : seen.Nodup) : Explores children stop [] seen [] := by
  refine ⟨by simpa using h, ?_, ?_, ?_⟩ <;> simp

omit [DecidableEq V] in
/-- A vertex that was seen adds nothing. -/
theorem Explores.cons_seen {vs seen new : List V} (h : Explores children stop vs seen new) {v : V}
    (hv : v ∈ seen) : Explores children stop (v :: vs) seen new where
  nodup := h.nodup
  starts u hu := by
    rcases List.mem_cons.mp hu with rfl | hu
    · exact List.mem_append_left _ hv
    · exact h.starts u hu
  reach u hu := by
    obtain ⟨w, hw, hwu⟩ := h.reach u hu
    exact ⟨w, List.mem_cons_of_mem _ hw, hwu⟩
  closed := h.closed

omit [DecidableEq V] in
/-- Two searches, one after the other. -/
theorem Explores.append {v : V} {vs seen new new' : List V}
    (h : Explores children stop [v] seen new) (h' : Explores children stop vs (seen ++ new) new') :
    Explores children stop (v :: vs) seen (new ++ new') where
  nodup := by simpa using h'.nodup
  starts u hu := by
    rcases List.mem_cons.mp hu with rfl | hu
    · have := h.starts u (List.mem_singleton.mpr rfl)
      simp only [List.mem_append] at this ⊢
      tauto
    · simpa using h'.starts u hu
  reach u hu := by
    rcases List.mem_append.mp hu with hu | hu
    · obtain ⟨w, hw, hwu⟩ := h.reach u hu
      exact ⟨v, List.mem_cons_self, List.mem_singleton.mp hw ▸ hwu⟩
    · obtain ⟨w, hw, hwu⟩ := h'.reach u hu
      exact ⟨w, List.mem_cons_of_mem _ hw, hwu⟩
  closed u hu hstop c hc := by
    rcases List.mem_append.mp hu with hu | hu
    · have := h.closed u hu hstop c hc
      simp only [List.mem_append] at this ⊢
      tauto
    · simpa using h'.closed u hu hstop c hc

omit [DecidableEq V] in
/-- The search of the children of a vertex is the rest of the search from the vertex. -/
theorem Explores.of_children {v : V} {seen new : List V} (hstop : stop v = false)
    (h : Explores children stop (children v) (seen ++ [v]) new) :
    Explores children stop [v] seen (v :: new) where
  nodup := by simpa using h.nodup
  starts u hu := by
    rw [List.mem_singleton.mp hu]
    simp
  reach u hu := by
    refine ⟨v, List.mem_singleton.mpr rfl, ?_⟩
    rcases List.mem_cons.mp hu with rfl | hu
    · exact .refl
    · obtain ⟨c, hc, hcu⟩ := h.reach u hu
      exact .head ⟨hstop, hc⟩ hcu
  closed u hu hu' c hc := by
    rcases List.mem_cons.mp hu with rfl | hu
    · simpa using h.starts c hc
    · simpa using h.closed u hu hu' c hc

omit [DecidableEq V] in
theorem explores_stop {v : V} {seen : List V} (h : seen.Nodup) (hv : v ∉ seen)
    (hstop : stop v = true) : Explores children stop [v] seen [v] where
  nodup := by simpa using h.concat hv
  starts u hu := List.mem_append_right _ hu
  reach u hu := ⟨u, hu, .refl⟩
  closed u hu hu' := by
    rw [List.mem_singleton.mp hu, hstop] at hu'
    cases hu'

variable [Fintype V]

/-- What the search from one vertex does carries over to a list of them. -/
theorem searchAll_of_search {fuel : ℕ}
    (ih : ∀ (v : V) (seen : List V) (st : σ), seen.Nodup → v ∉ seen →
      Fintype.card V < seen.length + fuel →
      ∃ new, search children stop visit fuel v (seen, st) = some (seen ++ new, new.foldl visit st) ∧
        Explores children stop [v] seen new) :
    ∀ (vs seen : List V) (st : σ), seen.Nodup → Fintype.card V < seen.length + fuel →
      ∃ new, searchAll children stop visit fuel vs (seen, st) =
          some (seen ++ new, new.foldl visit st) ∧ Explores children stop vs seen new
  | [], seen, st, hseen, _ => ⟨[], by simp [searchAll, forUnseen], explores_nil hseen⟩
  | v :: vs, seen, st, hseen, hfuel => by
    by_cases hv : v ∈ seen
    · obtain ⟨new, hnew, hexp⟩ := searchAll_of_search ih vs seen st hseen hfuel
      exact ⟨new, by simpa [searchAll, forUnseen, hv] using hnew, hexp.cons_seen hv⟩
    · obtain ⟨new, hnew, hexp⟩ := ih v seen st hseen hv hfuel
      obtain ⟨new', hnew', hexp'⟩ := searchAll_of_search ih vs (seen ++ new) (new.foldl visit st)
        hexp.nodup (by rw [List.length_append]; omega)
      refine ⟨new ++ new', ?_, hexp.append hexp'⟩
      simpa [searchAll, forUnseen, hv, hnew, List.foldl_append] using hnew'

/-- The search ends when there is a unit of fuel for each vertex that was not seen. -/
theorem search_spec : ∀ (fuel : ℕ) (v : V) (seen : List V) (st : σ), seen.Nodup → v ∉ seen →
    Fintype.card V < seen.length + fuel →
    ∃ new, search children stop visit fuel v (seen, st) = some (seen ++ new, new.foldl visit st) ∧
      Explores children stop [v] seen new
  | 0, _, seen, _, hseen, _, hfuel => by
    have := hseen.length_le_card
    omega
  | fuel + 1, v, seen, st, hseen, hv, hfuel => by
    rcases hstop : stop v with _ | _
    · obtain ⟨new, hnew, hexp⟩ := searchAll_of_search (search_spec fuel) (children v) (seen ++ [v])
        (visit st v) (by simpa using hseen.concat hv)
        (by rw [List.length_append, List.length_singleton]; omega)
      refine ⟨v :: new, ?_, hexp.of_children hstop⟩
      simpa [search, hstop, searchAll] using hnew
    · exact ⟨[v], by simp [search, hstop], explores_stop hseen hv hstop⟩

theorem searchAll_spec (children : V → List V) (stop : V → Bool) (visit : σ → V → σ) {fuel : ℕ}
    (vs seen : List V) (st : σ) (hseen : seen.Nodup)
    (hfuel : Fintype.card V < seen.length + fuel) :
    ∃ new, searchAll children stop visit fuel vs (seen, st) =
        some (seen ++ new, new.foldl visit st) ∧ Explores children stop vs seen new :=
  searchAll_of_search (search_spec fuel) vs seen st hseen hfuel

omit [DecidableEq V] [Fintype V] in
/-- A search that starts with vertices seen at which it stops meets whatever can be reached. -/
theorem Explores.mem_iff {vs seen new : List V} (h : Explores children stop vs seen new)
    (hseen : ∀ v ∈ seen, stop v = true) {v : V} (hv : v ∉ seen) :
    v ∈ new ↔ ∃ u ∈ vs, Relation.ReflTransGen (Edge children stop) u v := by
  refine ⟨h.reach v, ?_⟩
  rintro ⟨u, hu, huv⟩
  have hmem : v ∈ seen ++ new := by
    clear hv
    induction huv with
    | refl => exact h.starts u hu
    | tail _ hedge ih =>
      obtain ⟨hstop, hc⟩ := hedge
      rcases List.mem_append.mp ih with hs | hn
      · rw [hseen _ hs] at hstop
        cases hstop
      · exact h.closed _ hn hstop _ hc
  exact (List.mem_append.mp hmem).resolve_left hv

end Backdraft.DepthFirst

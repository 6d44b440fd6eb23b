import Mathlib.Tactic
import Mathlib.Data.List.Perm.Subperm

/-!
# Least recently used

Resources are used at times; `last log q` is the time of the last use of `q` in a log, newest entry
first.

* `pick`: the loop that looks for the first element of a list with the smallest key, with a sentinel
  to start from; it is right if some key is below the sentinel (`pick_firstMin`);
* `last_append_of_mem`, `last_append_of_notMem`: where the last use is found in a log;
* `nodup_of_least`: users that come one after the other, and each take a resource that was used
  least recently, take different resources, as long as there are enough of them.
-/

namespace LeastRecent

variable {α τ : Type*}

section Loop

variable [LinearOrder τ]

/-- The first element of `l` with the smallest key, or `dflt` if no key is below `top`. -/
def pick (key : α → τ) (top : τ) (dflt : α) (l : List α) : α :=
  (l.foldl (fun best q => if key q < best.1 then (key q, q) else best) (top, dflt)).2

/-- `x` is the first element of `l` with the smallest key. -/
def FirstMin (key : α → τ) (l : List α) (x : α) : Prop :=
  ∃ a b, l = a ++ x :: b ∧ (∀ q ∈ a, key x < key q) ∧ ∀ q ∈ b, key x ≤ key q

theorem FirstMin.mem {key : α → τ} {l : List α} {x : α} (h : FirstMin key l x) : x ∈ l := by
  obtain ⟨a, b, rfl, -, -⟩ := h
  simp

theorem FirstMin.le {key : α → τ} {l : List α} {x q : α} (h : FirstMin key l x) (hq : q ∈ l) :
    key x ≤ key q := by
  obtain ⟨a, b, rfl, ha, hb⟩ := h
  rcases List.mem_append.1 hq with hqa | hqb
  · exact (ha q hqa).le
  · rcases List.mem_cons.1 hqb with rfl | hqb
    · exact le_rfl
    · exact hb q hqb

/-- What the loop has in hand: the first smallest element and its key, or the sentinel. -/
theorem foldl_spec (key : α → τ) (top : τ) (dflt : α) (l : List α) :
    let best := l.foldl (fun best q => if key q < best.1 then (key q, q) else best) (top, dflt)
    (best = (top, dflt) ∧ ∀ q ∈ l, top ≤ key q) ∨
      best.1 = key best.2 ∧ key best.2 < top ∧ FirstMin key l best.2 := by
  induction l using List.reverseRecOn with
  | nil => exact .inl ⟨rfl, by simp⟩
  | append_singleton l q ih =>
    simp only [List.foldl_append, List.foldl_cons, List.foldl_nil] at ih ⊢
    generalize
      l.foldl (fun best q => if key q < best.1 then (key q, q) else best) (top, dflt) = best at ih ⊢
    split_ifs with hlt
    · refine .inr ⟨rfl, ?_, l, [], rfl, ?_, by simp⟩
      · rcases ih with ⟨rfl, -⟩ | ⟨heq, htop, -⟩
        · exact hlt
        · exact (hlt.trans_eq heq).trans htop
      · intro q' hq'
        rcases ih with ⟨rfl, hall⟩ | ⟨heq, -, hmin⟩
        · exact hlt.trans_le (hall q' hq')
        · exact (hlt.trans_eq heq).trans_le (hmin.le hq')
    · rcases ih with ⟨rfl, hall⟩ | ⟨heq, htop, a, b, rfl, ha, hb⟩
      · refine .inl ⟨rfl, fun q' hq' => ?_⟩
        rcases List.mem_append.1 hq' with hmem | hmem
        · exact hall q' hmem
        · exact (List.mem_singleton.1 hmem) ▸ not_lt.1 hlt
      · refine .inr ⟨heq, htop, a, b ++ [q], by simp, ha, fun q' hq' => ?_⟩
        rcases List.mem_append.1 hq' with hmem | hmem
        · exact hb q' hmem
        · exact (List.mem_singleton.1 hmem) ▸ (heq ▸ not_lt.1 hlt)

theorem pick_mem (key : α → τ) (top : τ) (dflt : α) (l : List α) :
    pick key top dflt l = dflt ∨ pick key top dflt l ∈ l := by
  rcases foldl_spec key top dflt l with ⟨heq, -⟩ | ⟨-, -, hmin⟩
  · exact .inl (congrArg Prod.snd heq)
  · exact .inr hmin.mem

/-- **The loop finds the first smallest element, if some key is below the sentinel.** -/
theorem pick_firstMin {key : α → τ} {top : τ} {dflt : α} {l : List α}
    (h : ∃ q ∈ l, key q < top) : FirstMin key l (pick key top dflt l) := by
  obtain ⟨q, hq, hlt⟩ := h
  rcases foldl_spec key top dflt l with ⟨-, hall⟩ | ⟨-, -, hmin⟩
  · exact absurd hlt (not_lt.2 (hall q hq))
  · exact hmin

end Loop

section LastUse

variable [DecidableEq α]

/-- The time of the last use of `q`, and `never` if there is none. -/
def last (never : τ) (log : List (α × τ)) (q : α) : τ :=
  ((log.find? fun e => e.1 = q).map Prod.snd).getD never

@[simp] theorem last_nil (never : τ) (q : α) : last never [] q = never := rfl

theorem last_cons (never : τ) (e : α × τ) (log : List (α × τ)) (q : α) :
    last never (e :: log) q = if e.1 = q then e.2 else last never log q := by
  by_cases h : e.1 = q
  · simp [last, h]
  · simp [last, h]

theorem last_append_of_notMem (never : τ) {new : List (α × τ)} {q : α} (h : q ∉ new.map Prod.fst)
    (log : List (α × τ)) : last never (new ++ log) q = last never log q := by
  induction new with
  | nil => rfl
  | cons e new ih =>
    simp only [List.map_cons, List.mem_cons, not_or] at h
    rw [List.cons_append, last_cons, if_neg fun heq => h.1 heq.symm, ih h.2]

theorem last_append_of_mem (never : τ) {new : List (α × τ)} {q : α} (h : q ∈ new.map Prod.fst)
    (log : List (α × τ)) : ∃ e ∈ new, last never (new ++ log) q = e.2 := by
  induction new with
  | nil => cases h
  | cons e new ih =>
    rw [List.cons_append, last_cons]
    split_ifs with heq
    · exact ⟨e, by simp, rfl⟩
    · obtain ⟨e', he', hlast⟩ := ih ((List.mem_cons.1 h).resolve_left fun hq => heq hq.symm)
      exact ⟨e', by simp [he'], hlast⟩

/-- The last use is the time of an entry, or there is none. -/
theorem last_mem (never : τ) (log : List (α × τ)) (q : α) :
    last never log q = never ∨ ∃ e ∈ log, last never log q = e.2 := by
  by_cases h : q ∈ log.map Prod.fst
  · have hmem := last_append_of_mem never h []
    rw [List.append_nil] at hmem
    exact .inr hmem
  · have hnot := last_append_of_notMem never h []
    rw [List.append_nil] at hnot
    exact .inl hnot

/-- **Users that each take a least recently used resource take different ones**, as long as there
are resources enough and each comes later than all uses before it. -/
theorem nodup_of_least [LinearOrder τ] {never : τ} {pool : List α} {new log : List (α × τ)}
    (hpool : pool.Nodup) (hlen : new.length ≤ pool.length)
    (hleast : ∀ e mid, e :: mid <:+ new →
      ∀ q ∈ pool, last never (mid ++ log) e.1 ≤ last never (mid ++ log) q)
    (hlater : ∀ e ∈ new, never < e.2 ∧ ∀ e' ∈ log, e'.2 < e.2) : (new.map Prod.fst).Nodup := by
  induction new with
  | nil => exact List.nodup_nil
  | cons e new ih =>
    rw [List.length_cons] at hlen
    have hnodup := ih (by omega)
      (fun e' mid hmid => hleast e' mid (hmid.trans (List.suffix_cons e new)))
      (fun e' he' => hlater e' (List.mem_cons_of_mem e he'))
    refine List.nodup_cons.2 ⟨fun hmem => ?_, hnodup⟩
    -- some resource was not taken yet, and its last use is older than those of the others
    obtain ⟨q, hq, hnew⟩ : ∃ q ∈ pool, q ∉ new.map Prod.fst := by
      by_contra hall
      push Not at hall
      have hle := (hpool.subperm hall).length_le
      rw [List.length_map] at hle
      omega
    obtain ⟨e', he', hlast⟩ := last_append_of_mem never hmem log
    have hle := hleast e new (List.suffix_refl _) q hq
    rw [hlast, last_append_of_notMem never hnew] at hle
    obtain ⟨hnever, hlog⟩ := hlater e' (List.mem_cons_of_mem e he')
    rcases last_mem never log q with heq | ⟨e'', he'', heq⟩
    · exact absurd hle (not_le.2 (heq.trans_lt hnever))
    · exact absurd hle (not_le.2 (heq.trans_lt (hlog e'' he'')))

end LastUse

end LeastRecent

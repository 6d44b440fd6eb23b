import Backdraft.QueueInc.Scan

/-!
# Several receivers

The position of the scan in `CheckQueuedCtrlMessages` is a static variable, so all instances of
`BKDRFTQueueInc` use the same one.

* `sharedResults`: what one instance gets while the others are called in between;
* `soloCalls`: its own calls, which are made alone in the other run;
* `scan_eq_iff`: two positions give the same result when no ready queue lies between them;
* `undisturbed_iff`: when an instance gets the results that it would get alone.
-/

namespace Backdraft

namespace Cdq

variable {ι : Type*} [DecidableEq ι] {pos pos' : ℕ}

/-- The position that calls leave behind. -/
def scanPos (pos : ℕ) (cs : List Scan) : ℕ := cs.foldl (fun p c => (scan p c).1) pos

/-- The calls of an instance, without those of the others. -/
def soloCalls (i : ι) (calls : List (ι × Scan)) : List Scan :=
  (calls.filter fun e => e.1 = i).map Prod.snd

/-- What the instance `i` gets when the calls of all instances are made in this order. -/
def sharedResults (i : ι) : ℕ → List (ι × Scan) → List (Option ℕ)
  | _, [] => []
  | pos, (k, c) :: calls =>
    if k = i then (scan pos c).2 :: sharedResults i (scan pos c).1 calls
    else sharedResults i (scan pos c).1 calls

/-! ### One call from two positions -/

/-- **Two positions give the same result** when no ready queue lies between them. -/
theorem scan_eq_iff (c : Scan) :
    (scan pos c).2 = (scan pos' c).2 ↔ ∀ q, c.Ready q → (pos ≤ q ↔ pos' ≤ q) := by
  constructor
  · intro heq q hq
    -- the position from which `q` can be reached selects a queue up to `q`
    have key : ∀ {a b : ℕ}, (scan a c).2 = (scan b c).2 → a ≤ q → b ≤ q := by
      intro a b hab ha
      by_contra hb
      cases hfound : (scan b c).2 with
      | none =>
        have := scan_eq_none_iff.1 (hab.trans hfound) q hq
        omega
      | some x =>
        obtain ⟨⟨-, hbx⟩, -⟩ := scan_eq_some_iff.1 hfound
        have := (scan_eq_some_iff.1 (hab.trans hfound)).2 q (by omega) hq
        omega
    exact ⟨key heq, key heq.symm⟩
  · intro hsame
    cases hfound : (scan pos' c).2 with
    | none =>
      refine scan_eq_none_iff.2 fun q hq => ?_
      have := scan_eq_none_iff.1 hfound q hq
      have := hsame q hq
      omega
    | some x =>
      obtain ⟨⟨hready, hle⟩, hlow⟩ := scan_eq_some_iff.1 hfound
      refine scan_eq_some_iff.2 ⟨⟨hready, (hsame x hready).2 hle⟩, fun i hi hi' => ?_⟩
      have := hlow i hi hi'
      have := hsame i hi'
      omega

/-! ### Runs -/

theorem results_append (pos : ℕ) (cs ds : List Scan) :
    results pos (cs ++ ds) = results pos cs ++ results (scanPos pos cs) ds := by
  induction cs generalizing pos with
  | nil => rfl
  | cons c cs ih => simp [results, scanPos, ih]

theorem soloCalls_append (i : ι) (calls rest : List (ι × Scan)) :
    soloCalls i (calls ++ rest) = soloCalls i calls ++ soloCalls i rest := by
  simp [soloCalls]

theorem sharedResults_append (i : ι) (pos : ℕ) (calls rest : List (ι × Scan)) :
    sharedResults i pos (calls ++ rest) =
      sharedResults i pos calls ++ sharedResults i (scanPos pos (calls.map Prod.snd)) rest := by
  induction calls generalizing pos with
  | nil => rfl
  | cons e calls ih =>
    obtain ⟨k, c⟩ := e
    by_cases hk : k = i <;> simp [sharedResults, scanPos, hk, ih]

theorem length_sharedResults (i : ι) (pos : ℕ) (calls : List (ι × Scan)) :
    (sharedResults i pos calls).length = (soloCalls i calls).length := by
  induction calls generalizing pos with
  | nil => rfl
  | cons e calls ih =>
    obtain ⟨k, c⟩ := e
    by_cases hk : k = i <;> simp [sharedResults, soloCalls, hk, ih]

/-- The call `e` after the calls `p`: if it is one of the instance `i`, no ready queue lies between
the position that all calls have left and the one that the calls of `i` alone would have left. -/
def Undisturbed (i : ι) (p : List (ι × Scan)) (e : ι × Scan) : Prop :=
  e.1 = i → ∀ q, e.2.Ready q →
    (scanPos 0 (p.map Prod.snd) ≤ q ↔ scanPos 0 (soloCalls i p) ≤ q)

/-- One more call keeps the results equal when it is undisturbed. -/
theorem results_eq_concat_iff {i : ι} {p : List (ι × Scan)}
    (hp : sharedResults i 0 p = results 0 (soloCalls i p)) (e : ι × Scan) :
    sharedResults i 0 (p ++ [e]) = results 0 (soloCalls i (p ++ [e])) ↔ Undisturbed i p e := by
  obtain ⟨k, c⟩ := e
  rw [sharedResults_append, soloCalls_append, results_append, hp, List.append_cancel_left_eq]
  by_cases hk : k = i
  · simp [sharedResults, soloCalls, results, Undisturbed, hk, scan_eq_iff]
  · simp [sharedResults, soloCalls, results, Undisturbed, hk]

/-- Results that agree in the end have agreed all the time. -/
theorem results_eq_of_prefix {i : ι} {p calls : List (ι × Scan)} (hp : p <+: calls)
    (h : sharedResults i 0 calls = results 0 (soloCalls i calls)) :
    sharedResults i 0 p = results 0 (soloCalls i p) := by
  obtain ⟨rest, rfl⟩ := hp
  rw [sharedResults_append, soloCalls_append, results_append] at h
  exact (List.append_inj h (by rw [length_sharedResults, length_results])).1

/-- **When an instance is not disturbed by the others.**  For any number of instances and any
interleaving of their calls, an instance gets the sequence of results that it gets when its calls
are made alone, if and only if at each of its calls no ready queue lies between the shared position
and the one it would have alone. -/
theorem undisturbed_iff (i : ι) (calls : List (ι × Scan)) :
    sharedResults i 0 calls = results 0 (soloCalls i calls) ↔
      ∀ p e, p ++ [e] <+: calls → Undisturbed i p e := by
  rw [← Run.forall_prefix_iff (P := fun p => sharedResults i 0 p = results 0 (soloCalls i p)) rfl
    calls fun p e _ hp => results_eq_concat_iff hp e]
  exact ⟨fun h p hp => results_eq_of_prefix hp h, fun h => h calls (List.prefix_refl _)⟩

/-- The first instance has queues 0 and 5 announced at its two calls, and selects 0 and then 5 when
it is alone.  The second one selects its queue 5 in between, and the first one gets nothing. -/
theorem instances_interfere :
    sharedResults true 0 [(true, ⟨0x21, fun _ => false⟩), (false, ⟨0x20, fun _ => false⟩),
      (true, ⟨0x21, fun _ => false⟩)] = [some 0, none] ∧
    results 0 (soloCalls true [(true, ⟨0x21, fun _ => false⟩), (false, ⟨0x20, fun _ => false⟩),
      (true, ⟨0x21, fun _ => false⟩)]) = [some 0, some 5] := by
  constructor <;> decide +kernel

end Cdq

end Backdraft

import Mathlib.Tactic

/-!
# Refinement of a deterministic specification

An implementation `step : σ → ι → Except ε (σ × ο)` answers an input with an output and may fail.
A specification `spec : τ → ι → τ × ο` is total, and `allowed t i` says which inputs a caller may
give in the state `t` of the specification.

* `run`, `specRun`: a list of inputs carried out, with the outputs;
* `admissible`: every input of a list is allowed when it is given;
* `Simulates.exists_run`: a relation kept by each allowed step makes every admissible run of the
  implementation succeed, with the outputs of the specification.
-/

namespace Refine

variable {σ τ ι ο ε : Type*}

/-- The implementation on a list of inputs. -/
def run (step : σ → ι → Except ε (σ × ο)) : σ → List ι → Except ε (σ × List ο)
  | s, [] => .ok (s, [])
  | s, i :: is => do
    let (s', o) ← step s i
    let (u, os) ← run step s' is
    return (u, o :: os)

/-- The specification on a list of inputs. -/
def specRun (spec : τ → ι → τ × ο) : τ → List ι → τ × List ο
  | t, [] => (t, [])
  | t, i :: is =>
    let (u, os) := specRun spec (spec t i).1 is
    (u, (spec t i).2 :: os)

/-- Every input is allowed in the state in which it is given. -/
def admissible (spec : τ → ι → τ × ο) (allowed : τ → ι → Bool) : τ → List ι → Bool
  | _, [] => true
  | t, i :: is => allowed t i && admissible spec allowed (spec t i).1 is

/-- `R` is kept by every allowed step, which does not fail and has the specified output. -/
def Simulates (step : σ → ι → Except ε (σ × ο)) (spec : τ → ι → τ × ο) (allowed : τ → ι → Bool)
    (R : σ → τ → Prop) : Prop :=
  ∀ s t i, R s t → allowed t i = true →
    ∃ s', step s i = .ok (s', (spec t i).2) ∧ R s' (spec t i).1

/-- **The refinement rule.** -/
theorem Simulates.exists_run {step : σ → ι → Except ε (σ × ο)} {spec : τ → ι → τ × ο}
    {allowed : τ → ι → Bool} {R : σ → τ → Prop} (h : Simulates step spec allowed R)
    {s : σ} {t : τ} (hR : R s t) (is : List ι) (his : admissible spec allowed t is = true) :
    ∃ s', run step s is = .ok (s', (specRun spec t is).2) ∧ R s' (specRun spec t is).1 := by
  induction is generalizing s t with
  | nil => exact ⟨s, rfl, hR⟩
  | cons i is ih =>
    rw [admissible, Bool.and_eq_true] at his
    obtain ⟨hi, his⟩ := his
    obtain ⟨u, hu, hRu⟩ := h s t i hR hi
    obtain ⟨s', hrun, hR'⟩ := ih hRu his
    refine ⟨s', ?_, hR'⟩
    rw [run, hu]
    show (run step u is >>= fun p => .ok (p.1, (spec t i).2 :: p.2)) = _
    rw [hrun]
    rfl

end Refine

import Backdraft.Pipeline.Gates
import Backdraft.Lib.Listing
import Backdraft.Lib.Run

/-!
# The gates are consistent

Between two calls every pointer in a vector of a module leads to a gate that is alive and knows its
place, every gate that is alive is in the vector of its module, and an output gate and an input gate
know each other or do not.  So no call follows a pointer to a deleted gate.

* `Linked`: output gates and input gates know each other, and `Linked.add`, `Linked.attach`,
  `Linked.cut`: how this is kept;
* `Consistent`, `WF`: the invariant, without and with "every input gate has an output gate";
* `Consistent.addIgate`, `Consistent.attach`, `WF.detach`, `WF.dropIgate`: what the calls do to it.
-/

namespace Backdraft.Gates

open Listing

variable {V : Type*}

/-! ### Who knows whom -/

/-- Output gates and input gates know each other. -/
structure Linked (ogate : ℕ → Option (OGate V)) (igate : ℕ → Option (IGate V)) : Prop where
  leads : ∀ {p og}, ogate p = some og → ∃ ig, igate og.igate = some ig ∧
    p ∈ ig.ogatesUpstream ∧ ig.module = og.next ∧ ig.gateIdx = og.igateIdx
  upstream : ∀ {q ig p}, igate q = some ig → p ∈ ig.ogatesUpstream →
    ∃ og, ogate p = some og ∧ og.igate = q
  nodup : ∀ {q ig}, igate q = some ig → ig.ogatesUpstream.Nodup
  mergeable : ∀ {q ig}, igate q = some ig → 1 < ig.ogatesUpstream.length → ig.mergeable = true

namespace Linked

variable {ogate : ℕ → Option (OGate V)} {igate : ℕ → Option (IGate V)} {p q : ℕ} {ig : IGate V}

/-- A new input gate, which no output gate leads to yet. -/
theorem add (h : Linked ogate igate) (hq : igate q = none) (hnil : ig.ogatesUpstream = []) :
    Linked ogate (Function.update igate q (some ig)) where
  leads {p og} hog := by
    obtain ⟨ig', hig', hleads⟩ := h.leads hog
    have hne : og.igate ≠ q := by
      rintro rfl
      cases hq.symm.trans hig'
    exact ⟨ig', (Function.update_of_ne hne _ _).trans hig', hleads⟩
  upstream {r ig' p} hr hp := by
    rcases update_eq_some hr with ⟨rfl, ⟨⟩⟩ | ⟨-, hr⟩
    · simp [hnil] at hp
    · exact h.upstream hr hp
  nodup {r ig'} hr := by
    rcases update_eq_some hr with ⟨rfl, ⟨⟩⟩ | ⟨-, hr⟩
    · simp [hnil]
    · exact h.nodup hr
  mergeable {r ig'} hr hlen := by
    rcases update_eq_some hr with ⟨rfl, ⟨⟩⟩ | ⟨-, hr⟩
    · simp [hnil] at hlen
    · exact h.mergeable hr hlen

/-- A new output gate, which leads to an input gate that is there. -/
theorem attach [DecidableEq V] (h : Linked ogate igate) (hp : ogate p = none)
    (hq : igate q = some ig) (m : V) (i : ℕ) :
    Linked (Function.update ogate p (some ⟨m, i, ig.module, q, ig.gateIdx⟩))
      (Function.update igate q (some (IGate.pushOgate ig p))) where
  leads {r og} hog := by
    rcases update_eq_some hog with ⟨rfl, ⟨⟩⟩ | ⟨-, hog⟩
    · exact ⟨_, Function.update_self _ _ _, by simp [IGate.pushOgate], rfl, rfl⟩
    · obtain ⟨ig', hig', hmem, hplace⟩ := h.leads hog
      by_cases hoq : og.igate = q
      · rw [hoq] at hig' ⊢
        obtain rfl := Option.some.inj (hq.symm.trans hig')
        exact ⟨_, Function.update_self _ _ _, List.mem_append_left _ hmem, hplace⟩
      · exact ⟨ig', (Function.update_of_ne hoq _ _).trans hig', hmem, hplace⟩
  upstream {r ig' p'} hr hp' := by
    have hold : ∀ {ig₁}, igate r = some ig₁ → p' ∈ ig₁.ogatesUpstream →
        ∃ og, Function.update ogate p (some ⟨m, i, ig.module, q, ig.gateIdx⟩) p' = some og ∧
          og.igate = r := fun hr hp' => by
      obtain ⟨og, hog, higate⟩ := h.upstream hr hp'
      have hne : p' ≠ p := by
        rintro rfl
        cases hp.symm.trans hog
      exact ⟨og, (Function.update_of_ne hne _ _).trans hog, higate⟩
    rcases update_eq_some hr with ⟨rfl, ⟨⟩⟩ | ⟨-, hr⟩
    · rcases List.mem_append.mp hp' with hmem | hmem
      · exact hold hq hmem
      · obtain rfl := List.mem_singleton.mp hmem
        exact ⟨_, Function.update_self _ _ _, rfl⟩
    · exact hold hr hp'
  nodup {r ig'} hr := by
    rcases update_eq_some hr with ⟨rfl, ⟨⟩⟩ | ⟨-, hr⟩
    · refine List.nodup_append.mpr ⟨h.nodup hq, List.nodup_singleton p, ?_⟩
      rintro p' hp' r hr rfl
      obtain rfl := List.mem_singleton.mp hr
      obtain ⟨og, hog, -⟩ := h.upstream hq hp'
      cases hp.symm.trans hog
    · exact h.nodup hr
  mergeable {r ig'} hr hlen := by
    rcases update_eq_some hr with ⟨rfl, ⟨⟩⟩ | ⟨-, hr⟩
    · exact decide_eq_true hlen
    · exact h.mergeable hr hlen

/-- Output gates that lead to `q` are deleted.  What is left at `q`, an input gate or nothing, knows
the others. -/
theorem cut (h : Linked ogate igate) (hq : igate q = some ig) {gone : List ℕ}
    (hgone : ∀ p ∈ gone, p ∈ ig.ogatesUpstream) {left : Option (IGate V)}
    (hstays : ∀ p ∈ ig.ogatesUpstream, p ∉ gone → ∃ ig', left = some ig' ∧
      p ∈ ig'.ogatesUpstream ∧ ig'.module = ig.module ∧ ig'.gateIdx = ig.gateIdx)
    (hleft : ∀ ig', left = some ig' → ig'.ogatesUpstream.Sublist ig.ogatesUpstream ∧
      (∀ p ∈ ig'.ogatesUpstream, p ∉ gone) ∧ ig'.mergeable = ig.mergeable) :
    Linked (fun p => if p ∈ gone then none else ogate p) (Function.update igate q left) where
  leads {p og} hog := by
    split_ifs at hog with hp
    obtain ⟨ig', hig', hmem, hmod, hidx⟩ := h.leads hog
    by_cases hoq : og.igate = q
    · rw [hoq] at hig' ⊢
      obtain rfl := Option.some.inj (hq.symm.trans hig')
      obtain ⟨ig₁, rfl, hmem₁, hmod₁, hidx₁⟩ := hstays p hmem hp
      exact ⟨ig₁, Function.update_self _ _ _, hmem₁, hmod₁.trans hmod, hidx₁.trans hidx⟩
    · exact ⟨ig', (Function.update_of_ne hoq _ _).trans hig', hmem, hmod, hidx⟩
  upstream {r ig' p} hr hp := by
    rcases update_eq_some hr with ⟨rfl, hq'⟩ | ⟨hrq, hr⟩
    · obtain ⟨hsub, hnot, -⟩ := hleft ig' hq'
      obtain ⟨og, hog, higate⟩ := h.upstream hq (hsub.subset hp)
      exact ⟨og, (if_neg (hnot p hp)).trans hog, higate⟩
    · obtain ⟨og, hog, rfl⟩ := h.upstream hr hp
      have hnot : p ∉ gone := fun hmem => by
        obtain ⟨og', hog', rfl⟩ := h.upstream hq (hgone p hmem)
        obtain rfl := Option.some.inj (hog.symm.trans hog')
        exact hrq rfl
      exact ⟨og, (if_neg hnot).trans hog, rfl⟩
  nodup {r ig'} hr := by
    rcases update_eq_some hr with ⟨rfl, hq'⟩ | ⟨-, hr⟩
    · exact (h.nodup hq).sublist (hleft ig' hq').1
    · exact h.nodup hr
  mergeable {r ig'} hr hlen := by
    rcases update_eq_some hr with ⟨rfl, hq'⟩ | ⟨-, hr⟩
    · obtain ⟨hsub, -, hmerge⟩ := hleft ig' hq'
      exact hmerge.trans (h.mergeable hq (hlen.trans_le hsub.length_le))
    · exact h.mergeable hr hlen

end Linked

/-! ### The invariant -/

variable {lim : GateLimits V} {s : Gates V}

/-- The pointers of the modules and of the gates agree. -/
structure Consistent (lim : GateLimits V) (s : Gates V) : Prop extends
    Linked s.ogate s.igate where
  outs : Listed OGate.module OGate.gateIdx s.ogates s.ogate s.ogatesSize s.fresh
  ins : Listed IGate.module IGate.gateIdx s.igates s.igate s.igatesSize s.fresh
  igatesSize_le : ∀ x, s.igatesSize x ≤ lim.numIGates x

/-- What holds between two calls. -/
structure WF (lim : GateLimits V) (s : Gates V) : Prop extends Consistent lim s where
  nonempty : ∀ {q ig}, s.igate q = some ig → ig.ogatesUpstream ≠ []

theorem wf_empty : WF lim (empty : Gates V) := by
  refine ⟨⟨⟨?_, ?_, ?_, ?_⟩, ⟨?_, ?_, ?_, ?_⟩, ⟨?_, ?_, ?_, ?_⟩, ?_⟩, ?_⟩ <;> simp [empty]

variable [DecidableEq V]

/-! ### Connecting -/

theorem Consistent.grow (h : Consistent lim s) (m : V) (i : ℕ) {x : V} {j : ℕ}
    (hj : j < lim.numIGates x) : Consistent lim (s.grow m i x j) where
  toLinked := h.toLinked
  outs := h.outs.mono (fun m' => by
    by_cases hm : m' = m
    · subst hm
      simp [Gates.grow]
    · simp [Gates.grow, hm]) le_rfl
  ins := h.ins.mono (fun x' => by
    by_cases hx : x' = x
    · subst hx
      simp [Gates.grow]
    · simp [Gates.grow, hx]) le_rfl
  igatesSize_le x' := by
    by_cases hx : x' = x
    · subst hx
      simpa [Gates.grow] using ⟨h.igatesSize_le x', hj⟩
    · simpa [Gates.grow, hx] using h.igatesSize_le x'

/-- A new input gate, which no output gate leads to yet. -/
theorem Consistent.addIgate (h : Consistent lim s) {x : V} {j : ℕ} (hnone : s.igates x j = none)
    (hj : j < s.igatesSize x) : Consistent lim (s.findIgate x j).1 := by
  simp only [findIgate, hnone]
  exact ⟨h.toLinked.add h.ins.heap_fresh rfl, h.outs.mono (fun _ => le_rfl) (Nat.le_succ _),
    h.ins.add (g := (⟨x, j, [], false⟩ : IGate V)) hnone hj, h.igatesSize_le⟩

/-- A new output gate that leads to an input gate which is there. -/
theorem Consistent.attach (h : Consistent lim s) {m : V} {i : ℕ} (hnone : s.ogates m i = none)
    (hi : i < s.ogatesSize m) {q : ℕ} {ig : IGate V} (hq : s.igate q = some ig) :
    Consistent lim
      { s.setOgates m i (some s.fresh) with
        ogate := Function.update s.ogate s.fresh (some ⟨m, i, ig.module, q, ig.gateIdx⟩)
        igate := Function.update s.igate q (some (IGate.pushOgate ig s.fresh))
        fresh := s.fresh + 1 } where
  toLinked := h.toLinked.attach h.outs.heap_fresh hq m i
  outs := h.outs.add (g := (⟨m, i, ig.module, q, ig.gateIdx⟩ : OGate V)) hnone hi
  ins := (h.ins.replace (IGate.pushOgate ig s.fresh) hq rfl rfl).mono (fun _ => le_rfl)
    (Nat.le_succ _)
  igatesSize_le := h.igatesSize_le

/-! ### Disconnecting -/

/-- The output gates of a list are deleted, and their modules forget them. -/
def cut (s : Gates V) (gone : List ℕ) : Gates V :=
  { s with
    ogate := fun p => if p ∈ gone then none else s.ogate p
    ogates := fun m i => (s.ogates m i).filter (· ∉ gone) }

omit [DecidableEq V] in
theorem cut_nil (s : Gates V) : s.cut [] = s := by
  have hall (o : Option ℕ) : o.filter (fun _ => true) = o := by
    cases o <;> rfl
  simp [cut, hall]

theorem Consistent.dropUpstream_cut (h : Consistent lim s) {gone : List ℕ} {p : ℕ}
    (hp : p ∉ gone) {og : OGate V} (hog : s.ogate p = some og) :
    (s.cut gone).dropUpstream p = some (s.cut (gone ++ [p])) := by
  have hog' : (s.cut gone).ogate p = some og := (if_neg hp).trans hog
  rw [dropUpstream, hog', Option.map_some, Option.some.injEq]
  have hvec : setAt (s.cut gone).ogates og.module og.gateIdx none =
      fun m i => ((s.cut gone).ogates m i).filter (· ∉ [p]) := (h.outs.remove gone).setAt_none hog'
  have hogates : (fun m i => ((s.cut gone).ogates m i).filter (· ∉ [p])) =
      (s.cut (gone ++ [p])).ogates := by
    funext m i
    simp [cut, Option.filter_filter, Bool.and_comm]
  have hogate : Function.update (s.cut gone).ogate p none = (s.cut (gone ++ [p])).ogate := by
    funext p'
    by_cases hpp : p' = p
    · simp [cut, hpp]
    · simp [cut, hpp]
  simp only [setOgates, deleteOgate, cut, Gates.mk.injEq, and_true, true_and]
  exact ⟨hogate, hvec.trans hogates⟩

/-- The loop of `DisconnectModulesUpstream`. -/
theorem Consistent.foldlM_dropUpstream (h : Consistent lim s) :
    ∀ (gates gone : List ℕ), (gone ++ gates).Nodup →
      (∀ p ∈ gates, ∃ og, s.ogate p = some og) →
      gates.foldlM Gates.dropUpstream (s.cut gone) = some (s.cut (gone ++ gates))
  | [], gone, _, _ => by simp
  | p :: gates, gone, hnd, hlive => by
    obtain ⟨og, hog⟩ := hlive p List.mem_cons_self
    have hp : p ∉ gone := fun hmem =>
      (List.disjoint_of_nodup_append hnd) hmem List.mem_cons_self
    rw [List.foldlM_cons, h.dropUpstream_cut hp hog]
    have hrest := foldlM_dropUpstream h gates (gone ++ [p]) (by simpa using hnd)
      fun r hr => hlive r (List.mem_cons_of_mem _ hr)
    simpa using hrest

omit [DecidableEq V] in
/-- One of several output gates of an input gate is deleted. -/
theorem WF.detach (h : WF lim s) {p : ℕ} {og : OGate V} {ig : IGate V} (hog : s.ogate p = some og)
    (hig : s.igate og.igate = some ig) (hleft : ig.ogatesUpstream.erase p ≠ []) :
    WF lim { s.cut [p] with
      igate := Function.update s.igate og.igate
        (some { ig with ogatesUpstream := ig.ogatesUpstream.erase p }) } := by
  have hmem : p ∈ ig.ogatesUpstream := by
    obtain ⟨ig', hig', hmem, -⟩ := h.leads hog
    obtain rfl := Option.some.inj (hig.symm.trans hig')
    exact hmem
  have herase (r : ℕ) : r ∈ ig.ogatesUpstream.erase p ↔ r ≠ p ∧ r ∈ ig.ogatesUpstream :=
    (h.nodup hig).mem_erase_iff
  refine ⟨⟨h.toLinked.cut hig (by simpa using hmem) (fun r hr hrp => ?_) fun ig' hig' => ?_,
    h.outs.remove [p], h.ins.replace _ hig rfl rfl, h.igatesSize_le⟩, fun {q ig'} hq => ?_⟩
  · exact ⟨_, rfl, (herase r).mpr ⟨by simpa using hrp, hr⟩, rfl, rfl⟩
  · obtain rfl := Option.some.inj hig'
    exact ⟨List.erase_sublist, fun r hr => by simpa using ((herase r).mp hr).1, rfl⟩
  · rcases update_eq_some hq with ⟨rfl, ⟨⟩⟩ | ⟨-, hq⟩
    · exact hleft
    · exact h.nonempty hq

/-- An input gate is deleted with all its output gates. -/
theorem WF.dropIgate (h : WF lim s) {q : ℕ} {ig : IGate V} (hq : s.igate q = some ig) :
    WF lim (((s.cut ig.ogatesUpstream).setIgates ig.module ig.gateIdx none).deleteIgate q) := by
  refine ⟨⟨h.toLinked.cut hq (fun _ hp => hp) (fun p hp hnot => absurd hp hnot) (by simp),
    h.outs.remove ig.ogatesUpstream, h.ins.erase hq, h.igatesSize_le⟩, fun {r ig'} hr => ?_⟩
  rcases update_eq_some hr with ⟨-, ⟨⟩⟩ | ⟨-, hr⟩
  exact h.nonempty hr

end Backdraft.Gates

import Backdraft.QueueInc.Cdq

/-!
# The receiver's choice of a queue

`CheckQueuedCtrlMessages` of `bkdrft_queue_inc.cc`, over many calls.  The scan starts above the
queue that was selected last and goes up.  It does not come back to the lower queues in the same
call: when it finds nothing, the call returns false and the next one starts at the bottom.

* `Scan`, `Scan.Ready`, `scan`: what a call depends on, and what it does to the position;
* `scan_eq_some_iff`, `scan_eq_none_iff`: the choice is the lowest ready queue from the position
  on;
* `work_conserving_iff`: when a call finds a queue if there is one;
* `bounded_bypass`: a ready queue is selected after at most 32 calls that do not select it.
-/

namespace Backdraft

namespace Cdq

/-- What the choice depends on, besides the position: `overview_mask_` and the paused queues. -/
structure Scan where
  mask : BitVec 64
  paused : ℕ → Bool

/-- The queue is announced and not paused. -/
def Scan.Ready (c : Scan) (q : ℕ) : Prop := c.mask.getLsbD q = true ∧ c.paused q = false

instance (c : Scan) (q : ℕ) : Decidable (c.Ready q) := inferInstanceAs (Decidable (_ ∧ _))

/-- A call of `CheckQueuedCtrlMessages` from the position `pos`: the position it leaves and the
queue it selects. -/
def scan (pos : ℕ) (c : Scan) : ℕ × Option ℕ :=
  let r := checkQueuedCtrlMessages ⟨fun _ => 0, c.mask, pos⟩ c.paused
  (r.1.scanFrom, r.2)

variable {pos pos' q : ℕ} {c : Scan}

/-! ### One call -/

theorem check_eq_scan (s : Cdq) (paused : ℕ → Bool) :
    s.checkQueuedCtrlMessages paused =
      ({ s with scanFrom := (scan s.scanFrom ⟨s.overviewMask, paused⟩).1 },
        (scan s.scanFrom ⟨s.overviewMask, paused⟩).2) := by
  unfold scan checkQueuedCtrlMessages
  simp only
  split_ifs with hmask
  · split <;> rfl
  · rfl

theorem getLsbD_from (m : BitVec 64) (pos i : ℕ) :
    (m &&& (BitVec.allOnes 64 <<< pos)).getLsbD i = (m.getLsbD i && decide (pos ≤ i)) := by
  cases hi : m.getLsbD i with
  | false => simp [hi]
  | true =>
    have hlt := BitVec.lt_of_getLsbD hi
    rw [BitVec.getLsbD_and, hi, BitVec.getLsbD_shiftLeft, BitVec.getLsbD_allOnes,
      Bool.eq_iff_iff]
    simp
    omega

theorem scan_of_mask_eq_zero (h : c.mask = 0) (pos : ℕ) : scan pos c = (pos, none) := by
  simp [scan, checkQueuedCtrlMessages, h]

theorem Scan.Ready.mask_ne_zero (h : c.Ready q) : c.mask ≠ 0 := by
  intro hmask
  have hbit := h.1
  simp [hmask] at hbit

theorem scan_of_mask_ne_zero (h : c.mask ≠ 0) (pos : ℕ) :
    scan pos c =
      match Bits.firstOutside c.paused (c.mask &&& (BitVec.allOnes 64 <<< pos)) 65 with
      | some q => (q + 1, some q)
      | none => (0, none) := by
  simp only [scan, checkQueuedCtrlMessages, if_pos h]
  cases Bits.firstOutside c.paused (c.mask &&& (BitVec.allOnes 64 <<< pos)) 65 <;> rfl

/-- **The choice** is the lowest ready queue from the position on. -/
theorem scan_eq_some_iff :
    (scan pos c).2 = some q ↔ (c.Ready q ∧ pos ≤ q) ∧ ∀ i < q, c.Ready i → i < pos := by
  by_cases hmask : c.mask = 0
  · rw [scan_of_mask_eq_zero hmask]
    simp only [reduceCtorEq, false_iff]
    exact fun h => h.1.1.mask_ne_zero hmask
  · have hfound : (scan pos c).2 =
        Bits.firstOutside c.paused (c.mask &&& (BitVec.allOnes 64 <<< pos)) 65 := by
      rw [scan_of_mask_ne_zero hmask]
      cases Bits.firstOutside c.paused (c.mask &&& (BitVec.allOnes 64 <<< pos)) 65 <;> rfl
    rw [hfound, Bits.firstOutside_eq_some_iff]
    simp only [getLsbD_from, Bool.and_eq_true, decide_eq_true_eq, Scan.Ready]
    constructor
    · rintro ⟨⟨⟨hbit, hpos⟩, hpaused⟩, hlow⟩
      refine ⟨⟨⟨hbit, hpaused⟩, hpos⟩, fun i hi hready => ?_⟩
      by_contra hge
      exact absurd (hlow i hi ⟨hready.1, by omega⟩) (by simp [hready.2])
    · rintro ⟨⟨⟨hbit, hpaused⟩, hpos⟩, hlow⟩
      refine ⟨⟨⟨hbit, hpos⟩, hpaused⟩, fun i hi hmem => ?_⟩
      by_contra hfree
      have := hlow i hi ⟨hmem.1, by simpa using hfree⟩
      omega

/-- A call selects nothing when the ready queues are all below the position. -/
theorem scan_eq_none_iff : (scan pos c).2 = none ↔ ∀ q, c.Ready q → q < pos := by
  constructor
  · intro h q hq
    by_contra hge
    -- the lowest ready queue from the position on would be selected
    have hex : ∃ i, c.Ready i ∧ pos ≤ i := ⟨q, hq, by omega⟩
    have hsome := scan_eq_some_iff.2 ⟨Nat.find_spec hex, fun i hi hready => by
      have := Nat.find_min hex hi
      by_contra hle
      exact this ⟨hready, by omega⟩⟩
    rw [h] at hsome
    cases hsome
  · intro h
    cases hfound : (scan pos c).2 with
    | none => rfl
    | some q =>
      obtain ⟨⟨hready, hle⟩, -⟩ := scan_eq_some_iff.1 hfound
      have := h q hready
      omega

/-- The next call starts above the queue that was selected. -/
theorem scan_fst_of_some (h : (scan pos c).2 = some q) : (scan pos c).1 = q + 1 := by
  have hmask := (scan_eq_some_iff.1 h).1.1.mask_ne_zero
  rw [scan_of_mask_ne_zero hmask] at h ⊢
  split at h
  · cases h; rfl
  · cases h

/-- After a scan that found nothing, the next call starts at the bottom. -/
theorem scan_fst_of_none (hmask : c.mask ≠ 0) (h : (scan pos c).2 = none) :
    (scan pos c).1 = 0 := by
  rw [scan_of_mask_ne_zero hmask] at h ⊢
  split at h
  · cases h
  · rfl

/-! ### Work conservation -/

/-- A ready queue from the position on, if there is a ready queue at all. -/
def ReadyAhead (s : Cdq) (paused : ℕ → Bool) : Prop :=
  ∀ q, Scan.Ready ⟨s.overviewMask, paused⟩ q →
    ∃ q', s.scanFrom ≤ q' ∧ Scan.Ready ⟨s.overviewMask, paused⟩ q'

theorem check_isSome_iff (s : Cdq) (paused : ℕ → Bool) :
    (∃ q, (s.checkQueuedCtrlMessages paused).2 = some q) ↔
      ∃ q, s.scanFrom ≤ q ∧ Scan.Ready ⟨s.overviewMask, paused⟩ q := by
  rw [← Option.ne_none_iff_exists', check_eq_scan, ne_eq, scan_eq_none_iff]
  push Not
  exact exists_congr fun q => and_comm

theorem cdq_eq_none_iff {s u t : Cdq} {msgs : List DoorbellMsg} {paused : ℕ → Bool}
    {recv : ℕ → ℕ} {out : Option (ℕ × ℕ)} (hu : s.doorbell msgs = .ok u)
    (h : s.cdq msgs paused recv = .ok (t, out)) :
    out = none ↔ (u.checkQueuedCtrlMessages paused).2 = none := by
  obtain ⟨v, hv, hcase⟩ := cdq_eq_ok h
  obtain rfl : u = v := Except.ok.inj (hu.symm.trans hv)
  rcases hcase with ⟨hnone, rfl⟩ | ⟨w, qid, cnt, hsome, -, -, rfl⟩
  · simp [hnone]
  · simp [hsome]

/-- **When the receiver is work conserving.**  In any state and for any paused queues, a call of
`CheckQueuedCtrlMessages` returns true exactly when some queue is announced and not paused, and
selects such a queue, if and only if one of these queues is not below the position, or there is
none.  The same condition, after the messages of the doorbell queue, decides whether `CDQ` reads a
data queue when there is one to read. -/
theorem work_conserving_iff (s : Cdq) (paused : ℕ → Bool) :
    ((((∃ q, (s.checkQueuedCtrlMessages paused).2 = some q) ↔
          ∃ q, Scan.Ready ⟨s.overviewMask, paused⟩ q) ∧
        ∀ q, (s.checkQueuedCtrlMessages paused).2 = some q →
          Scan.Ready ⟨s.overviewMask, paused⟩ q) ↔ s.ReadyAhead paused) ∧
    ∀ msgs recv u t out, s.doorbell msgs = .ok u → s.cdq msgs paused recv = .ok (t, out) →
      (((∃ q, Scan.Ready ⟨u.overviewMask, paused⟩ q) → out ≠ none) ↔ u.ReadyAhead paused) := by
  have hsel : ∀ q, (s.checkQueuedCtrlMessages paused).2 = some q →
      Scan.Ready ⟨s.overviewMask, paused⟩ q := by
    intro q hq
    rw [check_eq_scan] at hq
    exact (scan_eq_some_iff.1 hq).1.1
  refine ⟨?_, fun msgs recv u t out hu hcdq => ?_⟩
  · rw [check_isSome_iff]
    constructor
    · rintro ⟨hiff, -⟩ q hq
      exact hiff.2 ⟨q, hq⟩
    · intro hahead
      refine ⟨⟨?_, ?_⟩, hsel⟩
      · rintro ⟨q, -, hq⟩
        exact ⟨q, hq⟩
      · rintro ⟨q, hq⟩
        exact hahead q hq
  · rw [ne_eq, cdq_eq_none_iff hu hcdq, ← ne_eq, Option.ne_none_iff_exists', check_isSome_iff]
    constructor
    · exact fun h q hq => h ⟨q, hq⟩
    · rintro h ⟨q, hq⟩
      exact h q hq

/-- Queue 3 is announced and queue 5 too; the scan from the bottom selects queue 3, and so does
`CDQ`. -/
theorem work_conserving_iff_two_queues :
    (∃ q, ((⟨fun _ => 1, 0x28, 0⟩ : Cdq).checkQueuedCtrlMessages fun _ => false).2 = some q) ∧
      ∃ t out, (⟨fun _ => 1, 0x28, 0⟩ : Cdq).cdq [] (fun _ => false) (fun _ => 1) = .ok (t, out) ∧
        out ≠ none := by
  have hready : Scan.Ready ⟨0x28, fun _ => false⟩ 3 := by decide
  have hahead : (⟨fun _ => 1, 0x28, 0⟩ : Cdq).ReadyAhead fun _ => false :=
    fun _ _ => ⟨3, Nat.zero_le _, hready⟩
  obtain ⟨hcheck, hcdq⟩ := work_conserving_iff ⟨fun _ => 1, 0x28, 0⟩ fun _ => false
  refine ⟨(hcheck.2 hahead).1.2 ⟨3, hready⟩, _, _, rfl, ?_⟩
  exact (hcdq [] (fun _ => 1) _ _ _ rfl rfl).2 hahead ⟨3, hready⟩

/-- One packet is announced for queue 5 and read; then one is announced for queue 0, which nobody
has paused.  The scan goes up from position 6, and `CDQ` reads nothing. -/
theorem ready_queue_not_read :
    ∃ a t, Run.ReachIf Account.step validQids Account.init a ∧ a.cdq.scanFrom = 6 ∧
      a.cdq.cdq [.ctrl 0 1] (fun _ => false) (fun _ => 1) = .ok (t, none) ∧
      Scan.Ready ⟨t.overviewMask, fun _ => false⟩ 0 := by
  have hrun : ((Run.exec Account.step validQids Account.init
      [⟨[.ctrl 5 1], fun _ => false, fun _ => 1⟩]).map fun a =>
      decide (a.cdq.scanFrom = 6) &&
        match a.cdq.cdq [.ctrl 0 1] (fun _ => false) (fun _ => 1) with
        | .ok (t, none) => decide (Scan.Ready ⟨t.overviewMask, fun _ => false⟩ 0)
        | _ => false) = some true := by
    decide +kernel
  obtain ⟨a, hreach, hdec⟩ := Run.exists_reachIf _ hrun
  obtain ⟨hpos, hcdq⟩ := Bool.and_eq_true_iff.1 hdec
  split at hcdq
  · exact ⟨a, _, hreach, of_decide_eq_true hpos, ‹_›, of_decide_eq_true hcdq⟩
  · cases hcdq

/-! ### Bounded bypass -/

/-- The results of calls that start from the position `pos`. -/
def results : ℕ → List Scan → List (Option ℕ)
  | _, [] => []
  | pos, c :: cs => (scan pos c).2 :: results (scan pos c).1 cs

/-- What a call from the position `pos` on may return while queue `q` is ready and not selected: on
the way up to `q` the queues before it; above `q` also the queues from the position on, and false
when these are done. -/
def BeforeTurn (q pos : ℕ) : Option ℕ → Prop
  | none => q < pos
  | some b => if pos ≤ q then pos ≤ b ∧ b < q else pos ≤ b ∨ b < q

/-- A call that does not select the ready queue `q` returns something that no later call can return
before `q` has its turn. -/
theorem beforeTurn_scan (hready : c.Ready q) (hne : (scan pos c).2 ≠ some q) :
    BeforeTurn q pos (scan pos c).2 ∧
      ∀ r, BeforeTurn q (scan pos c).1 r → BeforeTurn q pos r ∧ r ≠ (scan pos c).2 := by
  cases hfound : (scan pos c).2 with
  | none =>
    have hlt := scan_eq_none_iff.1 hfound q hready
    rw [scan_fst_of_none hready.mask_ne_zero hfound]
    refine ⟨hlt, fun r hr => ?_⟩
    cases r with
    | none => exact absurd hr (Nat.not_lt_zero q)
    | some b =>
      simp only [BeforeTurn, Nat.zero_le, if_true, true_and] at hr
      simp [BeforeTurn, Nat.not_le.2 hlt, hr]
  | some b =>
    obtain ⟨⟨-, hpos⟩, hlow⟩ := scan_eq_some_iff.1 hfound
    have hbq : b ≠ q := by
      rintro rfl
      exact hne hfound
    rw [scan_fst_of_some hfound]
    by_cases hup : pos ≤ q
    · -- the scan comes to a queue before `q`
      have hlt : b < q := by
        by_contra hge
        have := hlow q (by omega) hready
        omega
      refine ⟨by simp [BeforeTurn, hup, hpos, hlt], fun r hr => ?_⟩
      cases r with
      | none => exact absurd hr (by simp only [BeforeTurn]; omega)
      | some b' =>
        simp only [BeforeTurn, if_pos (show b + 1 ≤ q by omega)] at hr
        simp only [BeforeTurn, if_pos hup, ne_eq, Option.some.injEq]
        omega
    · refine ⟨by simp [BeforeTurn, hup, hpos], fun r hr => ?_⟩
      cases r with
      | none => exact ⟨Nat.not_le.1 hup, by simp⟩
      | some b' =>
        simp only [BeforeTurn, if_neg (show ¬ b + 1 ≤ q by omega)] at hr
        simp only [BeforeTurn, if_neg hup, ne_eq, Option.some.injEq]
        omega

/-- Until `q` is selected no result comes twice. -/
theorem nodup_results (cs : List Scan) (hready : ∀ c ∈ cs, c.Ready q)
    (hne : some q ∉ results pos cs) :
    (results pos cs).Nodup ∧ ∀ r ∈ results pos cs, BeforeTurn q pos r := by
  induction cs generalizing pos with
  | nil => simp [results]
  | cons c cs ih =>
    simp only [results, List.mem_cons, not_or] at hne ⊢
    obtain ⟨hfirst, hlater⟩ := beforeTurn_scan (hready c List.mem_cons_self) (Ne.symm hne.1)
    obtain ⟨hnodup, hrest⟩ := ih (fun c' hc' => hready c' (List.mem_cons_of_mem _ hc')) hne.2
    refine ⟨List.nodup_cons.2 ⟨fun hmem => ?_, hnodup⟩, ?_⟩
    · exact (hlater _ (hrest _ hmem)).2 rfl
    · rintro r (rfl | hr)
      · exact hfirst
      · exact (hlater r (hrest r hr)).1

theorem lt_of_mem_results (cs : List Scan)
    (hmask : ∀ c ∈ cs, ∀ i, c.mask.getLsbD i = true → i < maxQueuesPerDir) {b : ℕ}
    (hb : some b ∈ results pos cs) : b < maxQueuesPerDir := by
  induction cs generalizing pos with
  | nil => simp [results] at hb
  | cons c cs ih =>
    simp only [results, List.mem_cons] at hb
    rcases hb with hb | hb
    · exact hmask c List.mem_cons_self b (scan_eq_some_iff.1 hb.symm).1.1.1
    · exact ih (fun c' hc' => hmask c' (List.mem_cons_of_mem _ hc')) hb

/-- Calls that do not select the ready queue `q` are as many as there are other queues, and one
more that returns false. -/
theorem length_le_of_not_selected (cs : List Scan) (hq : q < maxQueuesPerDir)
    (hmask : ∀ c ∈ cs, ∀ i, c.mask.getLsbD i = true → i < maxQueuesPerDir)
    (hready : ∀ c ∈ cs, c.Ready q) (hne : some q ∉ results pos cs) :
    (results pos cs).length ≤ maxQueuesPerDir := by
  have hsub : results pos cs ⊆ none :: ((List.range maxQueuesPerDir).erase q).map some := by
    intro r hr
    cases r with
    | none => exact List.mem_cons_self
    | some b =>
      have hbq : b ≠ q := by
        rintro rfl
        exact hne hr
      refine List.mem_cons_of_mem _ (List.mem_map_of_mem ?_)
      exact (List.mem_erase_of_ne hbq).2 (List.mem_range.2 (lt_of_mem_results cs hmask hr))
  have hlen := (List.subperm_of_subset (nodup_results cs hready hne).1 hsub).length_le
  rw [List.length_cons, List.length_map, List.length_erase_of_mem (List.mem_range.2 hq),
    List.length_range] at hlen
  omega

@[simp] theorem length_results (pos : ℕ) (cs : List Scan) :
    (results pos cs).length = cs.length := by
  induction cs generalizing pos with
  | nil => rfl
  | cons c cs ih => simp [results, ih]

/-- **Bounded bypass.**  Let queue `q` be announced and not paused in every call of a sequence,
whatever else the masks and pauses are and wherever the scan starts.  As long as it is not
selected, no other queue is selected twice and at most one call returns false; and it is selected
within 33 calls. -/
theorem bounded_bypass (pos : ℕ) (cs : List Scan) (hq : q < maxQueuesPerDir)
    (hmask : ∀ c ∈ cs, ∀ i, c.mask.getLsbD i = true → i < maxQueuesPerDir)
    (hready : ∀ c ∈ cs, c.Ready q) :
    (some q ∉ results pos cs →
      (∀ b ≠ q, (results pos cs).count (some b) ≤ 1) ∧ (results pos cs).count none ≤ 1) ∧
    (maxQueuesPerDir + 1 ≤ cs.length →
      some q ∈ results pos (cs.take (maxQueuesPerDir + 1))) := by
  constructor
  · intro hne
    have hnodup := (nodup_results cs hready hne).1
    exact ⟨fun b _ => List.nodup_iff_count_le_one.1 hnodup _,
      List.nodup_iff_count_le_one.1 hnodup _⟩
  · intro hlen
    by_contra hne
    have hle := length_le_of_not_selected (cs.take (maxQueuesPerDir + 1)) hq
      (fun c hc => hmask c (List.mem_of_mem_take hc))
      (fun c hc => hready c (List.mem_of_mem_take hc)) hne
    rw [length_results, List.length_take] at hle
    omega

/-- The scan starts above queue 7, which stays announced, and all other queues are announced at
every call: queues 8 to 31, one call that returns false, and queues 0 to 6 come before it. -/
theorem bounded_bypass_all_announced :
    let calls : List Scan := List.replicate 33 ⟨0xffffffff, fun _ => false⟩
    some 7 ∈ results 8 (calls.take (maxQueuesPerDir + 1)) ∧ some 7 ∉ results 8 (calls.take 32) := by
  have hmem : ∀ c ∈ List.replicate 33 (⟨0xffffffff, fun _ => false⟩ : Scan),
      c = ⟨0xffffffff, fun _ => false⟩ := fun c hc => List.eq_of_mem_replicate hc
  have hmask : ∀ i, (0xffffffff#64).getLsbD i = true → i < maxQueuesPerDir := by
    intro i hi
    have hlt := BitVec.lt_of_getLsbD hi
    revert hi
    revert i
    decide
  refine ⟨(bounded_bypass 8 _ (by decide) (fun c hc => ?_) fun c hc => ?_).2 (by decide), ?_⟩
  · rw [hmem c hc]
    exact hmask
  · rw [hmem c hc]
    decide
  · decide +kernel

end Cdq

end Backdraft

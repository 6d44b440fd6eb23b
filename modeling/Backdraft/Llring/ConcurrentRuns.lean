import Backdraft.Llring.ConcurrentSafety

/-!
# Runs of the shared ring

What the users of a ring get, whatever the order in which the threads take their steps.

* `reach_fifo`: the objects given out are the accepted ones in the order of their publication, and
  each consumer has copied out exactly the objects it was given;
* `exists_progress`: while a call is going on, some thread can go on with its call;
* `reach_refused`: a call that is refused has found the ring without the room, or without the
  objects, that it asked for.
-/

namespace Backdraft.SharedRing

open Word Reservation

variable {τ α : Type} {mode : Mode} {s s' : SharedRing τ α} {t : τ} [Inhabited α] {slots : ℕ}
  {r : Llring α}

theorem inv_start (hpow : Llring.PowTwo slots) (hr : Llring.init slots = some r) :
    Inv mode (start r : SharedRing τ α) := by
  obtain ⟨hmask, hand⟩ := hpow.and_pred_self
  rw [Llring.init, if_neg (by simp [hand])] at hr
  cases hr
  exact {
    pow := hpow
    mask_eq := hmask
    length_ring := List.length_replicate
    prodHead := rfl
    prodTail := rfl
    consHead := rfl
    consTail := rfl
    taken_le := le_rfl
    room := Nat.zero_le _
    writers := tiling_of_none (fun _ => rfl) 0
    readers := tiling_of_none (fun _ => rfl) 0
    length_accepted := rfl
    length_granted := rfl
    granted_prefix := List.prefix_refl _
    stores := fun _ hj => absurd hj (Nat.not_lt_zero _)
    sound := fun _ => trivial
    oneProducer := fun _ _ _ => Bool.false_ne_true.elim
    oneConsumer := fun _ _ _ => Bool.false_ne_true.elim }

variable [DecidableEq τ]

/-- The parts of the ring that no step changes. -/
theorem frame_step {i : τ × Action α} (h : step mode s i = .ok s') :
    s'.r.slots = s.r.slots ∧ s'.r.watermark = s.r.watermark := by
  have henq : ∀ t c st, (s.enqueueStep mode t c st).r.slots = s.r.slots ∧
      (s.enqueueStep mode t c st).r.watermark = s.r.watermark := by
    intro t c st
    cases st with
    | head => exact ⟨rfl, rfl⟩
    | _ => simp only [enqueueStep]; split_ifs <;> exact ⟨rfl, rfl⟩
  have hdeq : ∀ t c st, (s.dequeueStep mode t c st).r.slots = s.r.slots ∧
      (s.dequeueStep mode t c st).r.watermark = s.r.watermark := by
    intro t c st
    cases st with
    | head => exact ⟨rfl, rfl⟩
    | _ => simp only [dequeueStep]; split_ifs <;> exact ⟨rfl, rfl⟩
  simp only [step] at h
  split at h
  · cases h
    exact henq _ _ _
  · cases h
    exact hdeq _ _ _
  · cases h
  · split_ifs at h
    cases h
    exact ⟨rfl, rfl⟩
  · split_ifs at h
    cases h
    exact ⟨rfl, rfl⟩

/-- A call goes on, except while it waits for the tail. -/
theorem pc_enqueueStep_ne {st : Stage} {c : EnqueueCall α} (ht : s.pc t = .enqueue st c)
    (htail : st = .tail → s.r.prodTail = c.prodHead) :
    (s.enqueueStep mode t c st).pc t ≠ s.pc t := by
  rw [ht]
  cases st with
  | head => simp [enqueueStep, goto]
  | tail => simp [enqueueStep, goto, htail rfl]
  | _ => simp only [enqueueStep]; split_ifs <;> simp [goto]

theorem pc_dequeueStep_ne {st : Stage} {c : DequeueCall α} (ht : s.pc t = .dequeue st c)
    (htail : st = .tail → s.r.consTail = c.consHead) :
    (s.dequeueStep mode t c st).pc t ≠ s.pc t := by
  rw [ht]
  cases st with
  | head => simp [dequeueStep, goto]
  | tail => simp [dequeueStep, goto, htail rfl]
  | _ => simp only [dequeueStep]; split_ifs <;> simp [goto]

/-- A producer with the lowest interval need not wait. -/
theorem Inv.exists_step_of_writing (h : Inv mode s) {n : ℕ}
    (ht : (s.pc t).writing = some (s.published, n)) :
    ∃ s', step mode s (t, .next) = .ok s' ∧ s'.pc t ≠ s.pc t := by
  cases hpc : s.pc t with
  | enqueue st c =>
    refine ⟨_, by rw [step, hpc], ?_⟩
    rw [← hpc]
    refine pc_enqueueStep_ne hpc ?_
    rintro rfl
    have hsound := h.sound t
    rw [hpc] at ht hsound
    obtain ⟨hmark, -⟩ := Prod.mk.inj (Option.some.inj ht)
    rw [h.prodTail, hsound.1, hmark]
  | _ => simp [hpc, Pc.writing] at ht

/-- A consumer with the lowest interval need not wait. -/
theorem Inv.exists_step_of_reading (h : Inv mode s) {n : ℕ}
    (ht : (s.pc t).reading = some (s.freed, n)) :
    ∃ s', step mode s (t, .next) = .ok s' ∧ s'.pc t ≠ s.pc t := by
  cases hpc : s.pc t with
  | dequeue st c =>
    refine ⟨_, by rw [step, hpc], ?_⟩
    rw [← hpc]
    refine pc_dequeueStep_ne hpc ?_
    rintro rfl
    have hsound := h.sound t
    rw [hpc] at ht hsound
    obtain ⟨hmark, -⟩ := Prod.mk.inj (Option.some.inj ht)
    rw [h.consTail, hsound.1, hmark]
  | _ => simp [hpc, Pc.reading] at ht

variable [Fintype τ]

theorem inv_of_reach (hpow : Llring.PowTwo slots) (hr : Llring.init slots = some r)
    (hreach : Run.ReachIf (step mode) (orderly mode) (start r) s) :
    Inv mode s ∧ s.r.slots = slots ∧ s.r.watermark = slots := by
  have hinit : r.slots = slots ∧ r.watermark = slots := by
    rw [Llring.init] at hr
    split_ifs at hr
    cases hr
    exact ⟨rfl, rfl⟩
  refine hreach.invariant (P := fun s => Inv mode s ∧ s.r.slots = slots ∧ s.r.watermark = slots)
    ⟨inv_start hpow hr, hinit⟩ fun u i v hu hord hstep => ?_
  obtain ⟨hslots, hwatermark⟩ := frame_step hstep
  exact ⟨inv_step hu.1 hord hstep, hslots.trans hu.2.1, hwatermark.trans hu.2.2⟩

/-- **First in, first out.**  In every orderly interleaving the objects given out and those in the
ring are the accepted objects in the order of their publication, the ring has fewer objects than
slots, and a call that has returned has the objects it was given, with their number. -/
theorem reach_fifo (hpow : Llring.PowTwo slots) (hr : Llring.init slots = some r)
    (hreach : Run.ReachIf (step mode) (orderly mode) (start r) s) :
    s.accepted = s.granted ++ s.queue ∧ s.queue.length < slots ∧
      (∀ t b ret n, s.pc t = .enqueued b ret n → b = .queueVariable → ret = n) ∧
      ∀ t b ret objs want, s.pc t = .dequeued b ret objs want →
        objs = want ∧ (b = .queueVariable → ret = objs.length) := by
  obtain ⟨hinv, hslots, hwatermark⟩ := inv_of_reach hpow hr hreach
  refine ⟨hinv.granted_append_queue.symm, ?_, fun t b ret n ht hb => ?_,
    fun t b ret objs want ht => ?_⟩
  · have hlen := hinv.length_queue
    have hmask := hinv.slots_eq
    have hroom := hinv.room
    have hfreed := hinv.readers.le
    have hpublished := hinv.writers.le
    omega
  · have hsound := hinv.sound t
    rw [ht] at hsound
    exact hsound hb (hwatermark.trans hslots.symm)
  · have hsound := hinv.sound t
    rw [ht] at hsound
    exact hsound

/-- Two producers, of which the second has to wait for the first, and a consumer. -/
theorem reach_fifo_two_producers :
    ∃ (r : Llring ℕ) (s : SharedRing (Fin 2) ℕ), Llring.init 4 = some r ∧
      Run.ReachIf (step ⟨false, false⟩) (orderly ⟨false, false⟩) (start r) s ∧
      s.pc 0 = .dequeued .queueVariable 3 [7, 8, 9] [7, 8, 9] ∧
      s.accepted = s.granted ++ s.queue ∧ s.queue.length < 4 := by
  have hrun : ∃ (r : Llring ℕ) (s : SharedRing (Fin 2) ℕ), Llring.init 4 = some r ∧
      Run.ReachIf (step ⟨false, false⟩) (orderly ⟨false, false⟩) (start r) s ∧
      decide (s.pc 0 = .dequeued .queueVariable 3 [7, 8, 9] [7, 8, 9]) = true :=
    Run.exists_init_reachIf ((0, .enqueue [7, 8] .queueVariable) :: List.replicate 3 (0, .next) ++
      (1, .enqueue [9] .queueVariable) :: List.replicate 6 (1, .next) ++
      List.replicate 4 (0, .next) ++ (1, .next) ::
      (0, .dequeue 4 .queueVariable) :: List.replicate 8 (0, .next)) (by decide +kernel)
  obtain ⟨r, s, hr, hreach, htest⟩ := hrun
  have hfifo := reach_fifo ⟨2, by decide, rfl⟩ hr hreach
  exact ⟨r, s, hr, hreach, of_decide_eq_true htest, hfifo.1, hfifo.2.1⟩

/-- **No deadlock.**  In every orderly interleaving, while a thread is in a call, some thread gets
on with its call. -/
theorem exists_progress (hpow : Llring.PowTwo slots) (hr : Llring.init slots = some r)
    (hreach : Run.ReachIf (step mode) (orderly mode) (start r) s) (t : τ)
    (ht : (s.pc t).idle = false) :
    ∃ u s', step mode s (u, .next) = .ok s' ∧ s'.pc u ≠ s.pc u := by
  obtain ⟨hinv, -, -⟩ := inv_of_reach hpow hr hreach
  cases hpc : s.pc t with
  | enqueue st c =>
    by_cases hst : st = .tail
    · subst hst
      have hwriting : (s.pc t).writing = some (c.mark, c.n) := by rw [hpc]; rfl
      obtain ⟨hlo, hhi, hn⟩ := hinv.writers.inside t _ _ hwriting
      obtain ⟨u, n, hu⟩ := hinv.writers.exists_first (by omega)
      exact ⟨u, hinv.exists_step_of_writing hu⟩
    · refine ⟨t, _, by rw [step, hpc], ?_⟩
      exact pc_enqueueStep_ne hpc fun hst' => absurd hst' hst
  | dequeue st c =>
    by_cases hst : st = .tail
    · subst hst
      have hreading : (s.pc t).reading = some (c.mark, c.n) := by rw [hpc]; rfl
      obtain ⟨hlo, hhi, hn⟩ := hinv.readers.inside t _ _ hreading
      obtain ⟨u, n, hu⟩ := hinv.readers.exists_first (by omega)
      exact ⟨u, hinv.exists_step_of_reading hu⟩
    · refine ⟨t, _, by rw [step, hpc], ?_⟩
      exact pc_dequeueStep_ne hpc fun hst' => absurd hst' hst
  | _ => simp [hpc, Pc.idle] at ht

/-- One producer waits for the other, which has not yet copied its objects. -/
theorem exists_progress_waiting :
    ∃ (r : Llring ℕ) (s : SharedRing (Fin 2) ℕ), Llring.init 4 = some r ∧
      Run.ReachIf (step ⟨false, false⟩) (orderly ⟨false, false⟩) (start r) s ∧
      (s.pc 1).idle = false ∧ ∃ u s', step ⟨false, false⟩ s (u, .next) = .ok s' ∧
        s'.pc u ≠ s.pc u := by
  have hrun : ∃ (r : Llring ℕ) (s : SharedRing (Fin 2) ℕ), Llring.init 4 = some r ∧
      Run.ReachIf (step ⟨false, false⟩) (orderly ⟨false, false⟩) (start r) s ∧
      (!(s.pc 1).idle) = true :=
    Run.exists_init_reachIf ((0, .enqueue [7, 8] .queueVariable) :: List.replicate 3 (0, .next) ++
      (1, .enqueue [9] .queueVariable) :: List.replicate 6 (1, .next)) (by decide +kernel)
  obtain ⟨r, s, hr, hreach, htest⟩ := hrun
  have hidle : (s.pc 1).idle = false := by simpa using htest
  exact ⟨r, s, hr, hreach, hidle, exists_progress ⟨2, by decide, rfl⟩ hr hreach 1 hidle⟩

/-- **Refused calls.**  In every orderly interleaving, an enqueue that stores nothing has found too
few free slots, where the slots that other calls still work on count as taken; a burst of one has
found none.  A dequeue that gets nothing has found too few objects, and a burst of one none. -/
theorem reach_refused (hpow : Llring.PowTwo slots) (hr : Llring.init slots = some r)
    (hreach : Run.ReachIf (step mode) (orderly mode) (start r) s) (t : τ)
    (hord : orderly mode s (t, .next) = true) (hstep : step mode s (t, .next) = .ok s') :
    (∀ c ret, s.pc t = .enqueue .other c → s'.pc t = .enqueued c.behavior ret 0 →
      slots ≤ s.reserved - s.freed + c.objs.length ∧
        (c.behavior = .queueVariable → s.reserved - s.freed + 1 = slots)) ∧
    ∀ c ret, s.pc t = .dequeue .other c → s'.pc t = .dequeued c.behavior ret [] [] →
      s.queue.length < c.max ∧ (c.behavior = .queueVariable → s.queue = []) := by
  obtain ⟨hinv, hslots, -⟩ := inv_of_reach hpow hr hreach
  have hmask := hinv.slots_eq
  have hroom := hinv.room
  have hfreed := hinv.readers.le
  have htaken := hinv.taken_le
  have hpublished := hinv.writers.le
  have hlen := hinv.length_queue
  constructor
  · intro c ret ht ht'
    have hsound := hinv.sound t
    rw [ht] at hsound
    obtain ⟨-, hseen⟩ := hsound
    have hle := hseen.2.1
    have htimely : s.reserved + s.r.slots ≤ c.mark + 2 ^ 32 := by
      simpa [orderly, ht, timely] using hord
    rw [step, ht] at hstep
    cases hstep
    simp only [enqueueStep, hinv.freeEntries_eq hseen htimely] at ht'
    split_ifs at ht' with hfixed hfull hpart
    · exact ⟨by omega, fun hb => absurd (hb.symm.trans hfixed.2) (by decide)⟩
    · exact ⟨by omega, fun _ => by omega⟩
    · simp [goto] at ht'
    · simp [goto] at ht'
  · intro c ret ht ht'
    have hsound := hinv.sound t
    rw [ht] at hsound
    obtain ⟨-, hseen⟩ := hsound
    have hle := hseen.2.1
    have htimely : s.reserved + s.r.slots ≤ c.mark + 2 ^ 32 := by
      simpa [orderly, ht, timely] using hord
    rw [step, ht] at hstep
    cases hstep
    simp only [dequeueStep, hinv.entries_eq hseen htimely] at ht'
    split_ifs at ht' with hfixed hempty hpart
    · exact ⟨by omega, fun hb => absurd (hb.symm.trans hfixed.2) (by decide)⟩
    · exact ⟨by omega, fun _ => List.length_eq_zero_iff.1 (by omega)⟩
    · simp [goto] at ht'
    · simp [goto] at ht'

/-- A ring of two slots has room for one object, and refuses the second. -/
theorem reach_refused_two_slots :
    ∃ (r : Llring ℕ) (s s' : SharedRing (Fin 2) ℕ), Llring.init 2 = some r ∧
      Run.ReachIf (step ⟨true, true⟩) (orderly ⟨true, true⟩) (start r) s ∧
      step ⟨true, true⟩ s (1, .next) = .ok s' ∧ s'.pc 1 = .enqueued .queueVariable 0 0 ∧
      s.reserved - s.freed + 1 = 2 := by
  have hrun : ∃ (r : Llring ℕ) (s : SharedRing (Fin 2) ℕ), Llring.init 2 = some r ∧
      Run.ReachIf (step ⟨true, true⟩) (orderly ⟨true, true⟩) (start r) s ∧
      (decide (s.pc 1 = .enqueue .other ⟨[8], .queueVariable, 1, 0, 0, 1⟩) &&
        orderly ⟨true, true⟩ s (1, .next) &&
        decide ((s.enqueueStep ⟨true, true⟩ 1 ⟨[8], .queueVariable, 1, 0, 0, 1⟩ .other).pc 1 =
          .enqueued .queueVariable 0 0)) = true :=
    Run.exists_init_reachIf ((0, .enqueue [7] .queueVariable) :: List.replicate 6 (0, .next) ++
      [(1, .enqueue [8] .queueVariable), (1, .next)]) (by decide +kernel)
  obtain ⟨r, s, hr, hreach, htest⟩ := hrun
  rw [Bool.and_eq_true, Bool.and_eq_true, decide_eq_true_eq, decide_eq_true_eq] at htest
  obtain ⟨⟨hpc, hord⟩, hpc'⟩ := htest
  have hstep : step ⟨true, true⟩ s (1, .next) =
      .ok (s.enqueueStep ⟨true, true⟩ 1 ⟨[8], .queueVariable, 1, 0, 0, 1⟩ .other) := by
    rw [step, hpc]
  have hrefused := reach_refused ⟨1, by decide, rfl⟩ hr hreach 1 hord hstep
  exact ⟨r, s, _, hr, hreach, hstep, hpc', (hrefused.1 _ _ hpc hpc').2 rfl⟩

end Backdraft.SharedRing

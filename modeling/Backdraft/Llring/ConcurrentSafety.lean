import Backdraft.Llring.ConcurrentInvariant

/-!
# Safety of the shared ring

Each step of a call keeps the invariant.

* `inv_step`: every orderly step keeps the invariant.
-/

namespace Backdraft.SharedRing

open Word Reservation

variable {τ α : Type} {mode : Mode} {s s' : SharedRing τ α} {t : τ} {p : Pc α}

/-! ### The steps that write -/

/-- Without a watermark a burst call returns the number of the objects it has stored. -/
theorem enqueueRet_eq {r : Llring α} {c : EnqueueCall α} (hb : c.behavior = .queueVariable)
    (hw : r.watermark = r.slots) (hpow : Llring.PowTwo r.slots) (hmask : r.mask = r.slots - 1)
    (hfree : c.n ≤ c.freeEntries ∧ c.freeEntries ≤ r.mask) : enqueueRet r c = c.n := by
  have hpos := hpow.pos
  have hlt := hpow.lt
  have hone : wadd 32 r.mask 1 = r.slots := by
    rw [wadd_of_lt (by omega)]
    omega
  have hin : wadd 32 (wsub 32 (wadd 32 r.mask 1) c.freeEntries) c.n ≤ r.watermark := by
    rw [hone, wsub_of_le (by omega) hlt, wadd_of_lt (by omega), hw]
    omega
  rw [enqueueRet, if_neg (by omega), hb]

variable [DecidableEq τ] [Inhabited α]

theorem Inv.enqueue_cas (h : Inv mode s) {c : EnqueueCall α} (ht : s.pc t = .enqueue .cas c)
    (htimely : s.reserved + s.r.slots ≤ c.mark + 2 ^ 32) :
    Inv mode (s.enqueueStep mode t c .cas) := by
  have hsound := h.sound t
  rw [ht] at hsound
  obtain ⟨hseen, hn, hlen, hfree, hroom⟩ := hsound
  have hfreed := h.readers.le
  have htaken := h.taken_le
  have hpublished := h.writers.le
  rw [enqueueStep]
  split_ifs with hcas
  · have hmark := eq_of_seen hseen (h.prodHead ▸ hcas) h.pow.pos htimely
    have hval : c.prodHead = s.reserved % 2 ^ 32 := hmark ▸ hseen.1
    have hnone : (s.pc t).writing = none := by rw [ht]; rfl
    exact { h with
      prodHead := by
        show wadd 32 c.prodHead c.n = _
        rw [hval, wadd_mod]
      room := by
        show s.reserved + c.n ≤ s.freed + s.r.mask
        omega
      writers := by
        show Tiling (fun u => (Function.update s.pc t _ u).writing) _ _
        rw [writing_update]
        exact h.writers.reserve hnone hn
      readers := by
        show Tiling (fun u => (Function.update s.pc t _ u).reading) _ _
        rw [reading_update, show Pc.reading (.enqueue (.copy 0) _) = (s.pc t).reading by
          rw [ht]; rfl]
        exact h.readers.keep t
      sound := forall_update s.pc
        ⟨hval, hlen, ⟨hfree, by show c.freeEntries ≤ s.r.mask; omega⟩, Nat.zero_le _,
          fun j hj => by simp at hj⟩
        fun u hu => (h.sound u).mono rfl rfl rfl (Nat.le_add_right _ _) le_rfl le_rfl le_rfl
          (fun hm hp => absurd (h.oneProducer hm u t hp (by rw [ht]; rfl)) hu) (fun _ _ => rfl)
          fun _ _ _ hl => hl
      oneProducer := fun hm => one_update s.pc (h.oneProducer hm) fun _ => .inl (by rw [ht]; rfl)
      oneConsumer := fun hm => one_update s.pc (h.oneConsumer hm) Bool.false_ne_true.elim }
  · exact h.goto (List.ne_nil_of_length_pos (by omega)) (by rw [ht]; rfl) (by rw [ht]; rfl)
      (fun _ _ => .inl (by rw [ht]; rfl)) (fun _ => Bool.false_ne_true.elim)

theorem Inv.enqueue_copy (h : Inv mode s) {c : EnqueueCall α} {i : ℕ}
    (ht : s.pc t = .enqueue (.copy i) c) : Inv mode (s.enqueueStep mode t c (.copy i)) := by
  have hsound := h.sound t
  rw [ht] at hsound
  obtain ⟨hval, hlen, hfree, hi, hstores⟩ := hsound
  have hwriting : (s.pc t).writing = some (c.mark, c.n) := by rw [ht]; rfl
  obtain ⟨hlo, hhi, -⟩ := h.writers.inside t _ _ hwriting
  have hslots := h.slots_eq
  have hroom := h.room
  have htaken := h.taken_le
  have hfreed := h.readers.le
  rw [enqueueStep]
  split_ifs with hin
  · -- the index that is written lies in the part of this thread
    have hplace : place s.r.slots (c.prodHead &&& s.r.mask) c.n i = (c.mark + i) % s.r.slots := by
      rw [h.mask_eq]
      exact place_eq h.pow hval (by omega) hin
    rw [hplace]
    have hother : ∀ {a : ℕ} {l : List α}, s.freed ≤ a → a + l.length ≤ s.reserved →
        (a + l.length ≤ c.mark + i ∨ c.mark + i < a) → s.Stores a l →
        ∀ {s' : SharedRing τ α},
          s'.r.ring = s.r.ring.set ((c.mark + i) % s.r.slots) (c.objs.getD i default) →
          s'.r.slots = s.r.slots → s'.Stores a l := by
      intro a l ha hl hap hst s' hring hslots'
      refine hst.set _ (fun j hj => mod_ne_mod s.freed ?_ ?_ ?_ ?_ ?_) hring hslots' <;>
        omega
    exact { h with
      length_ring := by
        show (s.r.ring.set _ _).length = _
        rw [List.length_set]
        exact h.length_ring
      writers := by
        show Tiling (fun u => (Function.update s.pc t _ u).writing) _ _
        rw [writing_update, show Pc.writing (.enqueue (.copy (i + 1)) c) = (s.pc t).writing by
          rw [ht]; rfl]
        exact h.writers.keep t
      readers := by
        show Tiling (fun u => (Function.update s.pc t _ u).reading) _ _
        rw [reading_update, show Pc.reading (.enqueue (.copy (i + 1)) c) = (s.pc t).reading by
          rw [ht]; rfl]
        exact h.readers.keep t
      stores := by
        have hqueue := h.length_queue
        exact hother (by omega) (by omega) (.inl (by omega)) h.stores rfl rfl
      sound := by
        refine forall_update s.pc ⟨hval, hlen, hfree, hin, ?_⟩ fun u hu =>
          (h.sound u).mono rfl rfl rfl le_rfl le_rfl le_rfl le_rfl (fun _ _ => rfl)
            (fun _ _ => rfl) ?_
        · have hsplit : c.objs.take (i + 1) = c.objs.take i ++ [c.objs.getD i default] := by
            rw [List.take_add_one, List.getElem?_eq_getElem (by omega), Option.toList_some,
              List.getD_eq_getElem _ _ (by omega)]
          rw [hsplit]
          have hi' : (c.objs.take i).length = i := by rw [List.length_take]; omega
          exact Stores.append (hother (by omega) (by omega) (.inl (by omega)) hstores rfl rfl)
            (hi'.symm ▸ stores_singleton h.length_ring h.pow.pos rfl rfl)
        · rintro a l ⟨k, hk, hw | hr⟩ hst
          · obtain ⟨halo, hahi, -⟩ := h.writers.inside u a k hw
            have hap := h.writers.apart u t a k _ _ hu hw hwriting
            exact hother (by omega) (by omega) (by omega) hst rfl rfl
          · obtain ⟨halo, hahi, -⟩ := h.readers.inside u a k hr
            exact hother (by omega) (by omega) (.inl (by omega)) hst rfl rfl
      oneProducer := fun hm => one_update s.pc (h.oneProducer hm) fun _ => .inl (by rw [ht]; rfl)
      oneConsumer := fun hm => one_update s.pc (h.oneConsumer hm) Bool.false_ne_true.elim }
  · obtain rfl : i = c.n := by omega
    exact h.goto ⟨hval, hlen, hfree, hstores⟩ (by rw [ht]; rfl) (by rw [ht]; rfl)
      (fun _ _ => .inl (by rw [ht]; rfl)) (fun _ => Bool.false_ne_true.elim)

theorem Inv.enqueue_tail (h : Inv mode s) {c : EnqueueCall α} (ht : s.pc t = .enqueue .tail c) :
    Inv mode (s.enqueueStep mode t c .tail) := by
  have hsound := h.sound t
  rw [ht] at hsound
  obtain ⟨hval, hlen, hfree, hstores⟩ := hsound
  have hwriting : (s.pc t).writing = some (c.mark, c.n) := by rw [ht]; rfl
  have htake : (c.objs.take c.n).length = c.n := by rw [List.length_take]; omega
  rw [enqueueStep]
  split_ifs with hwait
  · have hmark := h.mark_eq_published ht hwait
    have hqueue : (s.accepted ++ c.objs.take c.n).drop s.granted.length =
        s.queue ++ c.objs.take c.n := by
      rw [← h.granted_append_queue, List.append_assoc, List.drop_left]
    exact { h with
      prodTail := by
        show wadd 32 c.prodHead c.n = _
        rw [hval, hmark, wadd_mod]
      taken_le := h.taken_le.trans (Nat.le_add_right _ _)
      writers := by
        show Tiling (fun u => (Function.update s.pc t _ u).writing) _ _
        rw [writing_update]
        exact h.writers.release (hmark ▸ hwriting)
      readers := by
        show Tiling (fun u => (Function.update s.pc t _ u).reading) _ _
        rw [reading_update, show Pc.reading (.enqueued _ _ _) = (s.pc t).reading by rw [ht]; rfl]
        exact h.readers.keep t
      length_accepted := by
        show (s.accepted ++ c.objs.take c.n).length = _
        rw [List.length_append, htake, h.length_accepted]
      granted_prefix := h.granted_prefix.trans (List.prefix_append _ _)
      stores := by
        have hstart : s.taken + s.queue.length = c.mark := by
          have htaken := h.taken_le
          have hlenq := h.length_queue
          omega
        intro j hj
        refine Eq.trans (Stores.append h.stores (hstart ▸ hstores) j ?_) ?_
        · rw [← hqueue]
          exact hj
        · rw [← hqueue]
          rfl
      sound := forall_update s.pc (fun hb hw => enqueueRet_eq hb hw h.pow h.mask_eq hfree)
        fun u hu => (h.sound u).mono rfl rfl rfl le_rfl
        (Nat.le_add_right _ _) le_rfl le_rfl (fun _ _ => rfl) (fun _ _ => rfl) fun _ _ _ hl => hl
      oneProducer := fun hm => one_update s.pc (h.oneProducer hm) Bool.false_ne_true.elim
      oneConsumer := fun hm => one_update s.pc (h.oneConsumer hm) Bool.false_ne_true.elim }
  · exact h

theorem Inv.dequeue_cas (h : Inv mode s) {c : DequeueCall α} (ht : s.pc t = .dequeue .cas c)
    (htimely : s.reserved + s.r.slots ≤ c.mark + 2 ^ 32) :
    Inv mode (s.dequeueStep mode t c .cas) := by
  have hsound := h.sound t
  rw [ht] at hsound
  obtain ⟨hseen, hn, hmax, hpublished⟩ := hsound
  have htaken := h.taken_le
  have hreserved := h.writers.le
  rw [dequeueStep]
  split_ifs with hcas
  · have hmark := eq_of_seen hseen (h.consHead ▸ hcas) h.pow.pos (by omega)
    have hval : c.consHead = s.taken % 2 ^ 32 := hmark ▸ hseen.1
    have hnone : (s.pc t).reading = none := by rw [ht]; rfl
    have hlen : (s.queue.take c.n).length = c.n := by
      rw [List.length_take, h.length_queue]
      omega
    have hqueue : s.accepted.drop (s.granted ++ s.queue.take c.n).length = s.queue.drop c.n := by
      rw [List.length_append, hlen, queue, List.drop_drop]
    exact { h with
      consHead := by
        show wadd 32 c.consHead c.n = _
        rw [hval, wadd_mod]
      taken_le := by
        show s.taken + c.n ≤ s.published
        omega
      writers := by
        show Tiling (fun u => (Function.update s.pc t _ u).writing) _ _
        rw [writing_update, show Pc.writing (.dequeue (.copy 0) _) = (s.pc t).writing by
          rw [ht]; rfl]
        exact h.writers.keep t
      readers := by
        show Tiling (fun u => (Function.update s.pc t _ u).reading) _ _
        rw [reading_update]
        exact h.readers.reserve hnone hn
      length_granted := by
        show (s.granted ++ s.queue.take c.n).length = _
        rw [List.length_append, hlen, h.length_granted]
      granted_prefix := by
        show s.granted ++ s.queue.take c.n <+: s.accepted
        rw [← h.granted_append_queue]
        exact (List.prefix_append_right_inj _).2 (List.take_prefix _ _)
      stores := by
        intro j hj
        refine Eq.trans (h.stores.drop c.n j ?_) ?_
        · rw [← hqueue]
          exact hj
        · rw [← hqueue]
          rfl
      sound := forall_update s.pc
        ⟨hval, hlen, Nat.zero_le _, List.take_zero.symm, h.stores.take c.n⟩
        fun u hu => (h.sound u).mono rfl rfl rfl le_rfl le_rfl (Nat.le_add_right _ _) le_rfl
          (fun _ _ => rfl) (fun hm hp => absurd (h.oneConsumer hm u t hp (by rw [ht]; rfl)) hu)
          fun _ _ _ hl => hl
      oneProducer := fun hm => one_update s.pc (h.oneProducer hm) Bool.false_ne_true.elim
      oneConsumer := fun hm => one_update s.pc (h.oneConsumer hm) fun _ =>
        .inl (by rw [ht]; rfl) }
  · exact h.goto (by show 0 < c.max; omega) (by rw [ht]; rfl) (by rw [ht]; rfl)
      (fun _ => Bool.false_ne_true.elim)
      (fun _ _ => .inl (by rw [ht]; rfl))

theorem Inv.dequeue_copy (h : Inv mode s) {c : DequeueCall α} {i : ℕ}
    (ht : s.pc t = .dequeue (.copy i) c) : Inv mode (s.dequeueStep mode t c (.copy i)) := by
  have hsound := h.sound t
  rw [ht] at hsound
  obtain ⟨hval, hlen, hi, htable, hstores⟩ := hsound
  have hreading : (s.pc t).reading = some (c.mark, c.n) := by rw [ht]; rfl
  obtain ⟨hlo, hhi, -⟩ := h.readers.inside t _ _ hreading
  have hslots := h.slots_eq
  have hroom := h.room
  have htaken := h.taken_le
  have hpublished := h.writers.le
  rw [dequeueStep]
  split_ifs with hin
  · have hplace : place s.r.slots (c.consHead &&& s.r.mask) c.n i = (c.mark + i) % s.r.slots := by
      rw [h.mask_eq]
      exact place_eq h.pow hval (by omega) hin
    -- what is read is the object that was in the queue when the index was taken
    have hobj : s.r.ring.getD ((c.mark + i) % s.r.slots) default = c.want.getD i default := by
      rw [List.getD_eq_getElem?_getD, hstores i (by omega), List.getD_eq_getElem?_getD]
    have htable' : c.objTable ++ [c.want.getD i default] = c.want.take (i + 1) := by
      rw [htable, List.take_add_one, List.getElem?_eq_getElem (by omega), Option.toList_some,
        List.getD_eq_getElem _ _ (by omega)]
    rw [hplace, hobj]
    exact h.goto ⟨hval, hlen, hin, htable', hstores⟩ (by rw [ht]; rfl) (by rw [ht]; rfl)
      (fun _ => Bool.false_ne_true.elim)
      (fun _ _ => .inl (by rw [ht]; rfl))
  · obtain rfl : i = c.n := by omega
    exact h.goto ⟨hval, hlen, by rw [htable, ← hlen, List.take_length]⟩ (by rw [ht]; rfl)
      (by rw [ht]; rfl) (fun _ => Bool.false_ne_true.elim) (fun _ _ => .inl (by rw [ht]; rfl))

theorem Inv.dequeue_tail (h : Inv mode s) {c : DequeueCall α} (ht : s.pc t = .dequeue .tail c) :
    Inv mode (s.dequeueStep mode t c .tail) := by
  have hsound := h.sound t
  rw [ht] at hsound
  obtain ⟨hval, hlen, htable⟩ := hsound
  have hreading : (s.pc t).reading = some (c.mark, c.n) := by rw [ht]; rfl
  rw [dequeueStep]
  split_ifs with hwait
  · have hmark := h.mark_eq_freed ht hwait
    have hroom := h.room
    exact { h with
      consTail := by
        show wadd 32 c.consHead c.n = _
        rw [hval, hmark, wadd_mod]
      room := by
        show s.reserved ≤ s.freed + c.n + s.r.mask
        omega
      writers := by
        show Tiling (fun u => (Function.update s.pc t _ u).writing) _ _
        rw [writing_update, show Pc.writing (.dequeued _ _ _ _) = (s.pc t).writing by
          rw [ht]; rfl]
        exact h.writers.keep t
      readers := by
        show Tiling (fun u => (Function.update s.pc t _ u).reading) _ _
        rw [reading_update]
        exact h.readers.release (hmark ▸ hreading)
      sound := forall_update s.pc ⟨htable, fun hb => by rw [hb, htable, hlen]⟩ fun u hu =>
        (h.sound u).mono rfl rfl rfl le_rfl le_rfl le_rfl (Nat.le_add_right _ _)
          (fun _ _ => rfl) (fun _ _ => rfl) fun _ _ _ hl => hl
      oneProducer := fun hm => one_update s.pc (h.oneProducer hm) Bool.false_ne_true.elim
      oneConsumer := fun hm => one_update s.pc (h.oneConsumer hm) Bool.false_ne_true.elim }
  · exact h

/-! ### The reads -/

theorem Inv.enqueue_other (h : Inv mode s) {c : EnqueueCall α} (ht : s.pc t = .enqueue .other c)
    (htimely : s.reserved + s.r.slots ≤ c.mark + 2 ^ 32) :
    Inv mode (s.enqueueStep mode t c .other) := by
  have hsound := h.sound t
  rw [ht] at hsound
  obtain ⟨hobjs, hseen⟩ := hsound
  have hpos := List.length_pos_of_ne_nil hobjs
  have hroom := h.room
  have hle := hseen.2.1
  simp only [enqueueStep, h.freeEntries_eq hseen htimely]
  split_ifs with hfixed hfull hpart
  · exact h.leave (fun hb => absurd (hb.symm.trans hfixed.2) (by decide)) (by rw [ht]; rfl)
      (by rw [ht]; rfl) rfl rfl
  · exact h.leave (fun _ _ => rfl) (by rw [ht]; rfl) (by rw [ht]; rfl) rfl rfl
  · exact h.goto ⟨hseen, by show 0 < s.freed + s.r.mask - c.mark; omega,
      by show s.freed + s.r.mask - c.mark ≤ c.objs.length; omega, le_rfl,
      by show c.mark + (s.freed + s.r.mask - c.mark) ≤ s.freed + s.r.mask; omega⟩
      (by rw [ht]; rfl) (by rw [ht]; rfl) (fun _ _ => .inl (by rw [ht]; rfl))
      (fun _ => Bool.false_ne_true.elim)
  · exact h.goto ⟨hseen, hpos, le_rfl,
      by show c.objs.length ≤ s.freed + s.r.mask - c.mark; omega,
      by show c.mark + (s.freed + s.r.mask - c.mark) ≤ s.freed + s.r.mask; omega⟩
      (by rw [ht]; rfl) (by rw [ht]; rfl) (fun _ _ => .inl (by rw [ht]; rfl))
      (fun _ => Bool.false_ne_true.elim)

theorem Inv.dequeue_other (h : Inv mode s) {c : DequeueCall α} (ht : s.pc t = .dequeue .other c)
    (htimely : s.reserved + s.r.slots ≤ c.mark + 2 ^ 32) :
    Inv mode (s.dequeueStep mode t c .other) := by
  have hsound := h.sound t
  rw [ht] at hsound
  obtain ⟨hpos, hseen⟩ := hsound
  have htaken := h.taken_le
  have hle := hseen.2.1
  simp only [dequeueStep, h.entries_eq hseen htimely]
  split_ifs with hfixed hempty hpart
  · exact h.leave ⟨rfl, fun hb => absurd (hb.symm.trans hfixed.2) (by decide)⟩ (by rw [ht]; rfl)
      (by rw [ht]; rfl) rfl rfl
  · exact h.leave ⟨rfl, fun _ => rfl⟩ (by rw [ht]; rfl) (by rw [ht]; rfl) rfl rfl
  · exact h.goto ⟨hseen, by show 0 < s.published - c.mark; omega,
      by show s.published - c.mark ≤ c.max; omega,
      by show c.mark + (s.published - c.mark) ≤ s.published; omega⟩
      (by rw [ht]; rfl) (by rw [ht]; rfl)
      (fun _ => Bool.false_ne_true.elim) (fun _ _ => .inl (by rw [ht]; rfl))
  · exact h.goto ⟨hseen, hpos, le_rfl, by show c.mark + c.max ≤ s.published; omega⟩
      (by rw [ht]; rfl) (by rw [ht]; rfl)
      (fun _ => Bool.false_ne_true.elim) (fun _ _ => .inl (by rw [ht]; rfl))

/-! ### Every step -/

theorem Inv.enqueueStep [Fintype τ] (h : Inv mode s) {st : Stage} {c : EnqueueCall α}
    (ht : s.pc t = .enqueue st c) (hord : orderly mode s (t, .next) = true) :
    Inv mode (s.enqueueStep mode t c st) := by
  cases st with
  | head =>
    have hobjs := h.sound t
    rw [ht] at hobjs
    exact h.goto ⟨hobjs, h.prodHead, le_rfl, fun _ => rfl⟩ (by rw [ht]; rfl) (by rw [ht]; rfl)
      (fun _ _ => .inl (by rw [ht]; rfl)) (fun _ => Bool.false_ne_true.elim)
  | other => exact h.enqueue_other ht (by simpa [orderly, ht, timely] using hord)
  | cas => exact h.enqueue_cas ht (by simpa [orderly, ht, timely] using hord)
  | copy i => exact h.enqueue_copy ht
  | tail => exact h.enqueue_tail ht

theorem Inv.dequeueStep [Fintype τ] (h : Inv mode s) {st : Stage} {c : DequeueCall α}
    (ht : s.pc t = .dequeue st c) (hord : orderly mode s (t, .next) = true) :
    Inv mode (s.dequeueStep mode t c st) := by
  cases st with
  | head =>
    have hmax := h.sound t
    rw [ht] at hmax
    exact h.goto ⟨hmax, h.consHead, le_rfl, fun _ => rfl⟩ (by rw [ht]; rfl) (by rw [ht]; rfl)
      (fun _ => Bool.false_ne_true.elim)
      (fun _ _ => .inl (by rw [ht]; rfl))
  | other => exact h.dequeue_other ht (by simpa [orderly, ht, timely] using hord)
  | cas => exact h.dequeue_cas ht (by simpa [orderly, ht, timely] using hord)
  | copy i => exact h.dequeue_copy ht
  | tail => exact h.dequeue_tail ht

/-- **Every orderly step keeps the invariant.** -/
theorem inv_step [Fintype τ] {i : τ × Action α} (h : Inv mode s) (hord : orderly mode s i = true)
    (hstep : step mode s i = .ok s') : Inv mode s' := by
  obtain ⟨t, a⟩ := i
  cases a with
  | enqueue objs b =>
    simp only [step] at hstep
    split_ifs at hstep with hidle
    cases hstep
    obtain ⟨hw, hr⟩ := writing_reading_of_idle hidle
    simp only [orderly, Bool.and_eq_true, Bool.not_eq_true', List.isEmpty_eq_false_iff,
      Bool.or_eq_true, decide_eq_true_eq] at hord
    exact h.goto hord.1 hw.symm hr.symm
      (fun hm _ => .inr (hord.2.resolve_left (by simp [hm]))) (fun _ => Bool.false_ne_true.elim)
  | dequeue n b =>
    simp only [step] at hstep
    split_ifs at hstep with hidle
    cases hstep
    obtain ⟨hw, hr⟩ := writing_reading_of_idle hidle
    simp only [orderly, Bool.and_eq_true, Bool.not_eq_true', Bool.or_eq_true,
      decide_eq_true_eq] at hord
    exact h.goto hord.1 hw.symm hr.symm (fun _ => Bool.false_ne_true.elim)
      (fun hm _ => .inr (hord.2.resolve_left (by simp [hm])))
  | next =>
    cases ht : s.pc t with
    | enqueue st c =>
      simp only [step, ht] at hstep
      cases hstep
      exact h.enqueueStep ht hord
    | dequeue st c =>
      simp only [step, ht] at hstep
      cases hstep
      exact h.dequeueStep ht hord
    | _ => simp [step, ht] at hstep

end Backdraft.SharedRing

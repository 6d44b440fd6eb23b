import Backdraft.Llring.Concurrent

/-!
# The invariant of the shared ring

The invariant of every interleaving: the producers between their compare-and-set and their store to
the tail share out the indices from `published` to `reserved`, the consumers those from `freed` to
`taken`, and the four counts never differ by more than the capacity.  So two accesses to different
indices are accesses to different places of the ring.

* `Sound`: what is known of a thread at each place of its call;
* `Inv`: the invariant;
* `Sound.mono`, `Inv.goto`: what a step of one thread leaves of the others.
-/

namespace Backdraft.SharedRing

open Word Reservation

variable {τ α : Type} {mode : Mode} {s s' : SharedRing τ α} {t : τ} {p : Pc α}

/-! ### Places in the ring -/

/-- The ring has the objects of `l` at the indices from `a` on. -/
def Stores (s : SharedRing τ α) (a : ℕ) (l : List α) : Prop :=
  ∀ j < l.length, s.r.ring[(a + j) % s.r.slots]? = l[j]?

/-- Different indices in a window of the size of the ring have different places. -/
theorem mod_ne_mod {slots x y : ℕ} (lo : ℕ) (hx : lo ≤ x) (hx' : x < lo + slots) (hy : lo ≤ y)
    (hy' : y < lo + slots) (hne : x ≠ y) : x % slots ≠ y % slots := by
  intro hmod
  wlog hlt : x < y generalizing x y
  · exact this hy hy' hx hx' hne.symm hmod.symm (by omega)
  · have hzero : (y - x) % slots = 0 := Nat.sub_mod_eq_zero_of_mod_eq hmod.symm
    rw [Nat.mod_eq_of_lt (by omega)] at hzero
    omega

theorem place_eq {slots mark idx n i : ℕ} (hpow : Llring.PowTwo slots)
    (hidx : idx = mark % 2 ^ 32) (hn : n ≤ slots) (hi : i < n) :
    place slots (idx &&& (slots - 1)) n i = (mark + i) % slots := by
  have hslots := hpow.pos
  have hand : idx &&& (slots - 1) = mark % slots := by
    obtain ⟨k, hk, rfl⟩ := hpow
    rw [hidx, Nat.and_two_pow_sub_one_eq_mod, Nat.mod_mod_of_dvd _ (Nat.pow_dvd_pow 2 hk.le)]
  have hlt : mark % slots < slots := Nat.mod_lt _ hslots
  rw [hand, Nat.add_mod mark i, Nat.mod_eq_of_lt (show i < slots by omega), place]
  generalize mark % slots = first at hlt
  split_ifs with hend hwrap
  · rw [Nat.mod_eq_of_lt (by omega)]
  · rw [Nat.mod_eq_of_lt hwrap]
  · rw [Nat.mod_eq_sub_mod (by omega), Nat.mod_eq_of_lt (by omega)]

theorem mod_eq_mod_iff {a b : ℕ} (hab : a ≤ b) (hlt : b < a + 2 ^ 32) :
    b % 2 ^ 32 = a % 2 ^ 32 ↔ a = b := by
  refine ⟨fun h => ?_, fun h => by rw [h]⟩
  have hzero : (b - a) % 2 ^ 32 = 0 := Nat.sub_mod_eq_zero_of_mod_eq h
  rw [Nat.mod_eq_of_lt (by omega)] at hzero
  omega

/-- A write to another place leaves the objects. -/
theorem Stores.set {a : ℕ} {l : List α} (h : s.Stores a l) {x : ℕ} (v : α)
    (hne : ∀ j < l.length, (a + j) % s.r.slots ≠ x % s.r.slots) {s' : SharedRing τ α}
    (hring : s'.r.ring = s.r.ring.set (x % s.r.slots) v) (hslots : s'.r.slots = s.r.slots) :
    s'.Stores a l := by
  intro j hj
  rw [hslots, hring, List.getElem?_set_ne (hne j hj).symm]
  exact h j hj

theorem wadd_mod (x n : ℕ) : wadd 32 (x % 2 ^ 32) n = (x + n) % 2 ^ 32 := by
  rw [wadd, Nat.mod_add_mod]

theorem wsub_mod {x y : ℕ} (hle : y ≤ x) (hlt : x < y + 2 ^ 32) :
    wsub 32 (x % 2 ^ 32) (y % 2 ^ 32) = x - y := by
  rw [wsub_eq_iff (by omega)]
  calc x % 2 ^ 32 ≡ x [MOD 2 ^ 32] := Nat.mod_modEq x _
    _ = y + (x - y) := by omega
    _ ≡ y % 2 ^ 32 + (x - y) [MOD 2 ^ 32] := (Nat.mod_modEq y _).symm.add_right _

theorem Stores.append {a : ℕ} {l l' : List α} (h : s.Stores a l) (h' : s.Stores (a + l.length) l') :
    s.Stores a (l ++ l') := by
  intro j hj
  rw [List.length_append] at hj
  rcases Nat.lt_or_ge j l.length with hlt | hge
  · rw [List.getElem?_append_left hlt]
    exact h j hlt
  · rw [List.getElem?_append_right hge, ← h' (j - l.length) (by omega)]
    congr 2
    omega

theorem Stores.take {a : ℕ} {l : List α} (h : s.Stores a l) (n : ℕ) : s.Stores a (l.take n) := by
  intro j hj
  rw [List.length_take] at hj
  rw [List.getElem?_take_of_lt (by omega)]
  exact h j (by omega)

theorem Stores.drop {a : ℕ} {l : List α} (h : s.Stores a l) (n : ℕ) :
    s.Stores (a + n) (l.drop n) := by
  intro j hj
  rw [List.length_drop] at hj
  rw [List.getElem?_drop, Nat.add_assoc]
  exact h (n + j) (by omega)

/-- A write puts the object in its place. -/
theorem stores_singleton {x : ℕ} {v : α} (hlen : s.r.ring.length = s.r.slots) (hpos : 0 < s.r.slots)
    (hring : s'.r.ring = s.r.ring.set (x % s.r.slots) v) (hslots : s'.r.slots = s.r.slots) :
    s'.Stores x [v] := by
  intro j hj
  obtain rfl : j = 0 := by simpa using hj
  have hlt : x % s.r.slots < s.r.ring.length := by
    rw [hlen]
    exact Nat.mod_lt _ hpos
  rw [Nat.add_zero, hslots, hring, List.getElem?_set_self hlt]
  rfl

/-! ### The invariant -/

/-- A call has read an index, which was then at `mark`. -/
def Seen (single : Bool) (value mark count : ℕ) : Prop :=
  value = mark % 2 ^ 32 ∧ mark ≤ count ∧ (single = true → mark = count)

/-- What is known of a thread. -/
def Sound (mode : Mode) (s : SharedRing τ α) : Pc α → Prop
  | .ready => True
  | .enqueue .head c => c.objs ≠ []
  | .enqueue .other c => c.objs ≠ [] ∧ Seen mode.sp c.prodHead c.mark s.reserved
  | .enqueue .cas c => Seen mode.sp c.prodHead c.mark s.reserved ∧ 0 < c.n ∧
      c.n ≤ c.objs.length ∧ c.n ≤ c.freeEntries ∧ c.mark + c.freeEntries ≤ s.freed + s.r.mask
  | .enqueue (.copy i) c => c.prodHead = c.mark % 2 ^ 32 ∧ c.n ≤ c.objs.length ∧
      (c.n ≤ c.freeEntries ∧ c.freeEntries ≤ s.r.mask) ∧ i ≤ c.n ∧ s.Stores c.mark (c.objs.take i)
  | .enqueue .tail c => c.prodHead = c.mark % 2 ^ 32 ∧ c.n ≤ c.objs.length ∧
      (c.n ≤ c.freeEntries ∧ c.freeEntries ≤ s.r.mask) ∧ s.Stores c.mark (c.objs.take c.n)
  | .dequeue .head c => 0 < c.max
  | .dequeue .other c => 0 < c.max ∧ Seen mode.sc c.consHead c.mark s.taken
  | .dequeue .cas c => Seen mode.sc c.consHead c.mark s.taken ∧ 0 < c.n ∧ c.n ≤ c.max ∧
      c.mark + c.n ≤ s.published
  | .dequeue (.copy i) c => c.consHead = c.mark % 2 ^ 32 ∧ c.want.length = c.n ∧ i ≤ c.n ∧
      c.objTable = c.want.take i ∧ s.Stores c.mark c.want
  | .dequeue .tail c => c.consHead = c.mark % 2 ^ 32 ∧ c.want.length = c.n ∧
      c.objTable = c.want
  | .enqueued b ret n => b = .queueVariable → s.r.watermark = s.r.slots → ret = n
  | .dequeued b ret objs want => objs = want ∧ (b = .queueVariable → ret = objs.length)

/-- The invariant. -/
structure Inv (mode : Mode) (s : SharedRing τ α) : Prop where
  pow : Llring.PowTwo s.r.slots
  mask_eq : s.r.mask = s.r.slots - 1
  length_ring : s.r.ring.length = s.r.slots
  prodHead : s.r.prodHead = s.reserved % 2 ^ 32
  prodTail : s.r.prodTail = s.published % 2 ^ 32
  consHead : s.r.consHead = s.taken % 2 ^ 32
  consTail : s.r.consTail = s.freed % 2 ^ 32
  taken_le : s.taken ≤ s.published
  room : s.reserved ≤ s.freed + s.r.mask
  writers : Tiling (fun u => (s.pc u).writing) s.published s.reserved
  readers : Tiling (fun u => (s.pc u).reading) s.freed s.taken
  length_accepted : s.accepted.length = s.published
  length_granted : s.granted.length = s.taken
  granted_prefix : s.granted <+: s.accepted
  stores : s.Stores s.taken s.queue
  sound : ∀ u, Sound mode s (s.pc u)
  oneProducer : mode.sp = true →
    ∀ u w, (s.pc u).producing = true → (s.pc w).producing = true → u = w
  oneConsumer : mode.sc = true →
    ∀ u w, (s.pc u).consuming = true → (s.pc w).consuming = true → u = w

theorem Inv.mask_lt (h : Inv mode s) : s.r.mask < 2 ^ 32 := by
  have hlt := h.pow.lt
  rw [h.mask_eq]
  omega

theorem Inv.slots_eq (h : Inv mode s) : s.r.slots = s.r.mask + 1 := by
  have hpos := h.pow.pos
  rw [h.mask_eq]
  omega

theorem Inv.length_queue (h : Inv mode s) : s.queue.length = s.published - s.taken := by
  rw [queue, List.length_drop, h.length_accepted, h.length_granted]

/-- The indices of a thread, reserved or taken, with the first `k` of them. -/
def Owns (p : Pc α) (a k : ℕ) : Prop :=
  ∃ n, k ≤ n ∧ (p.writing = some (a, n) ∨ p.reading = some (a, n))

/-- What is known of a thread stays when the counts grow and its places are not written. -/
theorem Sound.mono (h : Sound mode s p) (hmask : s'.r.mask = s.r.mask)
    (hslots : s'.r.slots = s.r.slots) (hwatermark : s'.r.watermark = s.r.watermark)
    (hres : s.reserved ≤ s'.reserved) (hpub : s.published ≤ s'.published)
    (htak : s.taken ≤ s'.taken) (hfre : s.freed ≤ s'.freed)
    (hsp : mode.sp = true → p.producing = true → s'.reserved = s.reserved)
    (hsc : mode.sc = true → p.consuming = true → s'.taken = s.taken)
    (hst : ∀ a l, Owns p a l.length → s.Stores a l → s'.Stores a l) : Sound mode s' p := by
  cases p with
  | ready => trivial
  | enqueued b ret n => exact fun hb hw => h hb (by rwa [← hwatermark, ← hslots])
  | dequeued b ret objs want => exact h
  | enqueue st c =>
    cases st with
    | head => exact h
    | other =>
      obtain ⟨hne, hval, hle, hsingle⟩ := h
      exact ⟨hne, hval, hle.trans hres, fun hm => (hsingle hm).trans (hsp hm rfl).symm⟩
    | cas =>
      obtain ⟨⟨hval, hle, hsingle⟩, hn, hlen, hfree, hroom⟩ := h
      exact ⟨⟨hval, hle.trans hres, fun hm => (hsingle hm).trans (hsp hm rfl).symm⟩, hn, hlen,
        hfree, by omega⟩
    | copy i =>
      obtain ⟨hval, hlen, hfree, hi, hstores⟩ := h
      exact ⟨hval, hlen, hmask ▸ hfree, hi, hst _ _ ⟨c.n, by simp; omega, .inl rfl⟩ hstores⟩
    | tail =>
      obtain ⟨hval, hlen, hfree, hstores⟩ := h
      exact ⟨hval, hlen, hmask ▸ hfree, hst _ _ ⟨c.n, by simp, .inl rfl⟩ hstores⟩
  | dequeue st c =>
    cases st with
    | head => exact h
    | other =>
      obtain ⟨hpos, hval, hle, hsingle⟩ := h
      exact ⟨hpos, hval, hle.trans htak, fun hm => (hsingle hm).trans (hsc hm rfl).symm⟩
    | cas =>
      obtain ⟨⟨hval, hle, hsingle⟩, hn, hmax, hpublished⟩ := h
      exact ⟨⟨hval, hle.trans htak, fun hm => (hsingle hm).trans (hsc hm rfl).symm⟩, hn, hmax,
        hpublished.trans hpub⟩
    | copy i =>
      obtain ⟨hval, hlen, hi, htable, hstores⟩ := h
      exact ⟨hval, hlen, hi, htable, hst _ _ ⟨c.n, hlen.le, .inr rfl⟩ hstores⟩
    | tail => exact h

/-- The objects given out and those in the ring make up the accepted ones. -/
theorem Inv.granted_append_queue (h : Inv mode s) : s.granted ++ s.queue = s.accepted := by
  obtain ⟨rest, hrest⟩ := h.granted_prefix
  rw [queue, ← hrest, List.drop_left]

/-- A head that is found unchanged before the compare-and-set has not moved. -/
theorem eq_of_seen {single : Bool} {value mark count slots : ℕ} (h : Seen single value mark count)
    (hcas : single = true ∨ count % 2 ^ 32 = value) (hslots : 0 < slots)
    (htimely : count + slots ≤ mark + 2 ^ 32) : mark = count := by
  obtain ⟨rfl, hle, hsingle⟩ := h
  rcases hcas with hs | heq
  · exact hsingle hs
  · exact (mod_eq_mod_iff hle (by omega)).1 heq

theorem producing_of_writing {q : Pc α} (hq : q.writing ≠ none) : q.producing = true := by
  cases q with
  | enqueue st c => rfl
  | _ => exact absurd rfl hq

theorem consuming_of_reading {q : Pc α} (hq : q.reading ≠ none) : q.consuming = true := by
  cases q with
  | dequeue st c => rfl
  | _ => exact absurd rfl hq

/-- A producer that stores to the tail has the lowest interval. -/
theorem Inv.mark_eq_published (h : Inv mode s) {c : EnqueueCall α}
    (ht : s.pc t = .enqueue .tail c) (hwait : mode.sp = true ∨ s.r.prodTail = c.prodHead) :
    c.mark = s.published := by
  have hsound := h.sound t
  rw [ht] at hsound
  have hwriting : (s.pc t).writing = some (c.mark, c.n) := by rw [ht]; rfl
  obtain ⟨hlo, hhi, -⟩ := h.writers.inside t _ _ hwriting
  have hroom := h.room
  have hmask := h.mask_lt
  have htaken := h.taken_le
  have hfreed := h.readers.le
  rcases hwait with hsp | heq
  · exact h.writers.eq_of_alone (fun u hu =>
      h.oneProducer hsp u t (producing_of_writing hu) (by rw [ht]; rfl)) hwriting
  · rw [h.prodTail, hsound.1] at heq
    exact ((mod_eq_mod_iff hlo (by omega)).1 heq.symm).symm

/-- A consumer that stores to the tail has the lowest interval. -/
theorem Inv.mark_eq_freed (h : Inv mode s) {c : DequeueCall α}
    (ht : s.pc t = .dequeue .tail c) (hwait : mode.sc = true ∨ s.r.consTail = c.consHead) :
    c.mark = s.freed := by
  have hsound := h.sound t
  rw [ht] at hsound
  have hreading : (s.pc t).reading = some (c.mark, c.n) := by rw [ht]; rfl
  obtain ⟨hlo, hhi, -⟩ := h.readers.inside t _ _ hreading
  have hroom := h.room
  have hmask := h.mask_lt
  have htaken := h.taken_le
  have hpublished := h.writers.le
  rcases hwait with hsc | heq
  · exact h.readers.eq_of_alone (fun u hu =>
      h.oneConsumer hsc u t (consuming_of_reading hu) (by rw [ht]; rfl)) hreading
  · rw [h.consTail, hsound.1] at heq
    exact ((mod_eq_mod_iff hlo (by omega)).1 heq.symm).symm

/-- The free entries that a producer computes, with the counts of what it has read. -/
theorem Inv.freeEntries_eq (h : Inv mode s) {value mark : ℕ}
    (hseen : Seen mode.sp value mark s.reserved)
    (htimely : s.reserved + s.r.slots ≤ mark + 2 ^ 32) :
    wsub 32 (wadd 32 s.r.mask s.r.consTail) value = s.freed + s.r.mask - mark := by
  obtain ⟨rfl, hle, -⟩ := hseen
  have hslots := h.slots_eq
  have hroom := h.room
  have hfreed := h.readers.le
  have htaken := h.taken_le
  have hpublished := h.writers.le
  have hsum : wadd 32 s.r.mask s.r.consTail = (s.freed + s.r.mask) % 2 ^ 32 := by
    rw [h.consTail, wadd, Nat.add_mod_mod, Nat.add_comm]
  rw [hsum, wsub_mod (by omega) (by omega)]

/-- The entries that a consumer computes, with the counts of what it has read. -/
theorem Inv.entries_eq (h : Inv mode s) {value mark : ℕ} (hseen : Seen mode.sc value mark s.taken)
    (htimely : s.reserved + s.r.slots ≤ mark + 2 ^ 32) :
    wsub 32 s.r.prodTail value = s.published - mark := by
  obtain ⟨rfl, hle, -⟩ := hseen
  have hslots := h.pow.pos
  have htaken := h.taken_le
  have hpublished := h.writers.le
  rw [h.prodTail, wsub_mod (by omega) (by omega)]

/-- An idle thread has no interval. -/
theorem writing_reading_of_idle {q : Pc α} (hq : q.idle = true) :
    q.writing = none ∧ q.reading = none := by
  cases q with
  | enqueue st c => exact absurd hq nofun
  | dequeue st c => exact absurd hq nofun
  | _ => exact ⟨rfl, rfl⟩

variable [DecidableEq τ]

theorem writing_update (pc : τ → Pc α) (t : τ) (p : Pc α) :
    (fun u => (Function.update pc t p u).writing) =
      Function.update (fun u => (pc u).writing) t p.writing := by
  funext u
  exact Function.apply_update (fun _ q => Pc.writing q) pc t p u

theorem reading_update (pc : τ → Pc α) (t : τ) (p : Pc α) :
    (fun u => (Function.update pc t p u).reading) =
      Function.update (fun u => (pc u).reading) t p.reading := by
  funext u
  exact Function.apply_update (fun _ q => Pc.reading q) pc t p u

/-- What holds of every thread, when it holds of the one that moves and of the others. -/
theorem forall_update {P : Pc α → Prop} (pc : τ → Pc α) (hp : P p) (h : ∀ u, u ≠ t → P (pc u)) :
    ∀ u, P (Function.update pc t p u) := by
  intro u
  by_cases hu : u = t
  · rw [hu, Function.update_self]
    exact hp
  · rw [Function.update_of_ne hu]
    exact h u hu

/-- A thread that was on one side, or is the first there, is still the only one. -/
theorem one_update {side : Pc α → Bool} (pc : τ → Pc α)
    (hone : ∀ u w, side (pc u) = true → side (pc w) = true → u = w)
    (hp : side p = true → side (pc t) = true ∨ ∀ u, side (pc u) = false) (u w : τ)
    (hu : side (Function.update pc t p u) = true) (hw : side (Function.update pc t p w) = true) :
    u = w := by
  rw [Function.update_apply] at hu hw
  split_ifs at hu hw with hut hwt hwt
  · rw [hut, hwt]
  · rcases hp hu with ht | hnone
    · exact hut.trans (hone t w ht hw)
    · simp [hnone w] at hw
  · rcases hp hw with ht | hnone
    · exact (hone u t hu ht).trans hwt.symm
    · simp [hnone u] at hu
  · exact hone u w hu hw

/-- A step of a thread that leaves the shared memory and its interval. -/
theorem Inv.goto (h : Inv mode s) (hsound : Sound mode s p)
    (hw : p.writing = (s.pc t).writing) (hr : p.reading = (s.pc t).reading)
    (hprod : mode.sp = true → p.producing = true →
      (s.pc t).producing = true ∨ ∀ u, (s.pc u).producing = false)
    (hcons : mode.sc = true → p.consuming = true →
      (s.pc t).consuming = true ∨ ∀ u, (s.pc u).consuming = false) : Inv mode (s.goto t p) where
  pow := h.pow
  mask_eq := h.mask_eq
  length_ring := h.length_ring
  prodHead := h.prodHead
  prodTail := h.prodTail
  consHead := h.consHead
  consTail := h.consTail
  taken_le := h.taken_le
  room := h.room
  writers := by
    rw [SharedRing.goto, writing_update, hw]
    exact h.writers.keep t
  readers := by
    rw [SharedRing.goto, reading_update, hr]
    exact h.readers.keep t
  length_accepted := h.length_accepted
  length_granted := h.length_granted
  granted_prefix := h.granted_prefix
  stores := h.stores
  sound := forall_update (P := fun q => Sound mode (s.goto t p) q) s.pc
    (hsound.mono rfl rfl rfl le_rfl le_rfl le_rfl le_rfl (fun _ _ => rfl) (fun _ _ => rfl)
      fun _ _ _ hl => hl)
    fun u _ => (h.sound u).mono rfl rfl rfl le_rfl le_rfl le_rfl le_rfl (fun _ _ => rfl)
      (fun _ _ => rfl) fun _ _ _ hl => hl
  oneProducer := fun hm => one_update s.pc (h.oneProducer hm) (hprod hm)
  oneConsumer := fun hm => one_update s.pc (h.oneConsumer hm) (hcons hm)

/-- A thread goes to a place outside of all calls. -/
theorem Inv.leave (h : Inv mode s) (hsound : Sound mode s p)
    (hw : p.writing = (s.pc t).writing) (hr : p.reading = (s.pc t).reading)
    (hprod : p.producing = false) (hcons : p.consuming = false) : Inv mode (s.goto t p) :=
  h.goto hsound hw hr (fun _ hp => absurd (hprod.symm.trans hp) Bool.false_ne_true)
    fun _ hp => absurd (hcons.symm.trans hp) Bool.false_ne_true

end Backdraft.SharedRing

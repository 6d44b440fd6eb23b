import Backdraft.Lib.Bits
import Backdraft.Lib.Run
import Backdraft.QueueInc.Cdq

/-!
# Queue selection of the vport client, for any number of queues

`vport_poll_ctrl_queue_expose_qid` keeps `queue_status`, with the packets announced and not yet
read, and `overview_segment`, a bit for each queue whose entry is positive; `_select_queue` looks
for the lowest bit.  The sizes of the tables are computed from `MAX_QUEUES_PER_DIR`.  Here that
constant is the parameter `n`.

* `SelectTables n`: the tables, and what messages, the selection and readings do to them;
* `Exact`: the bits say which entries are positive (`Exact.step`);
* `selection_sound_iff`: the tables are large enough, and the selection is right, exactly if `n` is
  a positive multiple of 64.
-/

namespace Backdraft.Client

open Bits

/-- What the language leaves undefined. -/
inductive VportFault
  /-- an access to `queue_status` outside its entries -/
  | statusOutOfRange
  /-- an access to `overview_segment` outside its entries -/
  | overviewOutOfRange
  /-- `j %= count_overview_seg` for a count of zero -/
  | divisionByZero
  deriving DecidableEq

/-- A value for a variable of type `int32_t`, after arithmetic in `uint32_t`. -/
def toInt32 (x : ℤ) : ℤ := x.bmod (2 ^ 32)

/-- `queue_status` and `overview_segment`, for `n` as `MAX_QUEUES_PER_DIR`; `count_overview_seg` is
`n / 64`. -/
structure SelectTables (n : ℕ) where
  queueStatus : Vector ℤ n
  overviewSegment : Vector (BitVec 64) (n / 64)
  deriving DecidableEq

/-- What happens to the tables: a control message, and a reading of the selected queue that gives
`nbDataRx` packets. -/
inductive TableOp
  | message (dqid dqBurst : ℕ)
  | read (nbDataRx : ℕ)
  deriving DecidableEq

namespace SelectTables

variable {n : ℕ}

/-- The tables are static, and zero at the start. -/
def start (n : ℕ) : SelectTables n := ⟨Vector.replicate n 0, Vector.replicate (n / 64) 0#64⟩

/-- The entry of a queue, and zero for a queue that has none. -/
def status (s : SelectTables n) (q : ℕ) : ℤ := s.queueStatus[q]?.getD 0

/-- An access to the word of `overview_segment` that holds the bit of `q`. -/
def updateWord (s : SelectTables n) (q : ℕ) (f : BitVec 64 → BitVec 64) :
    Except VportFault (SelectTables n) :=
  match s.overviewSegment[q / 64]? with
  | none => .error .overviewOutOfRange
  | some word =>
    .ok { s with overviewSegment := s.overviewSegment.setIfInBounds (q / 64) (f word) }

/-- The tables after one control message. -/
def addAnnounced (s : SelectTables n) (dqid dqBurst : ℕ) : Except VportFault (SelectTables n) :=
  match s.queueStatus[dqid]? with
  | none => .error .statusOutOfRange
  | some status =>
    let status := toInt32 (status + dqBurst)
    let s := { s with queueStatus := s.queueStatus.setIfInBounds dqid status }
    if 0 < status then s.updateWord dqid fun word => word ||| 1#64 <<< (dqid % 64) else .ok s

/-- The loop of `_select_queue` from word `j` on. -/
def selectFrom (s : SelectTables n) : ℕ → ℕ → Except VportFault (Option ℕ)
  | 0, _ => .ok none
  | fuel + 1, j =>
    match s.overviewSegment[j]? with
    | none => .error .overviewOutOfRange
    | some word =>
      match ffs word with
      | selectedBit + 1 =>
        match s.queueStatus[selectedBit + j * 64]? with
        | none => .error .statusOutOfRange
        | some _ => .ok (some (selectedBit + j * 64))
      | 0 =>
        if n / 64 = 0 then .error .divisionByZero
        else if (j + 1) % (n / 64) = 0 then .ok none
        else s.selectFrom fuel ((j + 1) % (n / 64))

/-- `_select_queue`. -/
def selectQueue (s : SelectTables n) : Except VportFault (Option ℕ) :=
  s.selectFrom (n / 64 + 1) 0

/-- The tables after `k` packets of a queue were read. -/
def subRead (s : SelectTables n) (dqid k : ℕ) : Except VportFault (SelectTables n) :=
  match s.queueStatus[dqid]? with
  | none => .error .statusOutOfRange
  | some status =>
    let status := toInt32 (status - k)
    let s := { s with queueStatus := s.queueStatus.setIfInBounds dqid status }
    if status ≤ 0 then s.updateWord dqid fun word => word &&& ~~~(1#64 <<< (dqid % 64)) else .ok s

/-- One message, or the selection and a reading; a reading without packets polls again. -/
def step (s : SelectTables n) : TableOp → Except VportFault (SelectTables n)
  | .message dqid dqBurst => s.addAnnounced dqid dqBurst
  | .read nbDataRx =>
    match s.selectQueue with
    | .error e => .error e
    | .ok none => .ok s
    | .ok (some dqid) => if nbDataRx = 0 then .ok s else s.subRead dqid nbDataRx

/-- A message for a queue that exists and whose entry stays an `int32_t`, or a reading of at most
`UINT16_MAX` packets. -/
def fits (s : SelectTables n) : TableOp → Bool
  | .message dqid dqBurst => dqid < n && s.status dqid + dqBurst < 2 ^ 31
  | .read nbDataRx => nbDataRx < 2 ^ 16

end SelectTables

/-! ### Messages and readings -/

namespace SelectTables

variable {n : ℕ} {s : SelectTables n}

theorem status_eq {q : ℕ} (h : q < n) : s.queueStatus[q]? = some (s.status q) := by
  rw [status, Vector.getElem?_eq_getElem h, Option.getD_some]

theorem status_of_le {q : ℕ} (h : n ≤ q) : s.status q = 0 := by
  rw [status, Vector.getElem?_eq_none h, Option.getD_none]

theorem status_set {q : ℕ} (hq : q < n) (v : ℤ) (ws : Vector (BitVec 64) (n / 64)) (x : ℕ) :
    status ⟨s.queueStatus.setIfInBounds q v, ws⟩ x = if x = q then v else s.status x := by
  unfold status
  rw [Vector.getElem?_setIfInBounds]
  by_cases hx : x = q
  · rw [if_pos hx.symm, if_pos hx, if_pos hq, Option.getD_some]
  · rw [if_neg (Ne.symm hx), if_neg hx]

/-- With a multiple of 64 queues, each queue has its bit. -/
theorem exists_word (h64 : 64 ∣ n) {q : ℕ} (hq : q < n) :
    ∃ word, s.overviewSegment[q / 64]? = some word :=
  ⟨_, Vector.getElem?_eq_getElem (Nat.div_lt_div_of_lt_of_dvd h64 hq)⟩

/-- A message adds to the entry, and sets the bit if that makes it positive. -/
theorem addAnnounced_spec (h64 : 64 ∣ n) {q : ℕ} (hq : q < n) (b : ℕ) :
    ∃ s', s.addAnnounced q b = .ok s' ∧
      (∀ x, s'.status x = if x = q then toInt32 (s.status q + b) else s.status x) ∧
      ∀ x, bitAt s'.overviewSegment x =
        (bitAt s.overviewSegment x || decide (x = q ∧ 0 < toInt32 (s.status q + b))) := by
  obtain ⟨word, hword⟩ := exists_word (s := s) h64 hq
  simp only [addAnnounced, status_eq hq]
  by_cases hpos : 0 < toInt32 (s.status q + b)
  · rw [if_pos hpos, updateWord]
    simp only [hword]
    refine ⟨_, rfl, status_set hq _ _, fun x => ?_⟩
    rw [bitAt_turnOn (by decide) hword]
    simp [hpos]
  · rw [if_neg hpos]
    exact ⟨_, rfl, status_set hq _ _, fun x => by simp [hpos]⟩

/-- A reading subtracts from the entry, and clears the bit if that leaves nothing. -/
theorem subRead_spec (h64 : 64 ∣ n) {q : ℕ} (hq : q < n) (k : ℕ) :
    ∃ s', s.subRead q k = .ok s' ∧
      (∀ x, s'.status x = if x = q then toInt32 (s.status q - k) else s.status x) ∧
      ∀ x, bitAt s'.overviewSegment x =
        (bitAt s.overviewSegment x && decide (x = q → 0 < toInt32 (s.status q - k))) := by
  obtain ⟨word, hword⟩ := exists_word (s := s) h64 hq
  simp only [subRead, status_eq hq]
  by_cases hpos : toInt32 (s.status q - k) ≤ 0
  · rw [if_pos hpos, updateWord]
    simp only [hword]
    refine ⟨_, rfl, status_set hq _ _, fun x => ?_⟩
    rw [bitAt_turnOff (by decide) hword]
    simp [Int.not_lt.2 hpos]
  · rw [if_neg hpos]
    exact ⟨_, rfl, status_set hq _ _, fun x => by simp [Int.not_le.1 hpos]⟩

/-! ### The selection -/

/-- The bit that `ffs` names is set. -/
theorem bitAt_of_ffs {j b : ℕ} (hj : j < n / 64) (hffs : ffs s.overviewSegment[j] = b + 1) :
    b < 64 ∧ bitAt s.overviewSegment (b + j * 64) = true := by
  have hbit := getLsbD_of_ffs hffs
  have hb : b < 64 := BitVec.lt_of_getLsbD hbit
  have hdiv : (b + j * 64) / 64 = j := by omega
  have hmod : (b + j * 64) % 64 = b := by omega
  have hword : s.overviewSegment[j]? = some s.overviewSegment[j] := Vector.getElem?_eq_getElem hj
  refine ⟨hb, ?_⟩
  rw [bitAt_of_word (m := s.overviewSegment[j]) (by rw [hdiv, hword]), hmod]
  exact hbit

/-- After an empty word, what is set lies in the words after it. -/
theorem le_of_ffs_zero {j q : ℕ} (hj : j < n / 64) (hffs : ffs s.overviewSegment[j] = 0)
    (hle : j * 64 ≤ q) (hq : bitAt s.overviewSegment q = true) : (j + 1) * 64 ≤ q := by
  by_contra hlt
  have hdiv : q / 64 = j := by omega
  have hword : s.overviewSegment[j]? = some s.overviewSegment[j] := Vector.getElem?_eq_getElem hj
  rw [bitAt_of_word (m := s.overviewSegment[j]) (by rw [hdiv, hword]),
    getLsbD_of_ffs_zero hffs] at hq
  exact Bool.noConfusion hq

/-- The loop finds a queue whose bit is set, if there is one from word `j` on. -/
theorem selectFrom_spec (h64 : 64 ∣ n) (fuel : ℕ) {j : ℕ} (hj : j < n / 64)
    (hfuel : n / 64 ≤ fuel + j) (hlow : ∀ q, bitAt s.overviewSegment q = true → j * 64 ≤ q) :
    ∃ r, s.selectFrom fuel j = .ok r ∧ (∀ q, r = some q → bitAt s.overviewSegment q = true) ∧
      (r = none → ∀ q, bitAt s.overviewSegment q = false) := by
  induction fuel generalizing j with
  | zero => omega
  | succ fuel ih =>
    have hword : s.overviewSegment[j]? = some s.overviewSegment[j] := Vector.getElem?_eq_getElem hj
    rw [selectFrom, hword]
    dsimp only
    cases hffs : ffs s.overviewSegment[j] with
    | succ b =>
      obtain ⟨hb, hbit⟩ := bitAt_of_ffs hj hffs
      have hq : b + j * 64 < n := by omega
      simp only [status_eq hq]
      refine ⟨_, rfl, fun q hqe => ?_, by simp⟩
      cases hqe
      exact hbit
    | zero =>
      have hnext : ∀ q, bitAt s.overviewSegment q = true → (j + 1) * 64 ≤ q :=
        fun q hq => le_of_ffs_zero hj hffs (hlow q hq) hq
      dsimp only
      rw [if_neg (by omega)]
      by_cases hend : j + 1 = n / 64
      · rw [hend, Nat.mod_self, if_pos rfl]
        refine ⟨_, rfl, by simp, fun _ q => ?_⟩
        by_contra hq
        have hle := hnext q (by simpa using hq)
        have hout : s.overviewSegment[q / 64]? = none := Vector.getElem?_eq_none (by omega)
        exact hq (by simp [bitAt, hout])
      · rw [Nat.mod_eq_of_lt (by omega), if_neg (by omega)]
        exact ih (by omega) (by omega) hnext

/-- The bits say which entries are positive. -/
structure Exact (s : SelectTables n) : Prop where
  bits : ∀ q, bitAt s.overviewSegment q = decide (0 < s.status q)
  low : ∀ q, -2 ^ 16 ≤ s.status q
  high : ∀ q, s.status q < 2 ^ 31

theorem exact_start (n : ℕ) : Exact (start n) := by
  have hzero : ∀ q, (start n).status q = 0 := by
    intro q
    rw [status, start, Vector.getElem?_replicate]
    split_ifs <;> rfl
  refine ⟨fun q => ?_, fun q => ?_, fun q => ?_⟩
  · rw [hzero]
    exact bitAt_replicate q
  · rw [hzero]
    decide
  · rw [hzero]
    decide

/-- **The selection returns a queue exactly if one has a positive entry, and selects such a
queue.** -/
theorem Exact.selectQueue (h : Exact s) (h0 : 0 < n) (h64 : 64 ∣ n) :
    ∃ r, s.selectQueue = .ok r ∧ (r.isSome = true ↔ ∃ q, 0 < s.status q) ∧
      ∀ q, r = some q → 0 < s.status q := by
  obtain ⟨r, hr, hsome, hnone⟩ := selectFrom_spec (s := s) h64 (n / 64 + 1) (j := 0)
    (by omega) (by omega) (by simp)
  have hsel : ∀ q, r = some q → 0 < s.status q := fun q hq => by
    simpa [h.bits] using hsome q hq
  refine ⟨r, hr, ⟨fun hs => ?_, fun ⟨q, hq⟩ => ?_⟩, hsel⟩
  · obtain ⟨q, hq⟩ := Option.isSome_iff_exists.1 hs
    exact ⟨q, hsel q hq⟩
  · by_contra hs
    have hbit := hnone (by simpa using hs) q
    rw [h.bits] at hbit
    exact of_decide_eq_false hbit hq

theorem toInt32_of_bounds {x : ℤ} (hlow : -2 ^ 31 ≤ x) (hhigh : x < 2 ^ 31) : toInt32 x = x :=
  Int.bmod_eq_of_le (by omega) (by omega)

/-- A new value for one entry, with its bit. -/
theorem Exact.update {s' : SelectTables n} {q : ℕ} {v : ℤ} (h : Exact s) (hlow : -2 ^ 16 ≤ v)
    (hhigh : v < 2 ^ 31) (hstatus : ∀ x, s'.status x = if x = q then v else s.status x)
    (hself : bitAt s'.overviewSegment q = decide (0 < v))
    (hother : ∀ x, x ≠ q → bitAt s'.overviewSegment x = bitAt s.overviewSegment x) : Exact s' := by
  refine ⟨fun x => ?_, fun x => ?_, fun x => ?_⟩ <;> rw [hstatus] <;> by_cases hx : x = q
  · rw [if_pos hx, hx, hself]
  · rw [if_neg hx, hother x hx, h.bits]
  · rwa [if_pos hx]
  · rw [if_neg hx]
    exact h.low x
  · rwa [if_pos hx]
  · rw [if_neg hx]
    exact h.high x

theorem Exact.addAnnounced (h : Exact s) (h64 : 64 ∣ n) {q b : ℕ} (hq : q < n)
    (hfit : s.status q + b < 2 ^ 31) : ∃ s', s.addAnnounced q b = .ok s' ∧ Exact s' := by
  have hlow := h.low q
  obtain ⟨s', hs', hstatus, hbits⟩ := addAnnounced_spec (s := s) h64 hq b
  rw [toInt32_of_bounds (by omega) hfit] at hstatus hbits
  refine ⟨s', hs', h.update (by omega) hfit hstatus ?_ fun x hx => ?_⟩
  · rw [hbits, h.bits, ← Bool.decide_or]
    exact decide_eq_decide.2 ⟨fun hor => by omega, fun hv => .inr ⟨rfl, hv⟩⟩
  · rw [hbits]
    simp [hx]

/-- The queue that is read has a positive entry, so no entry becomes too small. -/
theorem Exact.subRead (h : Exact s) (h64 : 64 ∣ n) {q k : ℕ} (hq : 0 < s.status q)
    (hk : k < 2 ^ 16) : ∃ s', s.subRead q k = .ok s' ∧ Exact s' := by
  have hhigh := h.high q
  have hlt : q < n := by
    by_contra hge
    rw [status_of_le (Nat.not_lt.1 hge)] at hq
    exact lt_irrefl _ hq
  obtain ⟨s', hs', hstatus, hbits⟩ := subRead_spec (s := s) h64 hlt k
  rw [toInt32_of_bounds (by omega) (by omega)] at hstatus hbits
  refine ⟨s', hs', h.update (by omega) (by omega) hstatus ?_ fun x hx => ?_⟩
  · rw [hbits, h.bits]
    simp [hq]
  · rw [hbits]
    simp [hx]

/-- A message or a reading that fits stays in the tables and keeps them exact. -/
theorem Exact.step (h : Exact s) (h0 : 0 < n) (h64 : 64 ∣ n) {op : TableOp}
    (hop : s.fits op = true) : ∃ s', s.step op = .ok s' ∧ Exact s' := by
  cases op with
  | message dqid dqBurst =>
    obtain ⟨hq, hfit⟩ : dqid < n ∧ s.status dqid + dqBurst < 2 ^ 31 := by simpa [fits] using hop
    exact h.addAnnounced h64 hq hfit
  | read k =>
    obtain ⟨r, hr, -, hpos⟩ := h.selectQueue h0 h64
    rw [SelectTables.step, hr]
    cases r with
    | none => exact ⟨s, rfl, h⟩
    | some q =>
      dsimp only
      split_ifs
      · exact ⟨s, rfl, h⟩
      · exact h.subRead h64 (hpos q rfl) (by simpa [fits] using hop)

end SelectTables

open SelectTables

/-- **When the selection is right.**  Whatever messages for the `n` queues and whatever readings
came before, as long as every entry stays an `int32_t`: the next one stays in the tables and takes
no remainder by zero, and the selection returns a queue exactly if one has a positive entry, and
selects such a queue.  This holds exactly if `n` is a positive multiple of 64. -/
theorem selection_sound_iff (n : ℕ) :
    (∀ s, Run.ReachIf SelectTables.step SelectTables.fits (start n) s →
      (∀ op, s.fits op = true → ∃ s', s.step op = .ok s') ∧
      ∃ r, s.selectQueue = .ok r ∧ (r.isSome = true ↔ ∃ q, 0 < s.status q) ∧
        ∀ q, r = some q → 0 < s.status q) ↔
    0 < n ∧ 64 ∣ n := by
  constructor
  · intro h
    obtain ⟨hops, r, hr, -⟩ := h (start n) .refl
    -- without a word the first access fails
    have hwords : 0 < n / 64 := by
      by_contra hz
      have hword : (start n).overviewSegment[0]? = none := Vector.getElem?_eq_none (by omega)
      rw [SelectTables.selectQueue, selectFrom, hword] at hr
      exact nomatch hr
    -- and a queue beyond the last word has no bit
    refine ⟨by omega, Nat.dvd_of_mod_eq_zero ?_⟩
    by_contra hrest
    have hq : n / 64 * 64 < n := by omega
    have hzero : (start n).status (n / 64 * 64) = 0 := by
      rw [SelectTables.status, start, Vector.getElem?_replicate, if_pos hq, Option.getD_some]
    obtain ⟨s', hs'⟩ := hops (.message (n / 64 * 64) 1) (by simp [fits, hq, hzero])
    have hword : (start n).overviewSegment[n / 64 * 64 / 64]? = none :=
      Vector.getElem?_eq_none (by omega)
    simp only [SelectTables.step, SelectTables.addAnnounced, status_eq hq, hzero] at hs'
    rw [if_pos (by decide), updateWord, hword] at hs'
    exact nomatch hs'
  · rintro ⟨h0, h64⟩ s hs
    have hexact : Exact s := hs.invariant (exact_start n) fun u op v hu hop hv => by
      obtain ⟨v', hv', hexact⟩ := hu.step h0 h64 hop
      rw [hv] at hv'
      cases hv'
      exact hexact
    refine ⟨fun op hop => ?_, hexact.selectQueue h0 h64⟩
    obtain ⟨s', hs', -⟩ := hexact.step h0 h64 hop
    exact ⟨s', hs'⟩

/-- With the 32 queues of the source the tables have no word: the first selection is outside, and so
is the first message. -/
theorem no_overview_word :
    maxQueuesPerDir / 64 = 0 ∧
    (start maxQueuesPerDir).selectQueue = .error .overviewOutOfRange ∧
    (start maxQueuesPerDir).step (.message 0 1) = .error .overviewOutOfRange ∧
    (start maxQueuesPerDir).step (.read 1) = .error .overviewOutOfRange := by
  decide

end Backdraft.Client

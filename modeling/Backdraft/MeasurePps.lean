import Backdraft.Lib.Run
import Backdraft.Lib.Word

/-!
# Throughput records

`MeasurePPS` of `measure_pps.cc` counts packets and bytes.  When between half a second and a second
have passed since `last_record_ts_`, the rates are recorded and the counters start again; when more
than a second has passed they start again without a record.  The rates are scaled to a second by a
multiplication with `10 ^ 9`, which is made in 64 bits and before the division.

* `MeasurePPS`, `processBatch`, `commandClear`: the code;
* `PpsRun`: a run of the module, with the lengths of the packets seen since the counters were last
  reset, and the records as they would be over the integers;
* `scaleTo1sec_eq_iff`: a rate is exact exactly if the product fits in 64 bits;
* `records_exact_iff`: so are all records of a run;
* `record_overflows`: a stream of 39 Gbit/s is recorded as one of 2 Gbit/s.
-/

namespace Backdraft

open Word

/-- `NSEC_IN_SEC`. -/
def nsecInSec : ℕ := 1000000000

/-- `WINDOW`. -/
def ppsWindow : ℕ := 500000000

/-- `struct record`. -/
structure PpsRecord where
  pps : ℕ
  bps : ℕ
  timestamp : ℕ
  deriving DecidableEq

/-- `MeasurePPS`. -/
structure MeasurePPS where
  pktCnt : ℕ
  bytesCnt : ℕ
  lastRecordTs : ℕ
  book : List PpsRecord
  deriving DecidableEq

namespace MeasurePPS

/-- `scale_to_1sec`, with its first argument in parentheses. -/
def scaleTo1sec (counter delta : ℕ) : ℕ := wmul 64 counter nsecInSec / delta

/-- The counters of a batch with packets of the lengths `lens`. -/
def count (s : MeasurePPS) (lens : List ℕ) : MeasurePPS :=
  { s with
    pktCnt := wadd 64 s.pktCnt lens.length
    bytesCnt := wadd 64 s.bytesCnt lens.sum }

/-- `delta`. -/
def delta (s : MeasurePPS) (now : ℕ) : ℕ :=
  if now > s.lastRecordTs then now - s.lastRecordTs
  else wadd 64 now (2 ^ 64 - 1 - s.lastRecordTs)

/-- The counters and the time start again; the clock is read for a second time. -/
def restart (s : MeasurePPS) (now' : ℕ) : MeasurePPS :=
  { s with pktCnt := 0, bytesCnt := 0, lastRecordTs := now' }

/-- The record of the counters. -/
def recordOf (s : MeasurePPS) (delta now : ℕ) : PpsRecord where
  pps := scaleTo1sec s.pktCnt delta
  bps := scaleTo1sec (wmul 64 (wadd 64 s.bytesCnt (wmul 64 s.pktCnt 24)) 8) delta
  timestamp := now

/-- `ProcessBatch`, which reads the clock at `now` and, if it starts again, at `now'`. -/
def processBatch (s : MeasurePPS) (now now' : ℕ) (lens : List ℕ) : MeasurePPS :=
  let counted := s.count lens
  if s.lastRecordTs = 0 then { counted with lastRecordTs := now }
  else
    let delta := s.delta now
    let recorded :=
      if delta < nsecInSec ∧ delta > nsecInSec - ppsWindow then
        { counted with book := s.book ++ [counted.recordOf delta now] }.restart now'
      else counted
    if delta > nsecInSec then recorded.restart now' else recorded

/-- `CommandClear`. -/
def commandClear (s : MeasurePPS) : MeasurePPS :=
  { s with pktCnt := 0, bytesCnt := 0, lastRecordTs := 0 }

/-- A new module. -/
def new : MeasurePPS := ⟨0, 0, 0, []⟩

/-- A batch at this time leads to a record. -/
def Records (s : MeasurePPS) (now : ℕ) : Prop :=
  s.lastRecordTs ≠ 0 ∧ s.delta now < nsecInSec ∧ s.delta now > nsecInSec - ppsWindow

/-- A batch at this time leads to a reset without a record. -/
def Expires (s : MeasurePPS) (now : ℕ) : Prop := s.lastRecordTs ≠ 0 ∧ s.delta now > nsecInSec

instance (s : MeasurePPS) (now : ℕ) : Decidable (s.Records now) :=
  inferInstanceAs (Decidable (_ ∧ _ ∧ _))

instance (s : MeasurePPS) (now : ℕ) : Decidable (s.Expires now) :=
  inferInstanceAs (Decidable (_ ∧ _))

variable {s : MeasurePPS} {now now' : ℕ} {lens : List ℕ}

theorem processBatch_of_records (h : s.Records now) :
    s.processBatch now now' lens =
      { s.count lens with
        book := s.book ++ [(s.count lens).recordOf (s.delta now) now] }.restart now' := by
  obtain ⟨hlast, hlt, hgt⟩ := h
  have hnot : ¬ s.delta now > nsecInSec := by omega
  simp only [processBatch, if_neg hlast, if_pos (And.intro hlt hgt), if_neg hnot]

theorem processBatch_of_expires (h : s.Expires now) :
    s.processBatch now now' lens = (s.count lens).restart now' := by
  obtain ⟨hlast, hgt⟩ := h
  have hnot : ¬ (s.delta now < nsecInSec ∧ s.delta now > nsecInSec - ppsWindow) := by omega
  simp only [processBatch, if_neg hlast, if_neg hnot, if_pos hgt]

/-- Otherwise the packets are counted, and the time is set at the first batch. -/
theorem processBatch_of_not (hr : ¬ s.Records now) (he : ¬ s.Expires now) :
    s.processBatch now now' lens =
      { s.count lens with lastRecordTs := if s.lastRecordTs = 0 then now else s.lastRecordTs } := by
  by_cases hlast : s.lastRecordTs = 0
  · simp only [processBatch, if_pos hlast]
  · have hrange : ¬ (s.delta now < nsecInSec ∧ s.delta now > nsecInSec - ppsWindow) :=
      fun h => hr ⟨hlast, h⟩
    have hlate : ¬ s.delta now > nsecInSec := fun h => he ⟨hlast, h⟩
    simp only [processBatch, if_neg hlast, if_neg hrange, if_neg hlate]
    rfl

end MeasurePPS

/-! ### Runs -/

/-- A call, with the times it reads. -/
inductive PpsCall
  | processBatch (now now' : ℕ) (lens : List ℕ)
  | clear

/-- The times of a call, in order. -/
def PpsCall.times : PpsCall → List ℕ
  | processBatch now now' _ => [now, now']
  | clear => []

/-- A module, with the lengths of the packets seen since the last reset and the exact records. -/
structure PpsRun where
  module : MeasurePPS
  seen : List ℕ
  exact : List PpsRecord
  deriving DecidableEq

/-- The bits of packets on the wire, with 24 bytes of overhead for each. -/
def wireBits (lens : List ℕ) : ℕ := (lens.sum + lens.length * 24) * 8

/-- The record over the integers. -/
def exactRecord (lens : List ℕ) (delta now : ℕ) : PpsRecord where
  pps := lens.length * nsecInSec / delta
  bps := wireBits lens * nsecInSec / delta
  timestamp := now

namespace PpsRun

open MeasurePPS

def step (s : PpsRun) : PpsCall → PpsRun
  | .processBatch now now' lens =>
    let m := s.module.processBatch now now' lens
    if s.module.Records now then
      ⟨m, [], s.exact ++ [exactRecord (s.seen ++ lens) (now - s.module.lastRecordTs) now]⟩
    else if s.module.Expires now then ⟨m, [], s.exact⟩
    else ⟨m, s.seen ++ lens, s.exact⟩
  | .clear => ⟨s.module.commandClear, [], s.exact⟩

def run (calls : List PpsCall) : PpsRun := calls.foldl step ⟨new, [], []⟩

/-- If the call leads to a record, the bits seen, scaled to a second, fit in 64 bits. -/
def Fits (s : PpsRun) : PpsCall → Prop
  | .processBatch now _ lens =>
    s.module.Records now → wireBits (s.seen ++ lens) * nsecInSec < 2 ^ 64
  | .clear => True

instance (s : PpsRun) (c : PpsCall) : Decidable (s.Fits c) :=
  match c with
  | .processBatch now _ _ => inferInstanceAs (Decidable (s.module.Records now → _))
  | .clear => inferInstanceAs (Decidable True)

/-- The counters are the numbers of the packets seen, in 64 bits. -/
structure Counts (s : PpsRun) : Prop where
  pktCnt_eq : s.module.pktCnt ≡ s.seen.length [MOD 2 ^ 64]
  bytesCnt_eq : s.module.bytesCnt ≡ s.seen.sum [MOD 2 ^ 64]

variable {s : PpsRun}

theorem run_concat (calls : List PpsCall) (c : PpsCall) :
    run (calls ++ [c]) = (run calls).step c := by
  rw [run, List.foldl_append, List.foldl_cons, List.foldl_nil, run]

theorem Counts.count (h : s.Counts) (lens : List ℕ) :
    (s.module.count lens).pktCnt ≡ (s.seen ++ lens).length [MOD 2 ^ 64] ∧
      (s.module.count lens).bytesCnt ≡ (s.seen ++ lens).sum [MOD 2 ^ 64] := by
  rw [List.length_append, List.sum_append]
  exact ⟨(wadd_modEq _ _).trans (h.pktCnt_eq.add_right _),
    (wadd_modEq _ _).trans (h.bytesCnt_eq.add_right _)⟩

theorem Counts.step (h : s.Counts) (c : PpsCall) : (s.step c).Counts := by
  cases c with
  | clear => exact ⟨rfl, rfl⟩
  | processBatch now now' lens =>
    simp only [PpsRun.step]
    split_ifs with hr he
    · rw [processBatch_of_records hr]
      exact ⟨rfl, rfl⟩
    · rw [processBatch_of_expires he]
      exact ⟨rfl, rfl⟩
    · rw [processBatch_of_not hr he]
      exact ⟨(h.count lens).1, (h.count lens).2⟩

theorem counts_run (calls : List PpsCall) : (run calls).Counts := by
  induction calls using List.reverseRecOn with
  | nil => exact ⟨rfl, rfl⟩
  | append_singleton calls c ih =>
    rw [run_concat]
    exact ih.step c

/-! ### A record -/

/-- A scaled counter is exact exactly if the product fits in 64 bits. -/
theorem scaleTo1sec_eq_iff {counter n delta : ℕ} (h : counter ≡ n [MOD 2 ^ 64]) (hpos : 0 < delta)
    (hle : delta ≤ 2 ^ 64) :
    scaleTo1sec counter delta = n * nsecInSec / delta ↔ n * nsecInSec < 2 ^ 64 := by
  have hmul : wmul 64 counter nsecInSec = n * nsecInSec % 2 ^ 64 := by
    rw [wmul]
    exact h.mul_right nsecInSec
  rw [scaleTo1sec, hmul]
  exact mod_div_eq_div_iff hpos hle

/-- A record is exact exactly if the bits of the window, scaled to a second, fit in 64 bits: the
packets are fewer. -/
theorem Counts.recordOf_eq_iff (h : s.Counts) {lens : List ℕ} {delta now : ℕ} (hpos : 0 < delta)
    (hle : delta ≤ 2 ^ 64) :
    (s.module.count lens).recordOf delta now = exactRecord (s.seen ++ lens) delta now ↔
      wireBits (s.seen ++ lens) * nsecInSec < 2 ^ 64 := by
  obtain ⟨hpkts, hbytes⟩ := h.count lens
  have hbits : wmul 64 (wadd 64 (s.module.count lens).bytesCnt
      (wmul 64 (s.module.count lens).pktCnt 24)) 8 ≡ wireBits (s.seen ++ lens) [MOD 2 ^ 64] := by
    have hover := (wmul_modEq _ _).trans (hpkts.mul_right 24)
    have hsum := (wadd_modEq _ _).trans (hbytes.add hover)
    exact (wmul_modEq _ _).trans (hsum.mul_right 8)
  have hfewer : (s.seen ++ lens).length * nsecInSec ≤ wireBits (s.seen ++ lens) * nsecInSec := by
    apply Nat.mul_le_mul_right
    unfold wireBits
    omega
  rw [recordOf, exactRecord, PpsRecord.mk.injEq, scaleTo1sec_eq_iff hpkts hpos hle,
    scaleTo1sec_eq_iff hbits hpos hle]
  constructor
  · exact fun h => h.2.1
  · exact fun h => ⟨hfewer.trans_lt h, h, rfl⟩

/-! ### The clock -/

/-- `last_record_ts_` is zero or one of the times read. -/
theorem lastRecordTs_run (calls : List PpsCall) :
    (run calls).module.lastRecordTs = 0 ∨
      (run calls).module.lastRecordTs ∈ calls.flatMap PpsCall.times := by
  induction calls using List.reverseRecOn with
  | nil => exact .inl rfl
  | append_singleton calls c ih =>
    rw [run_concat, List.flatMap_append, List.flatMap_singleton, List.mem_append]
    cases c with
    | clear => exact .inl rfl
    | processBatch now now' lens =>
      simp only [step, PpsCall.times]
      split_ifs with hr he
      · rw [processBatch_of_records hr]
        exact .inr (.inr (by simp [restart]))
      · rw [processBatch_of_expires he]
        exact .inr (.inr (by simp [restart]))
      · rw [processBatch_of_not hr he]
        by_cases hlast : (run calls).module.lastRecordTs = 0
        · exact .inr (.inr (by simp [hlast]))
        · simp only [if_neg hlast]
          exact .inr (.inl (ih.resolve_left hlast))

/-- With a clock that does not go back, a record is made at a later time than the last one. -/
theorem delta_eq_of_records {m : MeasurePPS} {now : ℕ} (hle : m.lastRecordTs ≤ now)
    (hnow : now < 2 ^ 64) (h : m.Records now) :
    m.delta now = now - m.lastRecordTs ∧ 0 < now - m.lastRecordTs := by
  obtain ⟨-, hlt, hgt⟩ := h
  by_cases hlater : now > m.lastRecordTs
  · exact ⟨if_pos hlater, Nat.sub_pos_of_lt hlater⟩
  · obtain rfl : m.lastRecordTs = now := by omega
    -- the same time again counts as a whole turn of the clock
    rw [delta, if_neg hlater, wadd_of_lt (by omega)] at hlt
    unfold nsecInSec at hlt
    omega

/-- **When the records are exact.**  For every run with a clock that does not go back, the book
holds after each call the records as they are over the integers, exactly if in each window that is
recorded the bits on the wire, multiplied by `10 ^ 9`, are below `2 ^ 64`. -/
theorem records_exact_iff (calls : List PpsCall)
    (hmono : (calls.flatMap PpsCall.times).Pairwise (· ≤ ·))
    (hlt : ∀ t ∈ calls.flatMap PpsCall.times, t < 2 ^ 64) :
    (∀ done, done <+: calls → (run done).module.book = (run done).exact) ↔
      ∀ done c, done ++ [c] <+: calls → (run done).Fits c := by
  refine Run.forall_prefix_iff (P := fun done => (run done).module.book = (run done).exact)
    rfl calls fun done c hp hdone => ?_
  rw [run_concat]
  cases c with
  | clear => exact iff_of_true hdone trivial
  | processBatch now now' lens =>
    obtain ⟨rest, rfl⟩ := hp
    simp only [List.flatMap_append, List.flatMap_singleton, PpsCall.times] at hmono hlt
    have hnow : now < 2 ^ 64 := hlt now (by simp)
    have hlast : (run done).module.lastRecordTs ≤ now := by
      rcases lastRecordTs_run done with hzero | hmem
      · omega
      · rw [List.pairwise_append, List.pairwise_append] at hmono
        exact hmono.1.2.2 _ hmem now (by simp)
    simp only [step, Fits]
    split_ifs with hr he
    · obtain ⟨hdelta, hpos⟩ := delta_eq_of_records hlast hnow hr
      rw [processBatch_of_records hr, hdelta]
      simp only [restart, hdone, List.append_cancel_left_eq, List.cons.injEq, and_true, hr,
        forall_const]
      exact (counts_run done).recordOf_eq_iff hpos (by omega)
    · rw [processBatch_of_expires he]
      exact iff_of_true hdone fun h => absurd h hr
    · rw [processBatch_of_not hr he]
      exact iff_of_true hdone fun h => absurd h hr

/-- Two batches in six tenths of a second. -/
theorem records_exact_two :
    (run [.processBatch 1000000000 1000000000 [60], .processBatch 1600000000 1600000000 [1500, 60],
      .processBatch 1600000100 1600000100 [60]]).module.book =
        [⟨3 * nsecInSec / 600000000, (1620 + 3 * 24) * 8 * nsecInSec / 600000000, 1600000000⟩] := by
  let calls : List PpsCall := [.processBatch 1000000000 1000000000 [60],
    .processBatch 1600000000 1600000000 [1500, 60], .processBatch 1600000100 1600000100 [60]]
  have hfits : ∀ k (hk : k < calls.length), (run (calls.take k)).Fits calls[k] := by
    decide +kernel
  have hall := (records_exact_iff calls (by decide) (by decide)).2
    (Run.forall_prefix_of_getElem hfits)
  exact (hall calls (List.prefix_refl _)).trans (by decide +kernel)

/-! ### A steady stream -/

/-- The lengths of 32 packets of 1500 bytes. -/
def fullBatch : List ℕ := List.replicate 32 1500

/-- A full batch every ten microseconds. -/
def steadyBatch (k : ℕ) : PpsCall :=
  .processBatch (1000000000 + 10000 * k) (1000000000 + 10000 * k) fullBatch

def steady (n : ℕ) : List PpsCall := (List.range n).map steadyBatch

theorem steady_succ (n : ℕ) : steady (n + 1) = steady n ++ [steadyBatch n] := by
  rw [steady, List.range_succ, List.map_append, List.map_singleton, steady]

theorem times_steady (n : ℕ) :
    ((steady n).flatMap PpsCall.times).Pairwise (· ≤ ·) ∧
      ∀ t ∈ (steady n).flatMap PpsCall.times, t ≤ 1000000000 + 10000 * n := by
  induction n with
  | zero => exact ⟨List.Pairwise.nil, fun t ht => absurd ht List.not_mem_nil⟩
  | succ n ih =>
    obtain ⟨hmono, hle⟩ := ih
    rw [steady_succ, List.flatMap_append, List.flatMap_singleton]
    have hlast : ∀ t ∈ (steadyBatch n).times, t = 1000000000 + 10000 * n := by
      simp [steadyBatch, PpsCall.times]
    refine ⟨List.pairwise_append.2 ⟨hmono, by simp [steadyBatch, PpsCall.times], ?_⟩, ?_⟩
    · intro t ht t' ht'
      rw [hlast t' ht']
      exact hle t ht
    · intro t ht
      rcases List.mem_append.1 ht with ht | ht
      · have := hle t ht
        omega
      · have := hlast t ht
        omega

/-- The counters after `n` batches of the stream. -/
def steadyCounters (n : ℕ) : MeasurePPS := ⟨32 * n, 48000 * n, 1000000000, []⟩

theorem delta_steadyCounters {n : ℕ} (hpos : 0 < n) :
    (steadyCounters n).delta (1000000000 + 10000 * n) = 10000 * n := by
  rw [delta, steadyCounters, if_pos (by simp only; omega)]
  simp only
  omega

theorem count_steadyCounters {n : ℕ} (hle : n ≤ 50001) :
    (steadyCounters n).count fullBatch = steadyCounters (n + 1) := by
  rw [count, steadyCounters, show fullBatch.length = 32 from rfl,
    show fullBatch.sum = 48000 from rfl, wadd_of_lt (by simp only; omega),
    wadd_of_lt (by simp only; omega)]
  rfl

/-- For half a second the batches are counted. -/
theorem run_steady {n : ℕ} (hpos : 0 < n) (hle : n ≤ 50001) :
    ∃ seen, seen.length = 32 * n ∧ seen.sum = 48000 * n ∧
      run (steady n) = ⟨steadyCounters n, seen, []⟩ := by
  induction n, hpos using Nat.le_induction with
  | base => exact ⟨fullBatch, rfl, rfl, by decide +kernel⟩
  | succ n hn ih =>
    obtain ⟨seen, hlen, hsum, hrun⟩ := ih (by omega)
    have hdelta := delta_steadyCounters hn
    have hr : ¬ (steadyCounters n).Records (1000000000 + 10000 * n) := by
      rintro ⟨-, -, hgt⟩
      rw [hdelta, nsecInSec, ppsWindow] at hgt
      omega
    have he : ¬ (steadyCounters n).Expires (1000000000 + 10000 * n) := by
      rintro ⟨-, hgt⟩
      rw [hdelta, nsecInSec] at hgt
      omega
    refine ⟨seen ++ fullBatch, ?_, ?_, ?_⟩
    · rw [List.length_append, hlen]
      rfl
    · rw [List.sum_append, hsum]
      rfl
    · rw [steady_succ, run_concat, hrun]
      simp only [step, steadyBatch, if_neg hr, if_neg he]
      rw [processBatch_of_not hr he, count_steadyCounters (by omega),
        if_neg (by simp [steadyCounters])]
      rfl

/-- **The product overflows.**  After half a second of a steady stream the clock has not gone back,
the bits of the window fit in 64 bits, and the record says 2.1 Gbit/s in place of 39 Gbit/s. -/
theorem record_overflows :
    ((steady 50002).flatMap PpsCall.times).Pairwise (· ≤ ·) ∧
      wireBits ((run (steady 50001)).seen ++ fullBatch) < 2 ^ 64 ∧
      (run (steady 50002)).module.book = [⟨3200063, 2122429979, 1500010000⟩] ∧
      (run (steady 50002)).exact = [⟨3200063, 39015180272, 1500010000⟩] := by
  obtain ⟨seen, hlen, hsum, hrun⟩ := run_steady (n := 50001) (by omega) le_rfl
  obtain ⟨m, hm⟩ : ∃ m, m = steadyCounters 50001 := ⟨_, rfl⟩
  have hr : m.Records (1000000000 + 10000 * 50001) := by
    rw [hm]
    decide +kernel
  have hlast : run (steady 50002) = (⟨m, seen, []⟩ : PpsRun).step (steadyBatch 50001) := by
    rw [steady_succ, run_concat, hrun, hm]
  have hwindow : (seen ++ fullBatch).length = 1600064 ∧
      wireBits (seen ++ fullBatch) = 19507980288 := by
    rw [wireBits, List.sum_append, List.length_append, hlen, hsum]
    exact ⟨rfl, rfl⟩
  refine ⟨(times_steady 50002).1, ?_, ?_, ?_⟩
  · rw [hrun, hwindow.2]
    norm_num
  · rw [hlast]
    simp only [step, steadyBatch, if_pos hr]
    rw [processBatch_of_records hr, hm]
    decide +kernel
  · rw [hlast]
    simp only [step, steadyBatch, if_pos hr, exactRecord, hwindow]
    rw [hm]
    decide +kernel

end PpsRun

end Backdraft

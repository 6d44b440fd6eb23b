import Backdraft.Lib.Binary64
import Backdraft.Lib.MovingWindow
import Backdraft.Port.RateLimit

/-!
# The output rate of a port

`Port::RecordRate` of `port.cc`.  Time is cut into intervals of at least `update_rate` nanoseconds:
the first call that comes so late closes the open interval.  The packets of the last `TP_Q_SIZE`
closed intervals are kept in `samples`, and `window_packets` is their sum, updated in place.

* `Rates`, `Rates.record`, `recordRate`, `recordAll`: the code, for all queues of a port;
* `Timeline`: the calls of one queue cut into intervals, without the counters;
* `Tracks`: the counters are those of a timeline; one call keeps it (`Tracks.record`);
* `recordRate_window`: the counters of an output queue after any calls.

`bps` and `bytes` are never written after the construction and are left out.
-/

namespace Backdraft

open Word MovingWindow

/-- `TP_Q_SIZE`. -/
def tpQSize : ℕ := 4

/-- `update_rate`. -/
def updateRate : ℕ := 1000000

/-- `struct Rates`; `pps` is a `double`. -/
structure Rates where
  pps : ℚ
  packets : ℕ
  timestamp : ℕ
  lastSecPackets : ℕ
  windowPackets : ℕ
  samples : List ℕ
  samplesIndex : ℕ
  deriving DecidableEq

namespace Rates

/-- The counters of a queue when the port is made at the time `now`. -/
def init (now : ℕ) : Rates := ⟨0, 0, now, 0, 0, List.replicate tpQSize 0, 0⟩

/-- The packets are counted. -/
def add (r : Rates) (packets : ℕ) : Rates :=
  { r with
    packets := wadd 64 r.packets packets
    lastSecPackets := wadd 64 r.lastSecPackets packets }

/-- The body of the `if`: the open interval ends. -/
def close (r : Rates) (now : ℕ) : Rates :=
  let windowPackets :=
    wadd 64 (wsub 64 r.windowPackets (r.samples.getD r.samplesIndex 0)) r.lastSecPackets
  { r with
    windowPackets := windowPackets
    samples := r.samples.set r.samplesIndex r.lastSecPackets
    samplesIndex := (r.samplesIndex + 1) % tpQSize
    pps := Binary64.ofNat (windowPackets * (secondNs / updateRate / tpQSize) % 2 ^ 64)
    timestamp := now
    lastSecPackets := 0 }

/-- `RecordRate` on the counters of its queue. -/
def record (r : Rates) (dir : PacketDir) (now packets : ℕ) : Rates :=
  if dir = .out ∧ updateRate ≤ wsub 64 now (r.add packets).timestamp then (r.add packets).close now
  else r.add packets

end Rates

/-- A call of `RecordRate` and the time it reads. -/
structure RateCall where
  queue : PacketDir × ℕ
  now : ℕ
  packets : ℕ
  deriving DecidableEq

/-- `RecordRate` on `rate_`. -/
def recordRate (rate : PacketDir × ℕ → Rates) (c : RateCall) : PacketDir × ℕ → Rates :=
  Function.update rate c.queue ((rate c.queue).record c.queue.1 c.now c.packets)

/-- The calls of a port, one after the other. -/
def recordAll (rate : PacketDir × ℕ → Rates) (calls : List RateCall) : PacketDir × ℕ → Rates :=
  calls.foldl recordRate rate

/-- The calls for one queue. -/
def callsOf (q : PacketDir × ℕ) (calls : List RateCall) : List RateCall :=
  calls.filter fun c => c.queue = q

/-- Calls for other queues do not touch the counters of a queue. -/
theorem recordAll_apply (rate : PacketDir × ℕ → Rates) (calls : List RateCall)
    (q : PacketDir × ℕ) :
    recordAll rate calls q =
      (callsOf q calls).foldl (fun r c => r.record q.1 c.now c.packets) (rate q) := by
  induction calls generalizing rate with
  | nil => rfl
  | cons c calls ih =>
    show recordAll (recordRate rate c) calls q = _
    rw [ih]
    by_cases hq : c.queue = q
    · subst hq
      simp [callsOf, recordRate]
    · simp [callsOf, recordRate, hq, Function.update_of_ne (Ne.symm hq)]

/-! ### The intervals -/

/-- The packets of some calls. -/
def packetsOf (calls : List RateCall) : ℕ := (calls.map RateCall.packets).sum

@[simp] theorem packetsOf_append (l l' : List RateCall) :
    packetsOf (l ++ l') = packetsOf l + packetsOf l' := by
  simp [packetsOf]

@[simp] theorem packetsOf_singleton (c : RateCall) : packetsOf [c] = c.packets := by
  simp [packetsOf]

/-- A closed interval with its calls. -/
structure Interval where
  start : ℕ
  stop : ℕ
  calls : List RateCall
  deriving DecidableEq

/-- The calls of a queue, cut into intervals. -/
structure Timeline where
  closed : List Interval
  start : ℕ
  opened : List RateCall
  deriving DecidableEq

namespace Timeline

/-- A call belongs to the open interval, and closes it if it is late enough. -/
def record (l : Timeline) (c : RateCall) : Timeline :=
  if l.start + updateRate ≤ c.now then
    ⟨l.closed ++ [⟨l.start, c.now, l.opened ++ [c]⟩], c.now, []⟩
  else { l with opened := l.opened ++ [c] }

def of (t₀ : ℕ) (calls : List RateCall) : Timeline := calls.foldl record ⟨[], t₀, []⟩

/-- The calls, in order. -/
def calls (l : Timeline) : List RateCall := l.closed.flatMap Interval.calls ++ l.opened

/-- The packets of the closed intervals. -/
def counts (l : Timeline) : List ℕ := l.closed.map fun i => packetsOf i.calls

variable {l : Timeline} {c : RateCall}

@[simp] theorem calls_record : (l.record c).calls = l.calls ++ [c] := by
  unfold record
  split_ifs <;> simp [calls]

theorem of_concat (t₀ : ℕ) (calls : List RateCall) (c : RateCall) :
    of t₀ (calls ++ [c]) = (of t₀ calls).record c := by
  rw [of, List.foldl_append, List.foldl_cons, List.foldl_nil, of]

theorem calls_of (t₀ : ℕ) (calls : List RateCall) : (of t₀ calls).calls = calls := by
  induction calls using List.reverseRecOn with
  | nil => rfl
  | append_singleton calls c ih =>
    rw [of_concat, calls_record, ih]

/-- No interval is closed before its time. -/
theorem long_record (h : ∀ i ∈ l.closed, i.start + updateRate ≤ i.stop) :
    ∀ i ∈ (l.record c).closed, i.start + updateRate ≤ i.stop := by
  unfold record
  split_ifs with hlate
  · intro i hi
    rcases List.mem_append.1 hi with hi | hi
    · exact h i hi
    · rw [List.mem_singleton.1 hi]
      exact hlate
  · exact h

theorem long_of (t₀ : ℕ) (calls : List RateCall) :
    ∀ i ∈ (of t₀ calls).closed, i.start + updateRate ≤ i.stop := by
  induction calls using List.reverseRecOn with
  | nil => intro i hi; cases hi
  | append_singleton calls c ih =>
    rw [of_concat]
    exact long_record ih

theorem packetsOf_calls (l : Timeline) : packetsOf l.calls = l.counts.sum + packetsOf l.opened := by
  rw [calls, packetsOf_append, counts]
  congr 1
  induction l.closed with
  | nil => rfl
  | cons i is ih => simp [ih]

end Timeline

/-! ### The counters -/

/-- The counters are those of the timeline. -/
structure Tracks (r : Rates) (l : Timeline) : Prop where
  timestamp_eq : r.timestamp = l.start
  last_eq : r.lastSecPackets = packetsOf l.opened
  packets_eq : r.packets = packetsOf l.calls
  window_eq : r.windowPackets = r.samples.sum
  length_eq : r.samples.length = tpQSize
  holds : Holds r.samples r.samplesIndex l.counts

theorem tracks_init (t₀ : ℕ) : Tracks (Rates.init t₀) ⟨[], t₀, []⟩ :=
  ⟨rfl, rfl, rfl, rfl, List.length_replicate, holds_replicate (by decide)⟩

section Step

variable {r : Rates} {l : Timeline} {c : RateCall}

/-- The window counts a part of the packets of the closed intervals. -/
theorem Tracks.window_le (h : Tracks r l) : r.windowPackets ≤ l.counts.sum := by
  rw [h.window_eq, h.holds.sum_eq]
  have hsplit := List.sum_take_add_sum_drop l.counts (l.counts.length - r.samples.length)
  omega

/-- Replacing the oldest sample does not wrap around. -/
theorem Tracks.window_close (h : Tracks r l)
    (hfit : l.counts.sum + r.lastSecPackets < 2 ^ 64) (now : ℕ) :
    (r.close now).windowPackets = (r.close now).samples.sum := by
  have hwindow := h.window_le
  have holdest : r.samples.getD r.samplesIndex 0 ≤ r.windowPackets := by
    rw [h.window_eq]
    exact getD_le_sum _ _
  have hset := sum_set_add h.holds.lt r.lastSecPackets
  rw [← h.window_eq] at hset
  simp only [Rates.close]
  rw [wsub_of_le holdest (by omega), wadd_of_lt (by omega)]
  omega

/-- The open interval ends with its packets as the newest sample. -/
theorem Tracks.close (h : Tracks r l) (hfit : packetsOf l.calls < 2 ^ 64) (now : ℕ) :
    Tracks (r.close now) ⟨l.closed ++ [⟨l.start, now, l.opened⟩], now, []⟩ := by
  have htotal := l.packetsOf_calls
  have hlast := h.last_eq
  refine ⟨rfl, rfl, ?_, h.window_close (by omega) now, ?_, ?_⟩
  · rw [Rates.close, h.packets_eq]
    simp [Timeline.calls]
  · rw [← h.length_eq]
    exact List.length_set
  · have hpush := h.holds.push r.lastSecPackets
    rw [h.last_eq] at hpush
    simp only [Rates.close, Timeline.counts, List.map_append, List.map_singleton, h.last_eq]
    rw [← h.length_eq]
    exact hpush

/-- The packets of a call are added to the open interval. -/
theorem Tracks.add (h : Tracks r l) (hfit : packetsOf l.calls + c.packets < 2 ^ 64) :
    Tracks (r.add c.packets) { l with opened := l.opened ++ [c] } := by
  have htotal := l.packetsOf_calls
  have hlast := h.last_eq
  have hpackets := h.packets_eq
  refine ⟨h.timestamp_eq, ?_, ?_, h.window_eq, h.length_eq, h.holds⟩
  · show wadd 64 r.lastSecPackets c.packets = _
    rw [wadd_of_lt (by omega), hlast]
    simp
  · show wadd 64 r.packets c.packets = _
    rw [wadd_of_lt (by omega), hpackets]
    simp [Timeline.calls, Nat.add_assoc]

/-- **One call.** -/
theorem Tracks.record (h : Tracks r l) (hstart : l.start ≤ c.now) (hnow : c.now < 2 ^ 64)
    (hfit : packetsOf l.calls + c.packets < 2 ^ 64) :
    Tracks (r.record .out c.now c.packets) (l.record c) := by
  have hadd := h.add hfit
  have hdiff : wsub 64 c.now (r.add c.packets).timestamp = c.now - l.start := by
    rw [hadd.timestamp_eq]
    exact wsub_of_le hstart hnow
  rw [Rates.record, hdiff, Timeline.record]
  by_cases hlate : l.start + updateRate ≤ c.now
  · rw [if_pos ⟨rfl, by omega⟩, if_pos hlate]
    refine hadd.close ?_ c.now
    simpa [Timeline.calls, Nat.add_assoc] using hfit
  · rw [if_neg (by omega), if_neg hlate]
    exact hadd

end Step

/-- The open interval starts at the time of a call, or at the beginning. -/
theorem Timeline.start_of_le {t₀ t : ℕ} {calls : List RateCall} (h₀ : t₀ ≤ t)
    (h : ∀ c ∈ calls, c.now ≤ t) : (Timeline.of t₀ calls).start ≤ t := by
  induction calls using List.reverseRecOn with
  | nil => exact h₀
  | append_singleton calls c ih =>
    rw [Timeline.of_concat, Timeline.record]
    split_ifs
    · exact h c (by simp)
    · exact ih fun d hd => h d (by simp [hd])

/-- **Every run** of calls for one output queue. -/
theorem tracks_foldl {t₀ : ℕ} (calls : List RateCall)
    (hmono : (t₀ :: calls.map RateCall.now).Pairwise (· ≤ ·))
    (hnow : ∀ c ∈ calls, c.now < 2 ^ 64) (hfit : packetsOf calls < 2 ^ 64) :
    Tracks (calls.foldl (fun r c => r.record .out c.now c.packets) (Rates.init t₀))
      (Timeline.of t₀ calls) := by
  induction calls using List.reverseRecOn with
  | nil => exact tracks_init t₀
  | append_singleton calls c ih =>
    rw [packetsOf_append, packetsOf_singleton] at hfit
    rw [List.map_append, ← List.cons_append, List.pairwise_append] at hmono
    obtain ⟨hmono, -, hlast⟩ := hmono
    have hbefore : ∀ t ∈ t₀ :: calls.map RateCall.now, t ≤ c.now := fun t ht =>
      hlast t ht c.now (by simp)
    have hprev := ih hmono (fun d hd => hnow d (by simp [hd])) (by omega)
    have hstart : (Timeline.of t₀ calls).start ≤ c.now :=
      Timeline.start_of_le (hbefore t₀ (by simp)) fun d hd =>
        hbefore d.now (List.mem_cons_of_mem _ (List.mem_map_of_mem hd))
    rw [Timeline.of_concat, List.foldl_append, List.foldl_cons, List.foldl_nil]
    refine hprev.record hstart (hnow c (by simp)) ?_
    rwa [Timeline.calls_of]

/-- The counters of an output queue after any calls, of this and of other queues: its calls are cut
into intervals of at least `update_rate`; the window is the sum of the samples and counts the
packets of the last `TP_Q_SIZE` closed intervals; the oldest sample can be subtracted from it; no
packet is lost between the closed intervals and the open one; and `timestamp` is the time at which
the open one has started. -/
theorem recordRate_window {rate : PacketDir × ℕ → Rates} {t₀ : ℕ} (qid : ℕ)
    (hinit : rate (.out, qid) = Rates.init t₀) (calls : List RateCall)
    (hmono : (t₀ :: (callsOf (.out, qid) calls).map RateCall.now).Pairwise (· ≤ ·))
    (hnow : ∀ c ∈ callsOf (.out, qid) calls, c.now < 2 ^ 64)
    (hfit : packetsOf (callsOf (.out, qid) calls) < 2 ^ 64) :
    ∃ l : Timeline, l = Timeline.of t₀ (callsOf (.out, qid) calls) ∧
      l.calls = callsOf (.out, qid) calls ∧
      (∀ i ∈ l.closed, i.start + updateRate ≤ i.stop) ∧
      (recordAll rate calls (.out, qid)).samples.length = tpQSize ∧
      (recordAll rate calls (.out, qid)).windowPackets =
        (recordAll rate calls (.out, qid)).samples.sum ∧
      (recordAll rate calls (.out, qid)).windowPackets =
        (l.counts.drop (l.counts.length - tpQSize)).sum ∧
      (recordAll rate calls (.out, qid)).samples.getD
          (recordAll rate calls (.out, qid)).samplesIndex 0 ≤
        (recordAll rate calls (.out, qid)).windowPackets ∧
      (recordAll rate calls (.out, qid)).packets =
        l.counts.sum + (recordAll rate calls (.out, qid)).lastSecPackets ∧
      (recordAll rate calls (.out, qid)).timestamp = l.start := by
  have h := tracks_foldl (callsOf (.out, qid) calls) hmono hnow hfit
  rw [← hinit, ← recordAll_apply rate calls (.out, qid)] at h
  refine ⟨_, rfl, Timeline.calls_of _ _, Timeline.long_of _ _, h.length_eq, h.window_eq, ?_, ?_, ?_,
    h.timestamp_eq⟩
  · rw [h.window_eq, h.holds.sum_eq, h.length_eq]
  · rw [h.window_eq]
    exact getD_le_sum _ _
  · rw [h.packets_eq, h.last_eq]
    exact Timeline.packetsOf_calls _

/-- Six intervals are closed with one to six packets, seven packets are in the open one, and there
is a call for another queue in between. -/
theorem recordRate_window_six :
    (recordAll (fun _ => Rates.init 0)
      [⟨(.out, 0), 1000000, 1⟩, ⟨(.out, 0), 2000000, 2⟩, ⟨(.inc, 0), 2000000, 9⟩,
        ⟨(.out, 0), 3500000, 3⟩, ⟨(.out, 0), 4000000, 1⟩, ⟨(.out, 0), 4600000, 3⟩,
        ⟨(.out, 0), 5600000, 5⟩, ⟨(.out, 0), 6600000, 6⟩, ⟨(.out, 0), 6600000, 7⟩]
      (.out, 0)).windowPackets = 3 + 4 + 5 + 6 := by
  obtain ⟨l, rfl, -, -, -, -, hwindow, -⟩ :=
    @recordRate_window (fun _ => Rates.init 0) 0 0 rfl
      [⟨(.out, 0), 1000000, 1⟩, ⟨(.out, 0), 2000000, 2⟩, ⟨(.inc, 0), 2000000, 9⟩,
        ⟨(.out, 0), 3500000, 3⟩, ⟨(.out, 0), 4000000, 1⟩, ⟨(.out, 0), 4600000, 3⟩,
        ⟨(.out, 0), 5600000, 5⟩, ⟨(.out, 0), 6600000, 6⟩, ⟨(.out, 0), 6600000, 7⟩]
      (by decide) (by decide) (by decide)
  exact hwindow.trans rfl

end Backdraft

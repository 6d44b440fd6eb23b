import Backdraft.Lib.Word
import Backdraft.QueueOut.FlowTable

/-!
# The rate limiter of a port

`Port::RateLimit` and `Port::UpdateTokens` of `port.cc`, and `BDVPort::RecvPackets`, which asks the
limiter before it reads.  At most `limit` packets of a queue may be read in a second; `token` counts
those read since `timestamp`, and both start again when a second has passed.

* `RateLimiter`, `rateLimit`, `updateTokens`;
* `BDVPort`, `recvPackets`;
* `rateLimit_of_lt`: the answer after more than a second;
* `recvPackets_ne_nil_iff`: when a read returns a packet.

The queue of the port is the list of its packets, from the front of which a read takes.  The
statistics of `RecordRate` are in `Port.RecordRate`.
-/

namespace Backdraft

open Word

/-- `packet_dir_t`. -/
inductive PacketDir
  | inc
  | out
  deriving DecidableEq

/-- `struct RateLimiter`. -/
structure RateLimiter where
  limit : PacketDir × ℕ → ℕ
  token : PacketDir × ℕ → ℕ
  timestamp : PacketDir × ℕ → ℕ

/-- `second_ns`. -/
def secondNs : ℕ := 1000000000

namespace RateLimiter

/-- The limiter of a new port with rate limiting, made at the time `now`. -/
def init (rate now : ℕ) : RateLimiter := ⟨fun _ => rate, fun _ => 0, fun _ => now⟩

/-- The time since `timestamp` that counts, at most a second. -/
def window (l : RateLimiter) (now : ℕ) (q : PacketDir × ℕ) : ℕ :=
  if secondNs < wsub 64 now (l.timestamp q) then secondNs else wsub 64 now (l.timestamp q)

/-- `RateLimit`, with the number of packets allowed. -/
def rateLimit (l : RateLimiter) (now : ℕ) (q : PacketDir × ℕ) : RateLimiter × ℕ :=
  let allowed := l.window now q * l.limit q % 2 ^ 64 / secondNs % 2 ^ 32
  let allowedToSend := if allowed ≤ l.token q then 0 else allowed - l.token q
  if l.window now q = secondNs then
    ({ l with
        timestamp := Function.update l.timestamp q now
        token := Function.update l.token q 0 }, allowedToSend)
  else (l, allowedToSend)

/-- `UpdateTokens`. -/
def updateTokens (l : RateLimiter) (q : PacketDir × ℕ) (recv : ℕ) : RateLimiter :=
  { l with token := Function.update l.token q (wadd 32 (l.token q) recv) }

variable {l : RateLimiter} {now : ℕ} {q : PacketDir × ℕ}

@[simp] theorem limit_rateLimit : (l.rateLimit now q).1.limit = l.limit := by
  unfold rateLimit
  split_ifs <;> rfl

@[simp] theorem limit_updateTokens (recv : ℕ) : (l.updateTokens q recv).limit = l.limit := rfl

theorem window_le : l.window now q ≤ secondNs := by
  unfold window
  split_ifs
  · exact le_rfl
  · omega

/-- The share of the limit for the time that has passed. -/
theorem share_eq (hlimit : l.limit q < 2 ^ 32) :
    l.window now q * l.limit q % 2 ^ 64 / secondNs % 2 ^ 32 =
      l.window now q * l.limit q / secondNs := by
  have hprod : l.window now q * l.limit q ≤ 1000000000 * l.limit q :=
    Nat.mul_le_mul_right _ window_le
  have hshare : l.window now q * l.limit q / secondNs ≤ l.limit q :=
    Nat.div_le_of_le_mul hprod
  rw [Nat.mod_eq_of_lt (show l.window now q * l.limit q < 2 ^ 64 by omega),
    Nat.mod_eq_of_lt (by omega)]

/-- After more than a second the whole limit is there, but for the tokens used before. -/
theorem rateLimit_of_lt (hlimit : l.limit q < 2 ^ 32) (hpast : l.timestamp q + secondNs < now)
    (hnow : now < 2 ^ 64) : (l.rateLimit now q).2 = l.limit q - l.token q := by
  have hwindow : l.window now q = secondNs := by
    rw [window, wsub_of_le (by omega) hnow, if_pos (by omega)]
  have hshare : l.window now q * l.limit q / secondNs = l.limit q := by
    rw [hwindow]
    exact Nat.mul_div_cancel_left _ (by decide)
  unfold rateLimit
  simp only [share_eq hlimit, hshare, if_pos hwindow]
  split_ifs <;> omega

/-- Before a second has passed the tokens used and the packets allowed are less than the limit. -/
theorem rateLimit_of_window_lt (hlimit : l.limit q < 2 ^ 32) (htoken : l.token q < l.limit q)
    (hwindow : l.window now q ≠ secondNs) :
    (l.rateLimit now q).1 = l ∧ l.token q + (l.rateLimit now q).2 < l.limit q := by
  have hlt : l.window now q < secondNs := lt_of_le_of_ne window_le hwindow
  have hshare : l.window now q * l.limit q / secondNs < l.limit q :=
    Nat.div_lt_of_lt_mul (Nat.mul_lt_mul_of_pos_right hlt (by omega))
  unfold rateLimit
  simp only [share_eq hlimit, if_neg hwindow, true_and]
  split_ifs <;> omega

theorem rateLimit_of_window_eq (hwindow : l.window now q = secondNs) :
    (l.rateLimit now q).1.token q = 0 := by
  unfold rateLimit
  simp [hwindow]

/-- Where the limit is zero nothing is allowed. -/
theorem rateLimit_of_limit_eq_zero (h : l.limit q = 0) : (l.rateLimit now q).2 = 0 := by
  unfold rateLimit
  split_ifs <;> simp_all

end RateLimiter

/-! ### Reading from a vport -/

/-- What `RecvPackets` of a `BDVPort` uses: `conf_`, the limiter, and the packets in the queues. -/
structure BDVPort where
  adminUp : Bool
  rateLimiting : Bool
  limiter : RateLimiter
  queues : ℕ → List Packet

namespace BDVPort

/-- `recv_packets_vport`. -/
def recvPacketsVport (p : BDVPort) (qid cnt : ℕ) : BDVPort × List Packet :=
  ({ p with queues := Function.update p.queues qid ((p.queues qid).drop cnt) },
    (p.queues qid).take cnt)

/-- `RecvPackets`. -/
def recvPackets (p : BDVPort) (now qid cnt : ℕ) : BDVPort × List Packet :=
  if p.rateLimiting then
    let (limiter, allowedPackets) := p.limiter.rateLimit now (.inc, qid)
    let p := { p with limiter := limiter }
    if allowedPackets = 0 then (p, [])
    else
      let cnt := if allowedPackets < cnt then allowedPackets else cnt
      let (p, pkts) := p.recvPacketsVport qid cnt
      ({ p with limiter := p.limiter.updateTokens (.inc, qid) pkts.length }, pkts)
  else p.recvPacketsVport qid cnt

variable {p : BDVPort} {now qid cnt : ℕ}

/-- A read takes packets from the front of the queue, as many as are asked for and allowed. -/
theorem recvPackets_snd (hlim : p.rateLimiting = true) :
    (p.recvPackets now qid cnt).2 =
      (p.queues qid).take (min (p.limiter.rateLimit now (.inc, qid)).2 cnt) := by
  unfold recvPackets
  rw [if_pos hlim]
  by_cases hzero : (p.limiter.rateLimit now (.inc, qid)).2 = 0
  · simp [hzero]
  · have hmin : (if (p.limiter.rateLimit now (.inc, qid)).2 < cnt
        then (p.limiter.rateLimit now (.inc, qid)).2 else cnt) =
        min (p.limiter.rateLimit now (.inc, qid)).2 cnt := by
      split_ifs <;> omega
    simp only [if_neg hzero, recvPacketsVport, hmin]

@[simp] theorem limit_recvPackets :
    (p.recvPackets now qid cnt).1.limiter.limit = p.limiter.limit := by
  unfold recvPackets recvPacketsVport
  split_ifs
  · simp only
    split_ifs <;> simp
  · rfl

@[simp] theorem rateLimiting_recvPackets :
    (p.recvPackets now qid cnt).1.rateLimiting = p.rateLimiting := by
  unfold recvPackets recvPacketsVport
  split_ifs
  · simp only
    split_ifs <;> rfl
  · rfl

/-- A read of fewer packets than the limit keeps the tokens below the limit. -/
theorem token_recvPackets_lt (hlimit : p.limiter.limit (.inc, qid) < 2 ^ 32)
    (htoken : p.limiter.token (.inc, qid) < p.limiter.limit (.inc, qid))
    (hcnt : cnt < p.limiter.limit (.inc, qid)) :
    (p.recvPackets now qid cnt).1.limiter.token (.inc, qid) < p.limiter.limit (.inc, qid) := by
  unfold recvPackets recvPacketsVport
  split_ifs with hlim
  · simp only
    by_cases hwindow : p.limiter.window now (.inc, qid) = secondNs
    · have hzero := RateLimiter.rateLimit_of_window_eq hwindow
      split_ifs with hnone hmore
      · simp only [hzero]; omega
      all_goals
        simp only [RateLimiter.updateTokens, Function.update_self, hzero, List.length_take]
        rw [wadd_of_lt (by omega)]
        omega
    · obtain ⟨heq, hlt⟩ := RateLimiter.rateLimit_of_window_lt hlimit htoken hwindow
      split_ifs with hnone hmore
      · simpa only [heq] using htoken
      all_goals
        simp only [RateLimiter.updateTokens, Function.update_self, heq, List.length_take]
        rw [wadd_of_lt (by omega)]
        omega
  · exact htoken

/-- When a read returns a packet. -/
theorem recvPackets_ne_nil_iff (hlim : p.rateLimiting = true) :
    (p.recvPackets now qid cnt).2 ≠ [] ↔
      p.queues qid ≠ [] ∧ 0 < (p.limiter.rateLimit now (.inc, qid)).2 ∧ 0 < cnt := by
  rw [recvPackets_snd hlim, ne_eq, List.take_eq_nil_iff]
  constructor
  · intro h
    exact ⟨fun hnil => h (.inr hnil), by omega, by omega⟩
  · rintro ⟨hne, hallowed, hcnt⟩ (hzero | hnil)
    · omega
    · exact hne hnil

end BDVPort

end Backdraft

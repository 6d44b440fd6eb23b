import Mathlib.Tactic
import Backdraft.Lib.Meter
import Backdraft.Port.RateLimit

/-!
# Runs of a rate-limited queue

`RecvPackets` of `BDVPort` and of `PMDPort` asks `RateLimit` how many packets may be read, reads at
most as many and charges them with `UpdateTokens`.  The tokens are recharged inside the question,
so what a recharging call reads is charged to the time that begins with it.

* `PMDPort`, `Port`: the second driver, and a port of either kind;
* `RateLimiter.limitedRecv`: what a call of either does to the limiter;
* `limitedRecv_spec`: one call;
* `metered_charges`: a run of calls is a run of a meter;
* `recvPackets_rate_limited`: the limit over whole runs, without overflow.

Between two calls the limit of the queue may be set and packets may arrive in it.
-/

namespace Backdraft

open Word Meter

/-! ### The second driver -/

/-- What `RecvPackets` of a `PMDPort` uses: `conf_`, the limiter, and the packets in the receive
queues of the device. -/
structure PMDPort where
  rateLimiting : Bool
  limiter : RateLimiter
  rxQueues : ℕ → List Packet

namespace PMDPort

/-- `rte_eth_rx_burst`; its last argument has 16 bits. -/
def rteEthRxBurst (p : PMDPort) (qid cnt : ℕ) : PMDPort × List Packet :=
  ({ p with rxQueues := Function.update p.rxQueues qid ((p.rxQueues qid).drop (cnt % 2 ^ 16)) },
    (p.rxQueues qid).take (cnt % 2 ^ 16))

/-- `RecvPackets`. -/
def recvPackets (p : PMDPort) (now qid cnt : ℕ) : PMDPort × List Packet :=
  if p.rateLimiting then
    let (limiter, allowedPackets) := p.limiter.rateLimit now (.inc, qid)
    let p := { p with limiter := limiter }
    if allowedPackets = 0 then (p, [])
    else
      let cnt := if allowedPackets < cnt then allowedPackets else cnt
      let (p, pkts) := p.rteEthRxBurst qid cnt
      ({ p with limiter := p.limiter.updateTokens (.inc, qid) pkts.length }, pkts)
  else p.rteEthRxBurst qid cnt

end PMDPort

/-- A port of one of the two kinds. -/
inductive Port
  | bdvPort (p : BDVPort)
  | pmdPort (p : PMDPort)

/-! ### One call -/

/-- The limiter after a call of `RecvPackets` and the number of packets read; `take n` is how many
packets the driver reads when `n` are asked for. -/
def RateLimiter.limitedRecv (l : RateLimiter) (now : ℕ) (q : PacketDir × ℕ) (cnt : ℕ)
    (take : ℕ → ℕ) : RateLimiter × ℕ :=
  let (l, allowedPackets) := l.rateLimit now q
  if allowedPackets = 0 then (l, 0)
  else
    let recv := take (if allowedPackets < cnt then allowedPackets else cnt)
    (l.updateTokens q recv, recv)

/-- None of the computations of a call wraps around: the difference of the times, the product with
the limit, its share, what is left of it, and the tokens with the packets read. -/
structure NoOverflow (l : RateLimiter) (now : ℕ) (q : PacketDir × ℕ) (recv : ℕ) : Prop where
  clock : l.timestamp q ≤ now
  product : l.window now q * l.limit q < 2 ^ 64
  share : l.window now q * l.limit q / secondNs < 2 ^ 32
  remaining : 0 < (l.rateLimit now q).2 →
    (l.rateLimit now q).2 + l.token q = l.window now q * l.limit q / secondNs
  token : (l.rateLimit now q).1.token q + recv < 2 ^ 32

namespace RateLimiter

variable {l : RateLimiter} {now cnt L : ℕ} {q : PacketDir × ℕ} {take : ℕ → ℕ}

/-- A second has passed since the last recharge. -/
theorem timestamp_add_le (hts : l.timestamp q ≤ now) (hnow : now < 2 ^ 64)
    (hw : l.window now q = secondNs) : l.timestamp q + secondNs ≤ now := by
  rw [window, wsub_of_le hts hnow] at hw
  split_ifs at hw <;> omega

theorem share_le (l : RateLimiter) (now : ℕ) (q : PacketDir × ℕ) :
    l.window now q * l.limit q / secondNs ≤ l.limit q :=
  Nat.div_le_of_le_mul (Nat.mul_le_mul_right _ window_le)

/-- What is allowed is what the tokens leave of the share. -/
theorem rateLimit_snd (hlimit : l.limit q < 2 ^ 32) :
    (l.rateLimit now q).2 = l.window now q * l.limit q / secondNs - l.token q := by
  unfold rateLimit
  simp only [share_eq hlimit]
  split_ifs <;> omega

theorem token_rateLimit :
    (l.rateLimit now q).1.token q = if l.window now q = secondNs then 0 else l.token q := by
  unfold rateLimit
  split_ifs <;> simp

theorem timestamp_rateLimit :
    (l.rateLimit now q).1.timestamp q =
      if l.window now q = secondNs then now else l.timestamp q := by
  unfold rateLimit
  split_ifs <;> simp

theorem limitedRecv_of_eq_zero (h : (l.rateLimit now q).2 = 0) :
    l.limitedRecv now q cnt take = ((l.rateLimit now q).1, 0) := if_pos h

theorem limitedRecv_of_ne_zero (h : (l.rateLimit now q).2 ≠ 0) :
    l.limitedRecv now q cnt take =
      ((l.rateLimit now q).1.updateTokens q
          (take (if (l.rateLimit now q).2 < cnt then (l.rateLimit now q).2 else cnt)),
        take (if (l.rateLimit now q).2 < cnt then (l.rateLimit now q).2 else cnt)) := if_neg h

/-- No more is read than is allowed. -/
theorem limitedRecv_snd_le (l : RateLimiter) (now : ℕ) (q : PacketDir × ℕ) (cnt : ℕ)
    (htake : ∀ n, take n ≤ n) :
    (l.limitedRecv now q cnt take).2 ≤ (l.rateLimit now q).2 := by
  by_cases hzero : (l.rateLimit now q).2 = 0
  · simp [limitedRecv_of_eq_zero hzero]
  · rw [limitedRecv_of_ne_zero hzero]
    exact (htake _).trans (by split_ifs <;> omega)

/-- The tokens after the call, whether or not they were recharged, are at most the limit. -/
theorem counter_le (now cnt : ℕ) (htake : ∀ n, take n ≤ n) (hL : L < 2 ^ 32)
    (hlimit : l.limit q ≤ L) (htoken : l.token q ≤ L) :
    (l.rateLimit now q).1.token q + (l.limitedRecv now q cnt take).2 ≤ L := by
  have hrecv := limitedRecv_snd_le l now q cnt htake
  rw [rateLimit_snd (by omega)] at hrecv
  have hshare := share_le l now q
  rw [token_rateLimit]
  split_ifs <;> omega

/-- **One call.**  The packets read are charged, after the recharge if there is one, and a recharge
comes a second after the last one. -/
theorem limitedRecv_spec (now cnt : ℕ) (htake : ∀ n, take n ≤ n) (hL : L < 2 ^ 32)
    (hlimit : l.limit q ≤ L) (htoken : l.token q ≤ L) :
    (l.limitedRecv now q cnt take).1.token q =
        (if l.window now q = secondNs then 0 else l.token q) + (l.limitedRecv now q cnt take).2 ∧
      (l.limitedRecv now q cnt take).1.timestamp q =
        if l.window now q = secondNs then now else l.timestamp q := by
  have hcounter := counter_le now cnt htake hL hlimit htoken
  rw [← token_rateLimit, ← timestamp_rateLimit]
  by_cases hzero : (l.rateLimit now q).2 = 0
  · rw [limitedRecv_of_eq_zero hzero]
    exact ⟨rfl, rfl⟩
  · rw [limitedRecv_of_ne_zero hzero] at hcounter ⊢
    refine ⟨?_, rfl⟩
    simp only [updateTokens, Function.update_self]
    exact wadd_of_lt (by omega)

theorem noOverflow_limitedRecv (htake : ∀ n, take n ≤ n) (hL : L < 2 ^ 32)
    (hlimit : l.limit q ≤ L) (htoken : l.token q ≤ L) (hts : l.timestamp q ≤ now) :
    NoOverflow l now q (l.limitedRecv now q cnt take).2 where
  clock := hts
  product := by
    have hprod : l.window now q * l.limit q ≤ 1000000000 * l.limit q :=
      Nat.mul_le_mul_right _ window_le
    omega
  share := by
    have := share_le l now q
    omega
  remaining := by
    rw [rateLimit_snd (by omega)]
    omega
  token := by
    have := counter_le now cnt htake hL hlimit htoken
    omega

end RateLimiter

/-! ### Runs -/

/-- A call of `RecvPackets` in a run: the clock and the count asked for, and the limit and the
packets that are in the queue by then. -/
structure RecvCall where
  now : ℕ
  cnt : ℕ
  limit : ℕ
  packets : List Packet

namespace Port

/-- `conf_.rate_limiting`. -/
def rateLimiting : Port → Bool
  | bdvPort p => p.rateLimiting
  | pmdPort p => p.rateLimiting

/-- `limiter_`. -/
def limiter : Port → RateLimiter
  | bdvPort p => p.limiter
  | pmdPort p => p.limiter

/-- `RecvPackets` of the kind of the port. -/
def recvPackets : Port → ℕ → ℕ → ℕ → Port × List Packet
  | bdvPort p, now, qid, cnt =>
    (bdvPort (p.recvPackets now qid cnt).1, (p.recvPackets now qid cnt).2)
  | pmdPort p, now, qid, cnt =>
    (pmdPort (p.recvPackets now qid cnt).1, (p.recvPackets now qid cnt).2)

/-- The port when a call is made: the limit of the queue and its packets have been set. -/
def atCall (p : Port) (qid : ℕ) (c : RecvCall) : Port :=
  let l := { p.limiter with limit := Function.update p.limiter.limit (.inc, qid) c.limit }
  match p with
  | bdvPort p =>
    bdvPort { p with limiter := l, queues := Function.update p.queues qid c.packets }
  | pmdPort p =>
    pmdPort { p with limiter := l, rxQueues := Function.update p.rxQueues qid c.packets }

/-- A call of a run. -/
def receive (p : Port) (qid : ℕ) (c : RecvCall) : Port × List Packet :=
  (p.atCall qid c).recvPackets c.now qid c.cnt

/-- The port after the calls of a run. -/
def after (p : Port) (qid : ℕ) (calls : List RecvCall) : Port :=
  calls.foldl (fun p c => (p.receive qid c).1) p

/-- What a call charges; the tokens are recharged when the window is a second. -/
def charge (p : Port) (qid : ℕ) (c : RecvCall) : Charge :=
  ⟨c.now, (p.receive qid c).2.length,
    (p.atCall qid c).limiter.window c.now (.inc, qid) == secondNs⟩

/-- What the calls of a run charge. -/
def charges (p : Port) (qid : ℕ) : List RecvCall → List Charge
  | [] => []
  | c :: cs => p.charge qid c :: (p.receive qid c).1.charges qid cs

variable {p : Port} {qid : ℕ} {c : RecvCall}

@[simp] theorem rateLimiting_atCall : (p.atCall qid c).rateLimiting = p.rateLimiting := by
  cases p <;> rfl

@[simp] theorem limiter_atCall :
    (p.atCall qid c).limiter =
      { p.limiter with limit := Function.update p.limiter.limit (.inc, qid) c.limit } := by
  cases p <;> rfl

/-- **Both drivers** do to the limiter what `limitedRecv` does, and stay rate-limited. -/
theorem recvPackets_eq (p : Port) (qid now cnt : ℕ) (hlim : p.rateLimiting = true) :
    ∃ take : ℕ → ℕ, (∀ n, take n ≤ n) ∧
      (p.recvPackets now qid cnt).1.limiter =
        (p.limiter.limitedRecv now (.inc, qid) cnt take).1 ∧
      (p.recvPackets now qid cnt).2.length =
        (p.limiter.limitedRecv now (.inc, qid) cnt take).2 ∧
      (p.recvPackets now qid cnt).1.rateLimiting = true := by
  cases p with
  | bdvPort p =>
    replace hlim : p.rateLimiting = true := hlim
    refine ⟨fun n => ((p.queues qid).take n).length, fun n => by simp, ?_⟩
    simp only [recvPackets, limiter, rateLimiting, BDVPort.recvPackets, BDVPort.recvPacketsVport,
      hlim, if_true]
    by_cases hzero : (p.limiter.rateLimit now (.inc, qid)).2 = 0
    · simp [RateLimiter.limitedRecv_of_eq_zero hzero, hzero]
    · rw [RateLimiter.limitedRecv_of_ne_zero hzero, if_neg hzero]
      exact ⟨rfl, rfl, rfl⟩
  | pmdPort p =>
    replace hlim : p.rateLimiting = true := hlim
    refine ⟨fun n => ((p.rxQueues qid).take (n % 2 ^ 16)).length, fun n => ?_, ?_⟩
    · exact (List.length_take_le _ _).trans (Nat.mod_le _ _)
    simp only [recvPackets, limiter, rateLimiting, PMDPort.recvPackets, PMDPort.rteEthRxBurst,
      hlim, if_true]
    by_cases hzero : (p.limiter.rateLimit now (.inc, qid)).2 = 0
    · simp [RateLimiter.limitedRecv_of_eq_zero hzero, hzero]
    · rw [RateLimiter.limitedRecv_of_ne_zero hzero, if_neg hzero]
      exact ⟨rfl, rfl, rfl⟩

/-- A run of calls on a rate-limited queue, from the time `clock` on: the clock does not go back,
and the limit never exceeds `L`. -/
structure LimitedRun (L : ℕ) (p : Port) (qid clock : ℕ) (calls : List RecvCall) : Prop where
  rateLimiting : p.rateLimiting = true
  token_le : p.limiter.token (.inc, qid) ≤ L
  timestamp_le : p.limiter.timestamp (.inc, qid) ≤ clock
  clock_le : (clock :: calls.map RecvCall.now).Pairwise (· ≤ ·)
  now_lt : ∀ c ∈ calls, c.now < 2 ^ 64
  limit_le : ∀ c ∈ calls, c.limit ≤ L

/-- What a call of a run does. -/
structure Receives (L : ℕ) (p : Port) (qid : ℕ) (c : RecvCall) : Prop where
  rateLimiting : (p.receive qid c).1.rateLimiting = true
  token : (p.receive qid c).1.limiter.token (.inc, qid) =
    (p.charge qid c).counter (p.limiter.token (.inc, qid))
  timestamp : (p.receive qid c).1.limiter.timestamp (.inc, qid) =
    (p.charge qid c).stamp (p.limiter.timestamp (.inc, qid))
  counter_le : (p.charge qid c).counter (p.limiter.token (.inc, qid)) ≤ L
  recharge : (p.charge qid c).recharged = true →
    p.limiter.timestamp (.inc, qid) + secondNs ≤ c.now
  noOverflow : NoOverflow (p.atCall qid c).limiter c.now (.inc, qid) (p.receive qid c).2.length

section Runs

variable {L clock : ℕ} {calls : List RecvCall}

theorem LimitedRun.receives (h : LimitedRun L p qid clock (c :: calls)) (hL : L < 2 ^ 32) :
    Receives L p qid c := by
  have hts : p.limiter.timestamp (.inc, qid) ≤ c.now :=
    h.timestamp_le.trans (List.rel_of_pairwise_cons h.clock_le List.mem_cons_self)
  have hnow := h.now_lt c List.mem_cons_self
  have hlimit : (p.atCall qid c).limiter.limit (.inc, qid) ≤ L := by
    simpa using h.limit_le c List.mem_cons_self
  have htoken : (p.atCall qid c).limiter.token (.inc, qid) ≤ L := by simpa using h.token_le
  have hts' : (p.atCall qid c).limiter.timestamp (.inc, qid) ≤ c.now := by simpa using hts
  obtain ⟨take, htake, hlimiter, hlength, hrl⟩ :=
    recvPackets_eq (p.atCall qid c) qid c.now c.cnt (by simpa using h.rateLimiting)
  obtain ⟨hcount, hstamp⟩ :=
    RateLimiter.limitedRecv_spec c.now c.cnt htake hL hlimit htoken
  have hle := RateLimiter.counter_le c.now c.cnt htake hL hlimit htoken
  rw [RateLimiter.token_rateLimit] at hle
  refine ⟨hrl, ?_, ?_, ?_, ?_, ?_⟩
  · simp only [receive, charge, Charge.counter, hlimiter, hlength, hcount, beq_iff_eq]
    simp
  · simp only [receive, charge, Charge.stamp, hlimiter, hstamp, beq_iff_eq]
    simp
  · simp only [receive, charge, Charge.counter, hlength, beq_iff_eq]
    simpa using hle
  · intro hre
    simp only [charge, beq_iff_eq] at hre
    simpa using RateLimiter.timestamp_add_le hts' hnow hre
  · rw [receive, hlength]
    exact RateLimiter.noOverflow_limitedRecv htake hL hlimit htoken hts'

/-- After a call the rest is a run again. -/
theorem LimitedRun.next (h : LimitedRun L p qid clock (c :: calls)) (hL : L < 2 ^ 32) :
    LimitedRun L (p.receive qid c).1 qid c.now calls := by
  have hr := h.receives hL
  have hclock : clock ≤ c.now := List.rel_of_pairwise_cons h.clock_le List.mem_cons_self
  refine ⟨hr.rateLimiting, hr.token ▸ hr.counter_le, ?_, h.clock_le.of_cons,
    fun d hd => h.now_lt d (List.mem_cons_of_mem _ hd),
    fun d hd => h.limit_le d (List.mem_cons_of_mem _ hd)⟩
  rw [hr.timestamp, Charge.stamp]
  split_ifs
  · exact le_rfl
  · exact h.timestamp_le.trans hclock

/-- **A run is a run of a meter** with the window of a second. -/
theorem LimitedRun.metered (h : LimitedRun L p qid clock calls) (hL : L < 2 ^ 32) :
    Metered secondNs L (p.limiter.token (.inc, qid)) (p.limiter.timestamp (.inc, qid)) clock
      (p.charges qid calls) := by
  induction calls generalizing p clock with
  | nil => trivial
  | cons c calls ih =>
    have hr := h.receives hL
    have hrest := ih (h.next hL)
    rw [hr.token, hr.timestamp] at hrest
    exact ⟨List.rel_of_pairwise_cons h.clock_le List.mem_cons_self, hr.recharge, hr.counter_le,
      hrest⟩

theorem LimitedRun.noOverflow {pre post : List RecvCall}
    (h : LimitedRun L p qid clock (pre ++ c :: post)) (hL : L < 2 ^ 32) :
    NoOverflow ((p.after qid pre).atCall qid c).limiter c.now (.inc, qid)
      ((p.after qid pre).receive qid c).2.length := by
  induction pre generalizing p clock with
  | nil => exact (h.receives hL).noOverflow
  | cons d pre ih => exact ih (h.next hL)

/-- **The receive rate limit.**  In every run of calls on a rate-limited queue, what is charged
from a call up to the next recharge is at most `L`, recharges are a second apart, at most
`L * (T / secondNs + 2)` packets are received in any interval of `T` nanoseconds, and no
computation of a call overflows or underflows. -/
theorem recvPackets_rate_limited (hL : L < 2 ^ 32) (h : LimitedRun L p qid clock calls) :
    (∀ pre e seg post, p.charges qid calls = pre ++ e :: (seg ++ post) →
        (∀ x ∈ seg, x.recharged = false) → total (e :: seg) ≤ L) ∧
      ((p.charges qid calls).filter Charge.recharged).Pairwise
        (fun e e' => e.time + secondNs ≤ e'.time) ∧
      (∀ a T, total (between a (a + T) (p.charges qid calls)) ≤ L * (T / secondNs + 2)) ∧
      ∀ pre c post, calls = pre ++ c :: post →
        NoOverflow ((p.after qid pre).atCall qid c).limiter c.now (.inc, qid)
          ((p.after qid pre).receive qid c).2.length := by
  have hm := h.metered hL
  refine ⟨?_, hm.recharges_apart, fun a T => hm.sum_between_le (by decide) h.token_le a T, ?_⟩
  · intro pre e seg post heq hseg
    rw [heq] at hm
    exact hm.epoch_le hseg
  · rintro pre c post rfl
    exact h.noOverflow hL

/-- A vport with the limit of two packets a second, made at the time zero. -/
def slowPort : Port := .bdvPort ⟨true, true, .init 2 0, fun _ => []⟩

/-- Four calls, with the limit raised before the last. -/
def slowCalls (pkt : Packet) : List RecvCall :=
  [⟨1000000000, 32, 2, [pkt, pkt, pkt]⟩, ⟨1500000000, 32, 2, [pkt]⟩,
    ⟨2000000000, 32, 2, [pkt]⟩, ⟨2600000000, 32, 3, [pkt, pkt]⟩]

theorem limitedRun_slowCalls (pkt : Packet) : LimitedRun 3 slowPort 0 0 (slowCalls pkt) where
  rateLimiting := rfl
  token_le := by decide
  timestamp_le := by decide
  clock_le := by simp [slowCalls]
  now_lt := by simp [slowCalls]
  limit_le := by simp [slowCalls]

/-- The run charges three packets, and all of the above holds of it. -/
theorem slowCalls_rate_limited :
    slowPort.charges 0 (slowCalls default) =
        [⟨1000000000, 2, true⟩, ⟨1500000000, 0, false⟩, ⟨2000000000, 0, true⟩,
          ⟨2600000000, 1, false⟩] ∧
      (∀ a T, total (between a (a + T) (slowPort.charges 0 (slowCalls default))) ≤
        3 * (T / secondNs + 2)) ∧
      ((slowPort.charges 0 (slowCalls default)).filter Charge.recharged).Pairwise
        (fun e e' => e.time + secondNs ≤ e'.time) := by
  have h := recvPackets_rate_limited (by decide) (limitedRun_slowCalls default)
  exact ⟨by decide +kernel, h.2.2.1, h.2.1⟩

end Runs

end Port

end Backdraft

import Backdraft.Packet.Overlay
import Backdraft.Port.RateLimit

/-!
# The book of overlay flows

`BKDRFTOverlayCtrl` of `bkdrft_overlay_ctrl.cc`: a table from flows to the port and queue they come
from.  An input module books the flows it reads; a message about a booked flow limits the rate of
its queue and pauses the flow.

* `OverlayEntry`, `OverlayPort`, `OverlayCtrl`;
* `extractInto`: `ExtractFlow` on the local variable it writes to;
* `fillBook`, `getOverlayEntry`, `applyOverlayMessage`, `sendOverlayMessage`;
* `bounds_kept_iff`: when a message leaves the limits and the end of the pause in bounds;
* `malformed_ignored_iff`: when a message that names no flow has no effect.

`flowBook_` takes the fields that `Flow::EqualTo` compares to entries, and may refuse a new flow,
which `FillBook` does not notice.  Ports are named by numbers.  The arrays of a port have
`MAX_QUEUES_PER_DIR` places in each direction, and queue ids are below that.
-/

namespace Backdraft

open Bess Bytes Word

/-- `one_batch`. -/
def oneBatch : ℕ := 32

/-- `DEFAULT_WINDOW_SIZE`. -/
def defaultWindowSize : ℕ := 32

/-- `struct OverlayEntry`. -/
structure OverlayEntry where
  port : ℕ
  qid : ℕ
  block : Bool
  pauseUntilTs : ℕ
  window : ℕ
  deriving DecidableEq, Inhabited

/-- `port_type_t`. -/
inductive PortType
  | nic
  | vhost
  | vport
  deriving DecidableEq

/-- What the overlay control uses of a port: its type, the limiter, and of `queue_stats` the two
counters for overlay messages. -/
structure OverlayPort where
  ptype : PortType
  limiter : RateLimiter
  overlayPackets : PacketDir × ℕ → ℕ
  overlayDuration : PacketDir × ℕ → ℕ

/-- `BKDRFTOverlayCtrl`, with the ports in its entries. -/
structure OverlayCtrl where
  flowBook : HashTable FlowTuple OverlayEntry
  ports : ℕ → OverlayPort

/-- `ExtractFlow` on a variable that holds `flow`, with whether it succeeds.  An address that is
not read to its end is written in part, and then the other fields stay as they are. -/
def extractInto (m : Overlay) (flow : Flow) : Flow × Bool :=
  let src := MacAddr.fromString (toBE 6 flow.ethSrcAddr) m.srcMac
  let flow := { flow with ethSrcAddr := ofBE src.1 }
  if src.2 = false then (flow, false)
  else
    let dst := MacAddr.fromString (toBE 6 flow.ethDstAddr) m.dstMac
    let flow := { flow with ethDstAddr := ofBE dst.1 }
    if dst.2 = false then (flow, false)
    else ({ flow with
      addrSrc := m.srcIp % 2 ^ 32
      addrDst := m.dstIp % 2 ^ 32
      portSrc := m.srcPort % 2 ^ 16
      portDst := m.dstPort % 2 ^ 16
      protocol := m.protocol % 2 ^ 32 }, true)

namespace OverlayCtrl

/-- The book before any flow is booked. -/
def init (ports : ℕ → OverlayPort) : OverlayCtrl := ⟨∅, ports⟩

/-- The entry of a flow that is booked for the first time. -/
def newEntry (port qid : ℕ) : OverlayEntry := ⟨port, qid, false, 0, defaultWindowSize⟩

/-- `FillBook`, with the end of the flow's pause. -/
def fillBook (c : OverlayCtrl) (port qid : ℕ) (flow : Flow) : OverlayCtrl × ℕ :=
  match c.flowBook.lookup flow.toFlowTuple with
  | none =>
    ({ c with flowBook := c.flowBook.insert flow.toFlowTuple (newEntry port qid) }, 0)
  | some entry =>
    ({ c with flowBook :=
        c.flowBook.insert flow.toFlowTuple { entry with port := port, qid := qid } },
      entry.pauseUntilTs)

/-- `getOverlayEntry`. -/
def getOverlayEntry (c : OverlayCtrl) (flow : Flow) : Option OverlayEntry :=
  c.flowBook.lookup flow.toFlowTuple

/-- The packet rate of a message, at least a batch. -/
def limitedRate (m : Overlay) : ℕ := if m.packetPerSec < oneBatch then oneBatch else m.packetPerSec

/-- What a message for a flow of the queue `qid` does to its port; a limit has 32 bits. -/
def applyToPort (p : OverlayPort) (m : Overlay) (qid : ℕ) : OverlayPort :=
  { p with
    limiter := { p.limiter with
      limit := Function.update
        (Function.update p.limiter.limit (.out, qid) (limitedRate m % 2 ^ 32))
        (.inc, qid) (limitedRate m % 2 ^ 32) }
    overlayPackets :=
      Function.update p.overlayPackets (.inc, qid) (wadd 64 (p.overlayPackets (.inc, qid)) 1)
    overlayDuration := Function.update p.overlayDuration (.inc, qid)
      (wadd 64 (p.overlayDuration (.inc, qid)) m.pauseDuration) }

/-- `ApplyOverlayMessage`; `flow` is what the local variable holds before `ExtractFlow`, whose
result is not looked at. -/
def applyOverlayMessage (c : OverlayCtrl) (m : Overlay) (now : ℕ) (flow : Flow) : OverlayCtrl :=
  let flow := (extractInto m flow).1
  match c.flowBook.lookup flow.toFlowTuple with
  | none => c
  | some entry =>
    { flowBook := c.flowBook.insert flow.toFlowTuple
        { entry with pauseUntilTs := wadd 64 m.pauseDuration now }
      ports := Function.update c.ports entry.port
        (applyToPort (c.ports entry.port) m entry.qid) }

/-- The result of sending a message: the code returned, how often the packet was freed, and the
port that took it, with the packet as it was written. -/
structure SendResult where
  ret : ℤ
  frees : ℕ
  accepted : Option (ℕ × Mbuf)

/-- `SendOverlayMessage`; `takes` says whether the port takes the packet. -/
def sendOverlayMessage (codec : OverlayCodec) (c : OverlayCtrl) (flow : Flow) (pkt : Mbuf)
    (pps pauseDuration : ℕ) (takes : Bool) : SendResult :=
  match c.flowBook.lookup flow.toFlowTuple with
  | none => ⟨-1, 0, none⟩
  | some entry =>
    if (c.ports entry.port).ptype = .vhost then ⟨-2, 0, none⟩
    else if takes then
      ⟨0, 0, some (entry.port, fillOverlayPacket codec flow pkt pps pauseDuration)⟩
    else ⟨-1, 1, none⟩

end OverlayCtrl

/-! ### The flow of a message -/

variable {m : Overlay} {f flow : Flow}

theorem extractInto_of_extractFlow (h : extractFlow m = some f) (flow : Flow) :
    extractInto m flow = (f, true) := by
  unfold extractFlow at h
  cases hsrc : MacAddr.ofText m.srcMac with
  | none => simp [hsrc] at h
  | some src =>
    cases hdst : MacAddr.ofText m.dstMac with
    | none => simp [hsrc, hdst] at h
    | some dst =>
      simp only [hsrc, hdst, Option.some.injEq] at h
      subst h
      simp [extractInto, MacAddr.fromString_of_ofText hsrc length_toBE,
        MacAddr.fromString_of_ofText hdst length_toBE]

/-- A message with a malformed address leaves the fields that name the flow as they are. -/
theorem extractInto_of_malformed (h : extractFlow m = none) (flow : Flow) :
    (extractInto m flow).2 = false ∧
      (extractInto m flow).1.toFlowTuple = flow.toFlowTuple := by
  unfold extractFlow at h
  cases hsrc : MacAddr.ofText m.srcMac with
  | none => simp [extractInto, MacAddr.fromString_of_not_ofText hsrc]
  | some src =>
    cases hdst : MacAddr.ofText m.dstMac with
    | none =>
      simp [extractInto, MacAddr.fromString_of_ofText hsrc length_toBE,
        MacAddr.fromString_of_not_ofText hdst]
    | some dst => simp [hsrc, hdst] at h

/-! ### What the calls do -/

namespace OverlayCtrl

variable {c : OverlayCtrl} {entry : OverlayEntry} {now port qid : ℕ} {k : FlowTuple}

/-- Booking a flow leaves the entries of the others. -/
theorem lookup_fillBook_of_ne (hk : k ≠ f.toFlowTuple) :
    (c.fillBook port qid f).1.flowBook.lookup k = c.flowBook.lookup k := by
  unfold fillBook
  split <;> exact HashTable.lookup_insert_ne hk

/-- The entry of a flow after it was booked, in a book that refuses no flow. -/
theorem lookup_fillBook_self (h : c.flowBook.Accepts) :
    (c.fillBook port qid f).1.flowBook.lookup f.toFlowTuple =
      some { (c.flowBook.lookup f.toFlowTuple).getD (newEntry port qid) with
        port := port, qid := qid } := by
  unfold fillBook
  split
  · rename_i hnone
    rw [hnone]
    exact h.lookup_insert _ _
  · rename_i entry hentry
    rw [hentry]
    exact h.lookup_insert _ _

theorem accepts_fillBook (h : c.flowBook.Accepts) :
    (c.fillBook port qid f).1.flowBook.Accepts := by
  unfold fillBook
  split <;> exact h.insert _ _

/-- What `FillBook` returns. -/
theorem snd_fillBook :
    (c.fillBook port qid f).2 =
      ((c.getOverlayEntry f).map OverlayEntry.pauseUntilTs).getD 0 := by
  unfold fillBook getOverlayEntry
  split
  · rename_i hnone
    rw [hnone]
    rfl
  · rename_i entry hentry
    rw [hentry]
    rfl

@[simp] theorem ports_fillBook : (c.fillBook port qid f).1.ports = c.ports := by
  unfold fillBook
  split <;> rfl

/-- A message for a flow that is not booked. -/
theorem applyOverlayMessage_of_none
    (h : c.flowBook.lookup (extractInto m flow).1.toFlowTuple = none) :
    c.applyOverlayMessage m now flow = c := by
  simp only [applyOverlayMessage, h]

theorem limit_applyToPort (p : OverlayPort) (d : PacketDir) (q : ℕ) :
    (applyToPort p m qid).limiter.limit (d, q) =
      if q = qid then limitedRate m % 2 ^ 32 else p.limiter.limit (d, q) := by
  cases d <;> simp [applyToPort, Function.update_apply]

section Booked

variable (h : c.flowBook.lookup (extractInto m flow).1.toFlowTuple = some entry)
include h

/-- The entries after a message for a booked flow. -/
theorem lookup_applyOverlayMessage :
    (c.applyOverlayMessage m now flow).flowBook.lookup k =
      if k = (extractInto m flow).1.toFlowTuple then
        some { entry with pauseUntilTs := wadd 64 m.pauseDuration now }
      else c.flowBook.lookup k := by
  simp only [applyOverlayMessage, h]
  exact HashTable.lookup_insert_of_some h

/-- The ports after a message for a booked flow. -/
theorem ports_applyOverlayMessage :
    (c.applyOverlayMessage m now flow).ports = Function.update c.ports entry.port
      (applyToPort (c.ports entry.port) m entry.qid) := by
  simp only [applyOverlayMessage, h]

/-- The limits after a message for a booked flow. -/
theorem limit_applyOverlayMessage (p : ℕ) (d : PacketDir) (q : ℕ) :
    ((c.applyOverlayMessage m now flow).ports p).limiter.limit (d, q) =
      if p = entry.port ∧ q = entry.qid then limitedRate m % 2 ^ 32
      else (c.ports p).limiter.limit (d, q) := by
  rw [ports_applyOverlayMessage h]
  by_cases hp : p = entry.port
  · subst hp
    simp [limit_applyToPort]
  · simp [hp]

end Booked

/-! ### Bounds -/

/-- The limits of the flow's port and queue are at least a batch, and its pause does not end in the
past. -/
structure Bounded (c : OverlayCtrl) (f : Flow) (port qid now : ℕ) : Prop where
  limit_out : oneBatch ≤ (c.ports port).limiter.limit (.out, qid)
  limit_inc : oneBatch ≤ (c.ports port).limiter.limit (.inc, qid)
  pause : ∃ entry, c.getOverlayEntry f = some entry ∧ now ≤ entry.pauseUntilTs

theorem le_limitedRate_mod :
    oneBatch ≤ limitedRate m % 2 ^ 32 ↔
      m.packetPerSec < oneBatch ∨ oneBatch ≤ m.packetPerSec % 2 ^ 32 := by
  unfold limitedRate
  split_ifs with hsmall
  · exact iff_of_true (by decide) (.inl hsmall)
  · exact ⟨.inr, fun h => h.resolve_left hsmall⟩

/-- The end of a pause wraps to a time before `now` as soon as it does not fit. -/
theorem le_wadd_iff {d : ℕ} (hd : d < 2 ^ 64) (hnow : now < 2 ^ 64) :
    now ≤ wadd 64 d now ↔ d + now < 2 ^ 64 := by
  constructor
  · intro hle
    by_contra hwrap
    have hsub : wadd 64 d now = d + now - 2 ^ 64 := by
      unfold wadd
      rw [Nat.mod_eq_sub_mod (by omega), Nat.mod_eq_of_lt (by omega)]
    omega
  · intro hlt
    rw [wadd_of_lt hlt]
    omega

/-- **A message leaves the limits at a batch or more and the end of the pause in the future exactly
when its rate, cut to 32 bits, does not fall below a batch, and the end of the pause fits in 64
bits.** -/
theorem bounds_kept_iff (hm : m.InRange) (hnow : now < 2 ^ 64)
    (hflow : (extractInto m flow).1.equalTo f = true) (hbooked : c.getOverlayEntry f = some entry) :
    (c.applyOverlayMessage m now flow).Bounded f entry.port entry.qid now ↔
      (m.packetPerSec < oneBatch ∨ oneBatch ≤ m.packetPerSec % 2 ^ 32) ∧
        m.pauseDuration + now < 2 ^ 64 := by
  have hkey := Flow.equalTo_iff.1 hflow
  have hlook : c.flowBook.lookup (extractInto m flow).1.toFlowTuple = some entry := by
    rw [hkey]
    exact hbooked
  have hlimit : ∀ d, ((c.applyOverlayMessage m now flow).ports entry.port).limiter.limit
      (d, entry.qid) = limitedRate m % 2 ^ 32 := by
    intro d
    rw [limit_applyOverlayMessage hlook, if_pos ⟨rfl, rfl⟩]
  have hentry : (c.applyOverlayMessage m now flow).getOverlayEntry f =
      some { entry with pauseUntilTs := wadd 64 m.pauseDuration now } := by
    rw [getOverlayEntry, lookup_applyOverlayMessage hlook, if_pos hkey.symm]
  rw [← le_limitedRate_mod, ← le_wadd_iff hm.pauseDuration hnow]
  constructor
  · rintro ⟨hout, -, e, he, hpause⟩
    rw [hentry, Option.some.injEq] at he
    subst he
    exact ⟨hlimit .out ▸ hout, hpause⟩
  · rintro ⟨hrate, hpause⟩
    exact ⟨(hlimit .out).symm ▸ hrate, (hlimit .inc).symm ▸ hrate, _, hentry, hpause⟩

/-- A port as it is made. -/
def newPort (ptype : PortType) : OverlayPort :=
  ⟨ptype, RateLimiter.init 0 0, fun _ => 0, fun _ => 0⟩

/-- A book with one flow, on queue 3 of port 0. -/
def oneBooked : OverlayCtrl := ((init fun _ => newPort .nic).fillBook 0 3 default).1

theorem getOverlayEntry_oneBooked : oneBooked.getOverlayEntry default = some (newEntry 0 3) := by
  decide +kernel

theorem flowInRange_default : FlowInRange default := by
  constructor <;> decide

/-- The message that `FillOverlayPacket` makes is read as a message for its flow. -/
theorem extractInto_overlayMsg {pps pauseDuration : ℕ} (hf : FlowInRange f) (flow : Flow) :
    (extractInto (overlayMsg f pps pauseDuration) flow).1 = f := by
  rw [extractInto_of_extractFlow (extractFlow_overlayMsg hf)]

theorem equalTo_extractInto_overlayMsg {pps pauseDuration : ℕ} (hf : FlowInRange f) (flow : Flow) :
    (extractInto (overlayMsg f pps pauseDuration) flow).1.equalTo f = true := by
  rw [extractInto_overlayMsg hf]
  exact Flow.equalTo_iff.2 rfl

/-- A message of ordinary size. -/
theorem bounds_kept_ordinary :
    (overlayMsg default 1000 5).InRange ∧
    (oneBooked.applyOverlayMessage (overlayMsg default 1000 5) 10 default).Bounded
      default 0 3 10 := by
  have hm : (overlayMsg default 1000 5).InRange :=
    inRange_overlayMsg flowInRange_default (by decide) (by decide)
  exact ⟨hm, (bounds_kept_iff hm (by decide)
    (equalTo_extractInto_overlayMsg flowInRange_default default) getOverlayEntry_oneBooked).2
      ⟨.inr (by decide), by decide⟩⟩

/-- A rate of `2 ^ 32` stops the queue, and a pause of `2 ^ 64 - 1` ends before it begins. -/
theorem bounds_broken :
    (overlayMsg default (2 ^ 32) 5).InRange ∧ (overlayMsg default 1000 (2 ^ 64 - 1)).InRange ∧
    ((oneBooked.applyOverlayMessage (overlayMsg default (2 ^ 32) 5) 10
        default).ports 0).limiter.limit (.out, 3) = 0 ∧
    ((oneBooked.applyOverlayMessage (overlayMsg default 1000 (2 ^ 64 - 1)) 10
        default).getOverlayEntry default).map OverlayEntry.pauseUntilTs = some 9 ∧
    ¬(oneBooked.applyOverlayMessage (overlayMsg default (2 ^ 32) 5) 10 default).Bounded
        default 0 3 10 ∧
    ¬(oneBooked.applyOverlayMessage (overlayMsg default 1000 (2 ^ 64 - 1)) 10 default).Bounded
        default 0 3 10 := by
  have hlimit : ((oneBooked.applyOverlayMessage (overlayMsg default (2 ^ 32) 5) 10
      default).ports 0).limiter.limit (.out, 3) = 0 := by
    decide +kernel
  have hpause : ((oneBooked.applyOverlayMessage (overlayMsg default 1000 (2 ^ 64 - 1)) 10
      default).getOverlayEntry default).map OverlayEntry.pauseUntilTs = some 9 := by
    decide +kernel
  refine ⟨inRange_overlayMsg flowInRange_default (by decide) (by decide),
    inRange_overlayMsg flowInRange_default (by decide) (by decide), hlimit, hpause,
    fun hb => ?_, fun hb => ?_⟩
  · have hout := hb.limit_out
    rw [hlimit] at hout
    exact absurd hout (by decide)
  · obtain ⟨e, he, hle⟩ := hb.pause
    rw [he, Option.map_some, Option.some.injEq] at hpause
    omega

/-! ### Malformed messages -/

/-- No entry, limit or overlay statistic differs. -/
structure Unchanged (c c' : OverlayCtrl) : Prop where
  entries : ∀ f, c'.getOverlayEntry f = c.getOverlayEntry f
  limits : ∀ p q, (c'.ports p).limiter.limit q = (c.ports p).limiter.limit q
  packets : ∀ p q, (c'.ports p).overlayPackets q = (c.ports p).overlayPackets q
  durations : ∀ p q, (c'.ports p).overlayDuration q = (c.ports p).overlayDuration q

/-- A counter differs from its value before it was increased, also where it wraps. -/
theorem wadd_one_ne (n : ℕ) : wadd 64 n 1 ≠ n := by
  intro heq
  have hlt : n < 2 ^ 64 := by
    rw [← heq]
    exact wadd_lt n 1
  by_cases hmax : n + 1 < 2 ^ 64
  · rw [wadd_of_lt hmax] at heq
    omega
  · have hn : n + 1 = 2 ^ 64 := by omega
    unfold wadd at heq
    rw [hn, Nat.mod_self] at heq
    omega

/-- **A message with a malformed address has no effect exactly when what the local variable
happens to hold does not name a booked flow.** -/
theorem malformed_ignored_iff (hm : (extractInto m flow).2 = false) :
    Unchanged c (c.applyOverlayMessage m now flow) ↔ c.getOverlayEntry flow = none := by
  have hmal : extractFlow m = none := by
    cases hf : extractFlow m with
    | none => rfl
    | some f =>
      rw [extractInto_of_extractFlow hf] at hm
      cases hm
  have hkey := (extractInto_of_malformed hmal flow).2
  constructor
  · intro hsame
    cases hentry : c.getOverlayEntry flow with
    | none => rfl
    | some entry =>
      have hlook : c.flowBook.lookup (extractInto m flow).1.toFlowTuple = some entry := by
        rw [hkey]
        exact hentry
      have hcount := hsame.packets entry.port (.inc, entry.qid)
      rw [ports_applyOverlayMessage hlook, Function.update_self] at hcount
      simp only [applyToPort, Function.update_self] at hcount
      exact absurd hcount (wadd_one_ne _)
  · intro hnone
    rw [getOverlayEntry, ← hkey] at hnone
    rw [applyOverlayMessage_of_none hnone]
    exact ⟨fun _ => rfl, fun _ _ => rfl, fun _ _ => rfl, fun _ _ => rfl⟩

/-- A message whose addresses are empty texts. -/
def malformedMsg : Overlay := ⟨0, 0, 0, 0, [], [], 0, 0, 1000, 5⟩

/-- The variable names a flow that is not booked. -/
theorem malformed_ignored_not_booked :
    (extractInto malformedMsg ⟨⟨1, 2, 3, 4, 17⟩, 0, 0⟩).2 = false ∧
    Unchanged oneBooked
      (oneBooked.applyOverlayMessage malformedMsg 10 ⟨⟨1, 2, 3, 4, 17⟩, 0, 0⟩) := by
  have hm : (extractInto malformedMsg ⟨⟨1, 2, 3, 4, 17⟩, 0, 0⟩).2 = false := by decide +kernel
  exact ⟨hm, (malformed_ignored_iff hm).2 (by decide +kernel)⟩

/-- The variable happens to name the booked flow, which is paused. -/
theorem malformed_applied :
    (extractInto malformedMsg default).2 = false ∧
    ((oneBooked.applyOverlayMessage malformedMsg 10 default).getOverlayEntry default).map
        OverlayEntry.pauseUntilTs = some 15 ∧
    ¬Unchanged oneBooked (oneBooked.applyOverlayMessage malformedMsg 10 default) := by
  have hpause : ((oneBooked.applyOverlayMessage malformedMsg 10 default).getOverlayEntry
      default).map OverlayEntry.pauseUntilTs = some 15 := by
    decide +kernel
  refine ⟨by decide +kernel, hpause, fun hsame => ?_⟩
  rw [hsame.entries, getOverlayEntry_oneBooked] at hpause
  exact absurd hpause (by decide)

end OverlayCtrl

end Backdraft

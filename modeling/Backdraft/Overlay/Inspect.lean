import Backdraft.Core
import Backdraft.Packet.Model

/-!
# Overlay messages and their inspection

A `BPQOut` that is overloaded, or no longer is, tells the sender of its packets by a message: the
headers of one of the packets with the two ends exchanged and a word in the options of the IP
header (`FillBkdrftHeader`).  On its way back the message meets an `OInspect`, which takes it out of
the traffic and calls the broker of the overlay for its destination address.

* `fillBkdrftHeader` and the packets it writes (`isOverlayMsg_iff_written`);
* `OInspect.processBatch`, the loop over a batch, and what it does to each kind of packet
  (`OInspect.processBatch_eq`);
* `OInspect.processBatch_written`: the messages written for some packets are taken out, with one
  call of the broker for each;
* `OInspect.separates_iff`: it separates the messages from the traffic of a batch just when no
  other packet of the batch has an IP header of six words, and a broker is set for them.

The bytes of a packet are those from `head_data` on, with the IP header at distance 14.
-/

namespace Backdraft

open Bytes

/-- The option word of a message: `765` for an overload, `764` for its end. -/
def overlayCode (isOver : Bool) : ℕ := if isOver then 765 else 764

/-- `FillBkdrftHeader`; its parameter `over` is `isOver` here. -/
def fillBkdrftHeader (src : Mbuf) (isOver : Bool) : Mbuf :=
  let eth := 0
  let ip := eth + 14
  let tmp := src.head.load eth 6
  let src := src.put eth (src.head.load (eth + 6) 6)
  let src := src.put (eth + 6) tmp
  -- `header_length` is the low half of its byte
  let src := src.put ip [UInt8.ofNat ((src.head ip).toNat / 16 * 16 + 6)]
  let tmpIpAddr := src.head.load (ip + 16) 4
  let src := src.put (ip + 16) (src.head.load (ip + 12) 4)
  let src := src.put (ip + 12) tmpIpAddr
  src.put (ip + 20) (toBE 4 (overlayCode isOver))

/-- `ip->header_length`, in words. -/
def ipHeaderWords (h : Mem) : ℕ := (h 14).toNat % 16

/-- `ip->src`. -/
def ipSrc (h : Mem) : ℕ := ofBE (h.load (14 + 12) 4)

/-- `ip->dst`. -/
def ipDst (h : Mem) : ℕ := ofBE (h.load (14 + 16) 4)

/-- The first word after the fixed part of the IP header. -/
def ipOptions (h : Mem) : ℕ := ofBE (h.load (14 + 20) 4)

/-- The packet is an overlay message: six words of IP header, and one of the two option words. -/
def IsOverlayMsg (h : Mem) : Prop := ipHeaderWords h = 6 ∧ (ipOptions h = 764 ∨ ipOptions h = 765)

instance : DecidablePred IsOverlayMsg := fun h =>
  inferInstanceAs (Decidable (ipHeaderWords h = 6 ∧ (ipOptions h = 764 ∨ ipOptions h = 765)))

/-! ### The messages that are written -/

variable {h : Mem} {isOver : Bool}

theorem head_fillBkdrftHeader (src : Mbuf) (isOver : Bool) :
    (fillBkdrftHeader src isOver).head =
      (((((src.head.store 0 (src.head.load 6 6)).store 6 (src.head.load 0 6)).store 14
        [UInt8.ofNat ((src.head 14).toNat / 16 * 16 + 6)]).store 30
        (src.head.load 26 4)).store 26 (src.head.load 30 4)).store 34
        (toBE 4 (overlayCode isOver)) := by
  simp [fillBkdrftHeader, Mem.load_store_of_disjoint, Mem.store_of_disjoint]

theorem ipHeaderWords_fillBkdrftHeader (src : Mbuf) (isOver : Bool) :
    ipHeaderWords (fillBkdrftHeader src isOver).head = 6 := by
  have hbyte := (src.head 14).toNat_lt
  rw [ipHeaderWords, head_fillBkdrftHeader, Mem.store_of_disjoint (by simp),
    Mem.store_of_disjoint (by simp), Mem.store_of_disjoint (by simp), Mem.store_singleton,
    UInt8.toNat_ofNat']
  omega

theorem ipOptions_fillBkdrftHeader (src : Mbuf) (isOver : Bool) :
    ipOptions (fillBkdrftHeader src isOver).head = overlayCode isOver := by
  rw [ipOptions, head_fillBkdrftHeader, Mem.load_store_of_length length_toBE]
  exact ofBE_toBE_of_lt (by cases isOver <;> decide)

/-- A message goes to where the packet came from. -/
theorem ipDst_fillBkdrftHeader (src : Mbuf) (isOver : Bool) :
    ipDst (fillBkdrftHeader src isOver).head = ipSrc src.head := by
  rw [ipDst, ipSrc, head_fillBkdrftHeader, Mem.load_store_of_disjoint (by simp),
    Mem.load_store_of_disjoint (by simp), Mem.load_store_of_length Mem.length_load]

theorem isOverlayMsg_fillBkdrftHeader (src : Mbuf) (isOver : Bool) :
    IsOverlayMsg (fillBkdrftHeader src isOver).head := by
  refine ⟨ipHeaderWords_fillBkdrftHeader src isOver, ?_⟩
  rw [ipOptions_fillBkdrftHeader]
  cases isOver
  · exact .inl rfl
  · exact .inr rfl

/-- Written over a message of the same kind, the header is back after two times. -/
theorem head_fillBkdrftHeader_twice {src : Mbuf} (hwords : ipHeaderWords src.head = 6)
    (hoptions : ipOptions src.head = overlayCode isOver) :
    (fillBkdrftHeader (fillBkdrftHeader src isOver) isOver).head = src.head := by
  have hbyte : UInt8.ofNat ((src.head 14).toNat / 16 * 16 + 6) = src.head 14 := by
    rw [ipHeaderWords] at hwords
    refine UInt8.toNat_inj.1 ?_
    rw [UInt8.toNat_ofNat']
    have := (src.head 14).toNat_lt
    omega
  have hword : toBE 4 (overlayCode isOver) = src.head.load 34 4 := by
    rw [← hoptions, ipOptions, toBE_ofBE Mem.length_load]
  -- what is stored are bytes of the packet itself, so each byte can be followed
  have hone : [src.head 14] = src.head.load 14 1 := rfl
  have hsame : (fillBkdrftHeader src isOver).head 14 = src.head 14 := by
    rw [head_fillBkdrftHeader, hbyte, hword, hone]
    simp [Mem.store_load_apply]
  rw [head_fillBkdrftHeader (fillBkdrftHeader src isOver), hsame, hbyte, hword, hone,
    head_fillBkdrftHeader src, hbyte, hword, hone]
  funext x
  simp only [Mem.store_load_apply]
  grind

/-- The overlay messages are the packets that `FillBkdrftHeader` writes. -/
theorem isOverlayMsg_iff_written {p : Mbuf} :
    IsOverlayMsg p.head ↔ ∃ src isOver, (fillBkdrftHeader src isOver).head = p.head := by
  constructor
  · rintro ⟨hwords, hunder | hover⟩
    · exact ⟨fillBkdrftHeader p false, false, head_fillBkdrftHeader_twice hwords hunder⟩
    · exact ⟨fillBkdrftHeader p true, true, head_fillBkdrftHeader_twice hwords hover⟩
  · rintro ⟨src, isOver, hp⟩
    rw [← hp]
    exact isOverlayMsg_fillBkdrftHeader src isOver

/-! ### The inspection of a batch -/

/-- The state of an `OInspect`; the broker is missing until a command sets it. -/
structure OInspect (β : Type*) where
  overlayBroker : Option β

/-- What the loop over a batch has done: the packets for the next module, those it has freed, and
the calls of the broker with address and kind. -/
structure Inspected (α : Type*) where
  alternateBatch : List α
  freed : List α
  brokerCalls : List (ℕ × Bool)
  deriving DecidableEq

namespace OInspect

variable {α β : Type*}

/-- The constructor. -/
def init : OInspect β := ⟨none⟩

/-- `CommandSetOverlayBroker`. -/
def setOverlayBroker (allBrokers : String → Option β) (overlayBrokerMod : String) :
    Except CommandError (OInspect β) :=
  match allBrokers overlayBrokerMod with
  | some broker => .ok ⟨some broker⟩
  | none => .error ⟨404, "didn't find the module"⟩

/-- `overlay_broker_->broker(addr, over)`, which needs a broker. -/
def callBroker (m : OInspect β) (done : Inspected α) (addr : ℕ) (isOver : Bool) :
    Option (Inspected α) :=
  m.overlayBroker.map fun _ => { done with brokerCalls := done.brokerCalls ++ [(addr, isOver)] }

/-- The body of the loop of `ProcessBatch`; `none` is a call through the null pointer. -/
def inspect (m : OInspect β) (bytes : α → Mem) (done : Inspected α) (pkt : α) :
    Option (Inspected α) := do
  let h := bytes pkt
  if ipHeaderWords h = 6 then
    let done ←
      if ipOptions h = 765 then m.callBroker done (ipDst h) true
      else if ipOptions h = 764 then m.callBroker done (ipDst h) false
      else some done
    -- the packet is freed whichever its option word is
    some { done with freed := done.freed ++ [pkt] }
  else some { done with alternateBatch := done.alternateBatch ++ [pkt] }

/-- `ProcessBatch`, on packets with the given bytes. -/
def processBatch (m : OInspect β) (bytes : α → Mem) (batch : List α) : Option (Inspected α) :=
  batch.foldlM (m.inspect bytes) ⟨[], [], []⟩

/-- The call that a message asks for: its destination address and its kind. -/
def callOf (h : Mem) : ℕ × Bool := (ipDst h, decide (ipOptions h = 765))

variable {m : OInspect β} {bytes : α → Mem} {done : Inspected α} {pkt : α} {batch : List α}

theorem inspect_of_isOverlayMsg (h : IsOverlayMsg (bytes pkt)) :
    m.inspect bytes done pkt = m.overlayBroker.map fun _ =>
      { done with
        freed := done.freed ++ [pkt]
        brokerCalls := done.brokerCalls ++ [callOf (bytes pkt)] } := by
  obtain ⟨hwords, hunder | hover⟩ := h
  · cases hb : m.overlayBroker <;> simp [inspect, hwords, hunder, callBroker, hb, callOf]
  · cases hb : m.overlayBroker <;> simp [inspect, hwords, hover, callBroker, hb, callOf]

/-- A packet with another option of one word is freed like a message. -/
theorem inspect_of_other_option (hwords : ipHeaderWords (bytes pkt) = 6)
    (h : ¬IsOverlayMsg (bytes pkt)) :
    m.inspect bytes done pkt = some { done with freed := done.freed ++ [pkt] } := by
  have hoptions : ¬(ipOptions (bytes pkt) = 764 ∨ ipOptions (bytes pkt) = 765) :=
    fun ho => h ⟨hwords, ho⟩
  rw [not_or] at hoptions
  simp [inspect, hwords, hoptions]

theorem inspect_of_plain (hwords : ipHeaderWords (bytes pkt) ≠ 6) :
    m.inspect bytes done pkt =
      some { done with alternateBatch := done.alternateBatch ++ [pkt] } := by
  simp [inspect, hwords]

/-- The loop goes by the length of the IP header, and calls the broker for the messages. -/
theorem processBatch_eq
    (hbroker : ∀ pkt ∈ batch, IsOverlayMsg (bytes pkt) → m.overlayBroker.isSome) :
    m.processBatch bytes batch = some
      { alternateBatch := batch.filter fun pkt => ipHeaderWords (bytes pkt) ≠ 6
        freed := batch.filter fun pkt => ipHeaderWords (bytes pkt) = 6
        brokerCalls := (batch.filter fun pkt => IsOverlayMsg (bytes pkt)).map
          fun pkt => callOf (bytes pkt) } := by
  induction batch using List.reverseRecOn with
  | nil => rfl
  | append_singleton batch pkt ih =>
    have ih := ih fun p hp => hbroker p (List.mem_append_left _ hp)
    rw [processBatch] at ih
    rw [processBatch, List.foldlM_append, ih, Option.bind_eq_bind, Option.bind_some,
      List.foldlM_cons]
    by_cases hwords : ipHeaderWords (bytes pkt) = 6
    · by_cases hmsg : IsOverlayMsg (bytes pkt)
      · obtain ⟨broker, hb⟩ := Option.isSome_iff_exists.1 (hbroker pkt (by simp) hmsg)
        simp [inspect_of_isOverlayMsg hmsg, hb, hwords, hmsg]
      · simp [inspect_of_other_option hwords hmsg, hwords, hmsg]
    · have hmsg : ¬IsOverlayMsg (bytes pkt) := fun h => hwords h.1
      simp [inspect_of_plain hwords, hwords, hmsg]

theorem callOf_fillBkdrftHeader (src : Mbuf) (isOver : Bool) :
    callOf (fillBkdrftHeader src isOver).head = (ipSrc src.head, isOver) := by
  rw [callOf, ipDst_fillBkdrftHeader, ipOptions_fillBkdrftHeader]
  cases isOver <;> rfl

/-- Of a batch of messages nothing goes on, and the broker is called for the sources of the packets
they were written for. -/
theorem processBatch_written (hbroker : m.overlayBroker.isSome) (msgs : List (Mbuf × Bool)) :
    m.processBatch (fun msg => (fillBkdrftHeader msg.1 msg.2).head) msgs =
      some ⟨[], msgs, msgs.map fun msg => (ipSrc msg.1.head, msg.2)⟩ := by
  rw [processBatch_eq fun _ _ _ => hbroker]
  simp [ipHeaderWords_fillBkdrftHeader, isOverlayMsg_fillBkdrftHeader, callOf_fillBkdrftHeader]

/-- Without a broker a message stops the switch. -/
theorem processBatch_eq_none (hbroker : m.overlayBroker = none) (hpkt : pkt ∈ batch)
    (hmsg : IsOverlayMsg (bytes pkt)) : m.processBatch bytes batch = none := by
  obtain ⟨before, after, rfl⟩ := List.append_of_mem hpkt
  rw [processBatch, List.foldlM_append]
  rcases hbefore : before.foldlM (m.inspect bytes) ⟨[], [], []⟩ with _ | done
  · rfl
  · simp [inspect_of_isOverlayMsg hmsg, hbroker]

/-- The messages of the batch are taken out, each with its call, and nothing else is. -/
structure Separates (bytes : α → Mem) (batch : List α) (done : Inspected α) : Prop where
  passed : done.alternateBatch = batch.filter fun pkt => ¬IsOverlayMsg (bytes pkt)
  freed : done.freed = batch.filter fun pkt => IsOverlayMsg (bytes pkt)
  calls : done.brokerCalls = (batch.filter fun pkt => IsOverlayMsg (bytes pkt)).map
    fun pkt => callOf (bytes pkt)

/-- A batch is separated if and only if every packet of it with six words of IP header is a message
and a broker is set for the messages there are. -/
theorem separates_iff (m : OInspect β) (bytes : α → Mem) (batch : List α) :
    (∃ done, m.processBatch bytes batch = some done ∧ Separates bytes batch done) ↔
      (∀ pkt ∈ batch, ipHeaderWords (bytes pkt) = 6 → IsOverlayMsg (bytes pkt)) ∧
        ∀ pkt ∈ batch, IsOverlayMsg (bytes pkt) → m.overlayBroker.isSome := by
  by_cases hbroker : ∀ pkt ∈ batch, IsOverlayMsg (bytes pkt) → m.overlayBroker.isSome
  · constructor
    · rintro ⟨done, hdone, hsep⟩
      refine ⟨fun pkt hpkt hwords => ?_, hbroker⟩
      rw [processBatch_eq hbroker, Option.some.injEq] at hdone
      have hfreed := hsep.freed
      rw [← hdone] at hfreed
      -- the packet is among the freed ones, so it has to be a message
      have hmem : pkt ∈ batch.filter fun pkt => IsOverlayMsg (bytes pkt) := by
        rw [← hfreed]
        simp [hpkt, hwords]
      simpa using (List.mem_filter.1 hmem).2
    · rintro ⟨hwords, -⟩
      have hiff : ∀ pkt ∈ batch, ipHeaderWords (bytes pkt) = 6 ↔ IsOverlayMsg (bytes pkt) :=
        fun pkt hpkt => ⟨hwords pkt hpkt, And.left⟩
      refine ⟨_, processBatch_eq hbroker, ?_, ?_, rfl⟩
      · exact List.filter_congr fun pkt hpkt => by simp [hiff pkt hpkt]
      · exact List.filter_congr fun pkt hpkt => by simp [hiff pkt hpkt]
  · have hnone : ¬∃ done, m.processBatch bytes batch = some done ∧ Separates bytes batch done := by
      rintro ⟨done, hdone, -⟩
      push Not at hbroker
      obtain ⟨pkt, hpkt, hmsg, hb⟩ := hbroker
      rw [processBatch_eq_none (by simpa using hb) hpkt hmsg] at hdone
      exact absurd hdone (by simp)
    simp only [hnone, hbroker, and_false]

/-- An IGMP report as hosts send it, in IPv4 with the option router alert. -/
def igmpReport : List UInt8 :=
  [0x01, 0x00, 0x5e, 0x00, 0x00, 0xfb, 0x02, 0x00, 0x00, 0x00, 0x00, 0x01, 0x08, 0x00,
    0x46, 0xc0, 0x00, 0x20, 0x00, 0x00, 0x40, 0x00, 0x01, 0x02, 0xf9, 0x1b,
    0x0a, 0x00, 0x00, 0x01, 0xe0, 0x00, 0x00, 0xfb, 0x94, 0x04, 0x00, 0x00,
    0x16, 0x00, 0x09, 0x04, 0xe0, 0x00, 0x00, 0xfb]

/-- The report is no message of the overlay, and it is lost with a broker set. -/
theorem router_alert_freed :
    (let bytes : Unit → Mem := fun _ i => igmpReport.getD i 0
     let m : OInspect Unit := ⟨some ()⟩
     ofBE ((bytes ()).load 12 2) = etherTypeIpv4 ∧ ((bytes ()) 14).toNat / 16 = 4 ∧
       ¬IsOverlayMsg (bytes ()) ∧ m.processBatch bytes [()] = some ⟨[], [()], []⟩ ∧
       ¬∃ done, m.processBatch bytes [()] = some done ∧ Separates bytes [()] done) := by
  have hmsg : ¬IsOverlayMsg fun i => igmpReport.getD i 0 := by decide
  have hrun : (⟨some ()⟩ : OInspect Unit).processBatch (fun _ i => igmpReport.getD i 0) [()] =
      some ⟨[], [()], []⟩ := by decide
  refine ⟨by decide, by decide, hmsg, hrun, ?_⟩
  rintro ⟨done, hdone, hsep⟩
  rw [hrun, Option.some.injEq] at hdone
  have hfreed := hsep.freed
  rw [← hdone] at hfreed
  exact absurd hfreed (by decide)

end OInspect

end Backdraft

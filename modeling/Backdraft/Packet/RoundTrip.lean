import Backdraft.Packet.Model

/-!
# Control messages between the two implementations

Both implementations build a control packet by writing the message 42 bytes after the start of the
packet and the headers before it.  The headers that a reader looks at are in `Framed`: each of the
two encoders establishes it, whatever the buffer held, and from it each of the two readers finds
the message.  So all four combinations return the queue and the count that were sent.

* `Bess.framed_preparePacket`, `Client.framed_preparePacket`: the headers of the encoders;
* `Framed.getPacketPayload_eq`, `Framed.getPayload_eq`: what the readers find;
* `ctrlMsg_roundTrip`: the round trip.
-/

namespace Backdraft

open Bytes Word Mem

/-- The headers of a packet with `size` bytes of payload, as far as a reader looks at them. -/
structure Framed (h : Mem) (size : ℕ) : Prop where
  etherType : h.load 12 2 = toBE 2 etherTypeIpv4
  headerLength : (h 14).toNat % 16 = 5
  protocol : h 23 = bkdrftProtoType
  length : h.load 38 2 = toBE 2 (8 + size)
  size_lt : 8 + size < 256 ^ 2

/-- A control message at the place where the readers look for it. -/
structure HoldsCtrl (h : Mem) (c : CdqPayload) : Prop where
  type : h 42 = bkdrftCtrlMsgType
  payload : cdqPayload h 42 = c

/-- A control packet with the message `c`. -/
structure IsCtrl (p : Mbuf) (c : CdqPayload) : Prop where
  framed : Framed p.head sizeofCdqPayload
  holds : HoldsCtrl p.head c

variable {h h' : Mem} {size : ℕ} {c : CdqPayload} {p : Mbuf}

/-! ### What the readers find -/

namespace Framed

theorem etherType_eq (hf : Framed h size) : ofBE (h.load 12 2) = etherTypeIpv4 := by
  rw [hf.etherType]
  exact ofBE_toBE_of_lt (by decide)

theorem length_eq (hf : Framed h size) : ofBE (h.load 38 2) = 8 + size := by
  rw [hf.length]
  exact ofBE_toBE_of_lt hf.size_lt

theorem getIpHeader_eq (hf : Framed h size) : Bess.getIpHeader h = some 14 := by
  simp only [Bess.getIpHeader, hf.etherType_eq]
  rfl

theorem getIpv4Header_eq (hf : Framed h size) : Client.getIpv4Header h = some 14 := by
  simp only [Client.getIpv4Header, hf.etherType_eq]
  rfl

theorem getPacketPayload_eq (hf : Framed h size) (onlyBkdrft : Bool) :
    Bess.getPacketPayload h onlyBkdrft = .ok (payloadOffset, size) := by
  simp [Bess.getPacketPayload, hf.getIpHeader_eq, hf.protocol, hf.headerLength, hf.length_eq,
    payloadOffset]

theorem getPayload_eq (hf : Framed h size) :
    Client.getPayload h = some (payloadOffset, size) := by
  have hihl : (h 14).toNat &&& 0x0f = 5 := by
    rw [← hf.headerLength]
    exact Nat.and_two_pow_sub_one_eq_mod (h 14).toNat 4
  have hsize : wsub 64 (8 + size) 8 = size := by
    have hlt := hf.size_lt
    rw [wsub_of_le (by omega) (by omega)]
    omega
  simp [Client.getPayload, hf.getIpv4Header_eq, Client.getUdpHeader, hf.protocol, hihl,
    hf.length_eq, hsize, payloadOffset]

end Framed

/-- A control message is in the bytes from the payload on. -/
theorem HoldsCtrl.congr (hc : HoldsCtrl h c) (heq : ∀ x, 42 ≤ x → h' x = h x) :
    HoldsCtrl h' c where
  type := by rw [heq 42 le_rfl, hc.type]
  payload := by
    have hload : ∀ a n, 42 ≤ a → h'.load a n = h.load a n :=
      fun a n ha => load_congr fun x hx _ => heq x (by omega)
    rw [← hc.payload]
    simp [cdqPayload, hload]

/-! ### What the encoders write -/

/-- A number that is written is cut to the width of its field. -/
theorem holdsCtrl_putCdqPayload (p : Mbuf) (c : CdqPayload) :
    HoldsCtrl (p.putCdqPayload 42 bkdrftCtrlMsgType c).head
      ⟨c.qid % 2 ^ 16, c.prio % 2 ^ 16, c.nbPkts % 2 ^ 32⟩ where
  type := by
    simp (disch := simp) only [Mbuf.putCdqPayload, Mbuf.head_put, store_of_lt, store_singleton]
  payload := by
    simp (disch := simp) [Mbuf.putCdqPayload, cdqPayload, load_store_of_disjoint,
      load_store_of_length, ofLE_toLE]

namespace Bess

variable {flow : Flow}

theorem framed_preparePacket (payload : List UInt8) (hsize : 8 + size < 256 ^ 2) :
    Framed (preparePacket p payload size flow).head size where
  etherType := by
    simp (disch := simp) only [preparePacket, Mbuf.head_setLen, Mbuf.head_put,
      load_store_of_disjoint, load_store_of_length]
  headerLength := by
    simp (disch := simp) only [preparePacket, Mbuf.head_setLen, Mbuf.head_put, store_of_disjoint,
      store_singleton]
    rw [UInt8.toNat_ofNat']
    omega
  protocol := by
    simp (disch := simp) only [preparePacket, Mbuf.head_setLen, Mbuf.head_put, store_of_disjoint,
      store_singleton]
  length := by
    simp (disch := simp) only [preparePacket, Mbuf.head_setLen, Mbuf.head_put,
      load_store_of_disjoint, load_store_of_length]
  size_lt := hsize

/-- The payload is what the buffer held at its place before. -/
theorem head_preparePacket (payload : List UInt8) (x : ℕ) (hx : 42 ≤ x) :
    (preparePacket p payload size flow).head x = (p.setDataOff snbufHeadroom).head x := by
  simp (disch := simp; omega) only [preparePacket, Mbuf.head_setLen, Mbuf.head_put, store_of_le]

/-- The packet carries the message that the batch of control packets is said to carry. -/
theorem isCtrl_prepareCtrlPacket {nbPkts : ℕ} (hn : nbPkts < 2 ^ 32) (p : Mbuf) (qid prio : ℕ)
    (flow : Flow) :
    IsCtrl (prepareCtrlPacket p qid prio nbPkts flow)
      (CtrlBatch.prepareCtrlPacket qid prio nbPkts) := by
  have hpayload := holdsCtrl_putCdqPayload (p.setDataOff snbufHeadroom)
    ⟨qid % 2 ^ 8, prio, nbPkts⟩
  have hqid : qid % 2 ^ 8 % 2 ^ 16 = qid % 2 ^ 8 := by omega
  simp only [hqid, Nat.mod_eq_of_lt hn] at hpayload
  exact ⟨framed_preparePacket [] (by decide), hpayload.congr (head_preparePacket [])⟩

end Bess

namespace Client

variable {samplePkt : Option Mbuf} {q : Mbuf}

@[simp] theorem length_sampleAddrs_fst (s : Mem) : (sampleAddrs s).1.length = 4 := by
  unfold sampleAddrs
  split <;> simp

@[simp] theorem length_sampleAddrs_snd (s : Mem) : (sampleAddrs s).2.length = 4 := by
  unfold sampleAddrs
  split <;> simp

@[simp] theorem length_samplePorts_fst (s : Mem) : (samplePorts s).1.length = 2 := by
  unfold samplePorts
  split <;> simp

@[simp] theorem length_samplePorts_snd (s : Mem) : (samplePorts s).2.length = 2 := by
  unfold samplePorts
  split <;> simp

/-- Without a payload to copy, the packet has the headers, whatever the sample is. -/
theorem framed_preparePacket (hsize : 8 + size < 256 ^ 2)
    (hok : preparePacket p none samplePkt size = .ok q) : Framed q.head size := by
  obtain _ | sample := samplePkt
  · cases hok
  simp only [preparePacket, Except.ok.injEq] at hok
  subst hok
  constructor
  case etherType =>
    simp (disch := simp) only [Mbuf.head_setLen, Mbuf.head_setHeaderLen, Mbuf.head_put,
      load_store_of_disjoint, load_store_of_length]
  case headerLength =>
    simp (disch := simp) only [Mbuf.head_setLen, Mbuf.head_setHeaderLen, Mbuf.head_put,
      store_of_disjoint, store_singleton]
    rfl
  case protocol =>
    simp (disch := simp) only [Mbuf.head_setLen, Mbuf.head_setHeaderLen, Mbuf.head_put,
      store_of_disjoint, store_singleton]
  case length =>
    simp (disch := simp) only [Mbuf.head_setLen, Mbuf.head_setHeaderLen, Mbuf.head_put,
      load_store_of_disjoint, load_store_of_length]
  case size_lt => exact hsize

theorem head_preparePacket (hok : preparePacket p none samplePkt size = .ok q) (x : ℕ)
    (hx : 42 ≤ x) : q.head x = p.head x := by
  obtain _ | sample := samplePkt
  · cases hok
  simp only [preparePacket, Except.ok.injEq] at hok
  subst hok
  simp (disch := simp; omega) only [Mbuf.head_setLen, Mbuf.head_setHeaderLen, Mbuf.head_put,
    store_of_le]

/-- Every sample is accepted. -/
theorem exists_ctrlPacket (p : Mbuf) (qid nbPkts : ℕ) (sample : Mbuf) :
    ∃ q, ctrlPacket p qid nbPkts (some sample) = .ok q :=
  ⟨_, rfl⟩

theorem isCtrl_ctrlPacket {qid nbPkts : ℕ} (hq : qid < 2 ^ 16) (hn : nbPkts < 2 ^ 32)
    (hok : ctrlPacket p qid nbPkts samplePkt = .ok q) : IsCtrl q ⟨qid, 0, nbPkts⟩ := by
  have hpayload := holdsCtrl_putCdqPayload p ⟨qid, 0, nbPkts⟩
  simp only [Nat.mod_eq_of_lt hq, Nat.mod_eq_of_lt hn, Nat.zero_mod] at hpayload
  exact ⟨framed_preparePacket (by decide) hok, hpayload.congr (head_preparePacket hok)⟩

end Client

/-! ### The round trip -/

namespace IsCtrl

/-- `CDQ` takes the message as it is. -/
theorem bess_ctrlMsg (hp : IsCtrl p c) (parseFromArray : List UInt8 → Option Bess.Overlay) :
    Bess.ctrlMsg parseFromArray p = some (c.qid, c.nbPkts) := by
  have hparse : Bess.parseBkdrftMsg parseFromArray p = some (.ctrl 42) := by
    simp only [Bess.parseBkdrftMsg, hp.framed.getPacketPayload_eq, payloadOffset, Nat.reduceAdd,
      hp.holds.type]
    rfl
  rw [Bess.ctrlMsg, hparse]
  simp only [hp.holds.payload]

/-- The client takes the low bits of the message. -/
theorem client_ctrlMsg (hp : IsCtrl p c) :
    Client.ctrlMsg p = some (c.qid % 2 ^ 8, c.nbPkts % 2 ^ 16) := by
  simp only [Client.ctrlMsg, hp.framed.getPayload_eq, payloadOffset, Nat.reduceAdd,
    hp.holds.type, hp.holds.payload, if_true]

end IsCtrl

/-- **A control message for a queue `q ≤ 255` with a count `n < 2 ^ 16` is read as it was sent by
both implementations, whichever of them has built the packet.** -/
theorem ctrlMsg_roundTrip {qid nbPkts : ℕ} (hq : qid ≤ 255) (hn : nbPkts < 2 ^ 16)
    (parseFromArray : List UInt8 → Option Bess.Overlay) :
    (∀ (p : Mbuf) (prio : ℕ) (flow : Flow),
      Bess.ctrlMsg parseFromArray (Bess.prepareCtrlPacket p qid prio nbPkts flow) =
          some (qid, nbPkts) ∧
        Client.ctrlMsg (Bess.prepareCtrlPacket p qid prio nbPkts flow) = some (qid, nbPkts)) ∧
    (∀ (p : Mbuf) (samplePkt : Option Mbuf) (q : Mbuf),
      Client.ctrlPacket p qid nbPkts samplePkt = .ok q →
        Bess.ctrlMsg parseFromArray q = some (qid, nbPkts) ∧
          Client.ctrlMsg q = some (qid, nbPkts)) := by
  have hq' : qid % 2 ^ 8 = qid := Nat.mod_eq_of_lt (by omega)
  have hn' : nbPkts % 2 ^ 16 = nbPkts := Nat.mod_eq_of_lt hn
  constructor
  · intro p prio flow
    have hp := Bess.isCtrl_prepareCtrlPacket (by omega : nbPkts < 2 ^ 32) p qid prio flow
    rw [hp.bess_ctrlMsg, hp.client_ctrlMsg]
    simp only [CtrlBatch.prepareCtrlPacket, hq', hn', and_self]
  · intro p samplePkt q hok
    have hp := Client.isCtrl_ctrlPacket (by omega) (by omega) hok
    rw [hp.bess_ctrlMsg, hp.client_ctrlMsg, hq', hn']
    exact ⟨rfl, rfl⟩

/-- The message of 7 packets in queue 3, in a buffer and with a sample full of ones. -/
theorem ctrlMsg_roundTrip_queue_three :
    (3 ≤ 255 ∧ 7 < 2 ^ 16) ∧
    Client.ctrlMsg (Bess.prepareCtrlPacket ⟨fun _ => 0xff, 64, 0, 0, 0, 0⟩ 3 1 7 default) =
      some (3, 7) ∧
    ∃ q, Client.ctrlPacket ⟨fun _ => 0xff, 64, 0, 0, 0, 0⟩ 3 7
        (some ⟨fun _ => 0xff, 128, 0, 0, 0, 0⟩) = .ok q ∧
      Bess.ctrlMsg (fun _ => none) q = some (3, 7) := by
  obtain ⟨hbess, hclient⟩ :=
    ctrlMsg_roundTrip (by decide : 3 ≤ 255) (by decide : 7 < 2 ^ 16) fun _ => none
  obtain ⟨q, hok⟩ := Client.exists_ctrlPacket ⟨fun _ => 0xff, 64, 0, 0, 0, 0⟩ 3 7
    ⟨fun _ => 0xff, 128, 0, 0, 0, 0⟩
  exact ⟨by decide, (hbess _ 1 default).2, q, hok, (hclient _ _ q hok).1⟩

end Backdraft

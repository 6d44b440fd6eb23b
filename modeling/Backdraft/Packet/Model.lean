import Backdraft.Lib.Bytes
import Backdraft.Lib.Word
import Backdraft.QueueOut.CtrlBatch
import Backdraft.QueueOut.FlowTable

/-!
# Control packets as bytes

The two implementations that build and read the packets of the doorbell queue: `bkdrft.cc` of the
switch (namespace `Bess`) and `packet.c` of the client library, with the reading of a message in
`poll_ctrl_queue_expose_qid` (namespace `Client`).

* `Mbuf`: the bytes of a packet buffer with the place where the packet starts;
* `Bess.preparePacket`, `Bess.prepareCtrlPacket`, `Bess.getPacketPayload`, `Bess.parseBkdrftMsg`;
* `Client.preparePacket`, `Client.createBkdraftCtrlMsg`, `Client.getPayload`, `Client.ctrlMsg`.

A pointer into a packet is its distance from the start of the packet, and a null pointer is `none`.
The machine is little endian, so the fields of the packed `struct cdq_payload` are, while those of
the headers are big endian.  Bytes that no statement sets keep what the buffer held before.
Packets are not null here, and the length fields of a buffer are set but never looked at by the
functions that read packets.
-/

namespace Backdraft

open Bytes Word

/-- A packet buffer, with the fields of `struct rte_mbuf` that are set with it. -/
structure Mbuf where
  buf : Mem
  dataOff : ℕ
  pktLen : ℕ
  dataLen : ℕ
  l2Len : ℕ
  l3Len : ℕ

namespace Mbuf

/-- The bytes from `head_data` (`rte_pktmbuf_mtod`) on. -/
def head (p : Mbuf) : Mem := p.buf.shift p.dataOff

/-- Write bytes at distance `i` from `head_data`. -/
def put (p : Mbuf) (i : ℕ) (l : List UInt8) : Mbuf :=
  { p with buf := p.buf.store (p.dataOff + i) l }

/-- `set_data_off`. -/
def setDataOff (p : Mbuf) (dataOff : ℕ) : Mbuf := { p with dataOff }

/-- Set the lengths of the packet and of its data. -/
def setLen (p : Mbuf) (pktLen dataLen : ℕ) : Mbuf := { p with pktLen, dataLen }

/-- Set the lengths of the headers. -/
def setHeaderLen (p : Mbuf) (l2Len l3Len : ℕ) : Mbuf := { p with l2Len, l3Len }

@[simp] theorem head_setLen (p : Mbuf) (pktLen dataLen : ℕ) :
    (p.setLen pktLen dataLen).head = p.head := rfl

@[simp] theorem head_setHeaderLen (p : Mbuf) (l2Len l3Len : ℕ) :
    (p.setHeaderLen l2Len l3Len).head = p.head := rfl

@[simp] theorem head_put (p : Mbuf) (i : ℕ) (l : List UInt8) :
    (p.put i l).head = p.head.store i l :=
  Mem.shift_store p.dataOff

end Mbuf

/-- `BKDRFT_PROTO_TYPE`. -/
def bkdrftProtoType : UInt8 := 253

/-- `BKDRFT_CTRL_MSG_TYPE`, the character `1`. -/
def bkdrftCtrlMsgType : UInt8 := 0x31

/-- `BKDRFT_OVERLAY_MSG_TYPE`, the character `2`. -/
def bkdrftOverlayMsgType : UInt8 := 0x32

/-- `BKDRFT_MAX_MESSAGE_SIZE`. -/
def bkdrftMaxMessageSize : ℕ := 128

/-- `Ethernet::Type::kIpv4`, `RTE_ETHER_TYPE_IPV4`. -/
def etherTypeIpv4 : ℕ := 0x0800

/-- `Ethernet::Type::kVlan`, `RTE_ETHER_TYPE_VLAN`. -/
def etherTypeVlan : ℕ := 0x8100

/-- `Ipv4::Proto::kUdp`, `IPPROTO_UDP`. -/
def protoUdp : UInt8 := 17

/-- `sizeof(struct cdq_payload)`. -/
def sizeofCdqPayload : ℕ := 9

/-- `sizeof(Ethernet) + sizeof(Ipv4) + sizeof(Udp)`. -/
def payloadOffset : ℕ := 14 + 20 + 8

/-- The fields of a `struct cdq_payload` at `a`, after its `type`. -/
def cdqPayload (h : Mem) (a : ℕ) : CdqPayload where
  qid := ofLE (h.load (a + 1) 2)
  prio := ofLE (h.load (a + 3) 2)
  nbPkts := ofLE (h.load (a + 5) 4)

/-- Set the fields of a `struct cdq_payload` at `a` in a packet. -/
def Mbuf.putCdqPayload (p : Mbuf) (a : ℕ) (type : UInt8) (c : CdqPayload) : Mbuf :=
  p |>.put a [type]
    |>.put (a + 1) (toLE 2 c.qid)
    |>.put (a + 3) (toLE 2 c.prio)
    |>.put (a + 5) (toLE 4 c.nbPkts)

/-! ### The switch -/

namespace Bess

/-- `SNBUF_HEADROOM`. -/
def snbufHeadroom : ℕ := 128

/-- `prepare_packet`.  The statement that copies the payload is commented out in the source. -/
def preparePacket (p : Mbuf) (_payload : List UInt8) (size : ℕ) (flow : Flow) : Mbuf :=
  let eth := 0
  let ip := eth + 14
  let udp := ip + 20
  let p := p.setDataOff snbufHeadroom
  let p := p
    |>.put eth (toBE 6 flow.ethDstAddr)
    |>.put (eth + 6) (toBE 6 flow.ethSrcAddr)
    |>.put (eth + 12) (toBE 2 etherTypeIpv4)
    |>.put (ip + 12) (toBE 4 flow.addrSrc)
    |>.put (ip + 16) (toBE 4 flow.addrDst)
    |>.put (ip + 9) [bkdrftProtoType]
  -- `header_length` is the low half of its byte; `version`, the other half, is not set
  let p := p.put ip [UInt8.ofNat ((p.head ip).toNat / 16 * 16 + 5)]
  p |>.put (ip + 10) (toLE 2 0)
    |>.put udp (toBE 2 flow.portSrc)
    |>.put (udp + 2) (toBE 2 flow.portDst)
    |>.put (udp + 4) (toBE 2 (8 + size))
    |>.put (udp + 6) (toLE 2 0)
    |>.setLen 256 256

/-- `prepare_ctrl_packet`; `qid` has 8 bits, and `prio` is cut to the 16 bits of its field. -/
def prepareCtrlPacket (p : Mbuf) (qid prio nbPkts : ℕ) (flow : Flow) : Mbuf :=
  let p := p.setDataOff snbufHeadroom
  let p := p.putCdqPayload payloadOffset bkdrftCtrlMsgType ⟨qid % 2 ^ 8, prio, nbPkts⟩
  preparePacket p [] sizeofCdqPayload flow

/-- `get_ip_header`. -/
def getIpHeader (h : Mem) : Option ℕ :=
  let etherType := ofBE (h.load 12 2)
  if etherType = etherTypeVlan then
    if ofBE (h.load (14 + 2) 2) = etherTypeIpv4 then some (14 + 4) else none
  else if etherType = etherTypeIpv4 then some 14
  else none

/-- `get_packet_payload`: the return code of a failure, or the payload and its size. -/
def getPacketPayload (h : Mem) (onlyBkdrft : Bool) : Except ℤ (ℕ × ℕ) :=
  match getIpHeader h with
  | none => .error (-2)
  | some ip =>
    let protocol := h (ip + 9)
    if onlyBkdrft ∧ protocol ≠ bkdrftProtoType then .error (-1)
    else if protocol = protoUdp ∨ protocol = bkdrftProtoType then
      let udp := ip + (h ip).toNat % 16 * 4
      let udpLen := ofBE (h.load (udp + 4) 2)
      if udpLen < 8 then .error (-3) else .ok (udp + 8, udpLen - 8)
    else .error (-4)

/-- `bess::pb::Overlay`. -/
structure Overlay where
  srcPort : ℕ
  dstPort : ℕ
  srcIp : ℕ
  dstIp : ℕ
  srcMac : List UInt8
  dstMac : List UInt8
  protocol : ℕ
  wndSize : ℕ
  packetPerSec : ℕ
  pauseDuration : ℕ
  deriving DecidableEq

/-- What `parse_bkdrft_msg` returns in `type` and `pb`. -/
inductive Msg
  /-- a control message, with the place of its `struct cdq_payload` -/
  | ctrl (msg : ℕ)
  | overlay (m : Overlay)
  deriving DecidableEq

/-- `parse_bkdrft_msg`, with `ParseFromArray` of overlay messages as an argument. -/
def parseBkdrftMsg (parseFromArray : List UInt8 → Option Overlay) (p : Mbuf) : Option Msg :=
  match getPacketPayload p.head true with
  | .error _ => none
  | .ok (msg, size) =>
    if bkdrftMaxMessageSize ≤ size then none
    else
      let firstByte := p.head msg
      if firstByte = bkdrftCtrlMsgType then some (.ctrl msg)
      else if firstByte = bkdrftOverlayMsgType then
        (parseFromArray (p.head.load (msg + 1) (size - 1))).map .overlay
      else none

/-- The queue and the count that `CDQ` takes from a packet, if it is a control message. -/
def ctrlMsg (parseFromArray : List UInt8 → Option Overlay) (p : Mbuf) : Option (ℕ × ℕ) :=
  match parseBkdrftMsg parseFromArray p with
  | some (.ctrl msg) => some ((cdqPayload p.head msg).qid, (cdqPayload p.head msg).nbPkts)
  | _ => none

end Bess

/-! ### The client library -/

namespace Client

/-- `get_ipv4_header`. -/
def getIpv4Header (h : Mem) : Option ℕ :=
  let etherType := ofBE (h.load 12 2)
  if etherType = etherTypeIpv4 then some 14
  else if etherType = etherTypeVlan then
    if ofBE (h.load (14 + 2) 2) = etherTypeIpv4 then some (14 + 4) else none
  else none

/-- `get_udp_header`. -/
def getUdpHeader (h : Mem) (ip : ℕ) : Option ℕ :=
  if h (ip + 9) = protoUdp ∨ h (ip + 9) = bkdrftProtoType then
    some (ip + ((h ip).toNat &&& 0x0f) * 4)
  else none

/-- `get_payload`: the payload and the size, which wraps around for a length below 8. -/
def getPayload (h : Mem) : Option (ℕ × ℕ) :=
  match getIpv4Header h with
  | none => none
  | some ip =>
    match getUdpHeader h ip with
    | none => none
    | some udp => some (udp + 8, wsub 64 (ofBE (h.load (udp + 4) 2)) 8)

/-- `BD_PKT_SIZE`. -/
def bdPktSize : ℕ := 128

/-- The addresses of the IPv4 header: those of the sample, or the default ones. -/
def sampleAddrs (s : Mem) : List UInt8 × List UInt8 :=
  match getIpv4Header s with
  | some ip => (s.load (ip + 12) 4, s.load (ip + 16) 4)
  | none => (toBE 4 (10 <<< 24 ||| 1), toBE 4 (10 <<< 24 ||| 2))

/-- The ports of the UDP header: those of the sample, or the default ones. -/
def samplePorts (s : Mem) : List UInt8 × List UInt8 :=
  match (getIpv4Header s).bind (getUdpHeader s) with
  | some udp => (s.load udp 2, s.load (udp + 2) 2)
  | none => (toBE 2 6500, toBE 2 6500)

/-- `prepare_packet`: the return code of a failure, or the packet. -/
def preparePacket (p : Mbuf) (payload : Option Mem) (samplePkt : Option Mbuf) (size : ℕ) :
    Except ℤ Mbuf :=
  match samplePkt with
  | none => .error (-1)
  | some sample =>
    let s := sample.head
    let eth := 0
    let ip := eth + 14
    let udp := ip + 20
    let p := p
      |>.put (eth + 6) (s.load 6 6)
      |>.put eth (s.load 0 6)
      |>.put (eth + 12) (toBE 2 etherTypeIpv4)
      |>.put ip [0x45]
      |>.put (ip + 1) [0x00]
      |>.put (ip + 2) (toBE 2 (20 + 8 + size))
      |>.put (ip + 4) (toLE 2 0)
      |>.put (ip + 6) (toLE 2 0)
      |>.put (ip + 8) [64]
      |>.put (ip + 9) [bkdrftProtoType]
      |>.put (ip + 10) (toLE 2 0)
      |>.put (ip + 12) (sampleAddrs s).1
      |>.put (ip + 16) (sampleAddrs s).2
      |>.put udp (samplePorts s).1
      |>.put (udp + 2) (samplePorts s).2
      |>.put (udp + 4) (toBE 2 (8 + size))
      |>.put (udp + 6) (toLE 2 0)
    let p :=
      match payload with
      | some payload => p.put (udp + 8) (payload.load 0 size)
      | none => p
    .ok ((p.setLen bdPktSize bdPktSize).setHeaderLen 14 20)

/-- `create_bkdraft_ctrl_msg`, when it is given the place `a` in a packet to write to: the packet
and the size of the message. -/
def createBkdraftCtrlMsg (p : Mbuf) (a qid nbPkts : ℕ) : Mbuf × ℕ :=
  (p.putCdqPayload a bkdrftCtrlMsgType ⟨qid, 0, nbPkts⟩, sizeofCdqPayload)

/-- A control packet as `send_pkt` and `vport_send_pkt` build it: the message, and then the
headers around it. -/
def ctrlPacket (p : Mbuf) (qid nbPkts : ℕ) (samplePkt : Option Mbuf) : Except ℤ Mbuf :=
  let (p, packedSize) := createBkdraftCtrlMsg p payloadOffset qid nbPkts
  preparePacket p none samplePkt packedSize

/-- The queue and the count that `poll_ctrl_queue_expose_qid` takes from a packet, if it is a
control message: `(uint8_t)ctrl_msg->qid` and `(uint16_t)ctrl_msg->nb_pkts`. -/
def ctrlMsg (p : Mbuf) : Option (ℕ × ℕ) :=
  match getPayload p.head with
  | none => none
  | some (msg, _) =>
    if p.head msg = bkdrftCtrlMsgType then
      let c := cdqPayload p.head msg
      some (c.qid % 2 ^ 8, c.nbPkts % 2 ^ 16)
    else none

end Client

/-! ### Announcements -/

/-- The number of packets of queue `q` that a packet announces to a reader that takes the queue and
the count of a control message by `decode`. -/
def announcedBy (decode : Mbuf → Option (ℕ × ℕ)) (q : ℕ) (p : Mbuf) : ℕ :=
  match decode p with
  | some (qid, nbPkts) => if qid = q then nbPkts else 0
  | none => 0

/-- The number of packets of queue `q` that packets announce. -/
def announcedIn (decode : Mbuf → Option (ℕ × ℕ)) (q : ℕ) (ps : List Mbuf) : ℕ :=
  (ps.map (announcedBy decode q)).sum

section Announcements

variable {decode : Mbuf → Option (ℕ × ℕ)} {q : ℕ}

@[simp] theorem announcedIn_nil : announcedIn decode q [] = 0 := rfl

@[simp] theorem announcedIn_cons (p : Mbuf) (ps : List Mbuf) :
    announcedIn decode q (p :: ps) = announcedBy decode q p + announcedIn decode q ps := by
  simp [announcedIn]

@[simp] theorem announcedIn_append (ps qs : List Mbuf) :
    announcedIn decode q (ps ++ qs) = announcedIn decode q ps + announcedIn decode q qs := by
  simp [announcedIn]

end Announcements

end Backdraft

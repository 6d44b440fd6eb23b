import Backdraft.Lib.Reading
import Backdraft.Packet.RoundTrip

/-!
# Which bytes the message parser reads

`parse_bkdrft_msg` follows the length fields of a packet and never looks at the length of the packet
itself.  Here `get_ip_header`, `get_packet_payload` and `parse_bkdrft_msg` are written as readings,
which record the places they look at, and these are compared with the packet's data.

* `Bess.readIpHeader`, `Bess.readPacketPayload`, `Bess.readBkdrftMsg`: the three functions; their
  results are those of the model (`run_readBkdrftMsg`);
* `Bess.HasIpAt`, `Bess.udpAt`, `Bess.udpLength`, `Bess.UdpPayload`: the fields of a packet that say
  where its payload is, and what a header announces;
* `Bess.StaysInside`: the parser reads only the packet's data, and what it hands out lies in the
  payload announced by the header and in the data;
* `Bess.LongEnough`: the data reaches as far as these fields make it necessary;
* `Bess.staysInside_prepareCtrlPacket`: it stays inside the control packets of the switch;
* `Bess.message_inside_iff`: it stays inside exactly if the packet is long enough.
-/

namespace Backdraft

open Bytes Bytes.Reading

namespace Bess

/-- `get_ip_header`. -/
def readIpHeader : Reading (Option ℕ) := do
  let etherType ← fetch 12 2
  if ofBE etherType = etherTypeVlan then
    let vlanEtherType ← fetch (14 + 2) 2
    if ofBE vlanEtherType = etherTypeIpv4 then pure (some (14 + 4)) else pure none
  else if ofBE etherType = etherTypeIpv4 then pure (some 14)
  else pure none

/-- `get_packet_payload`, after the IP header was found. -/
def readPayloadAt (onlyBkdrft : Bool) (ip : ℕ) : Reading (Except ℤ (ℕ × ℕ)) := do
  let protocol ← byte (ip + 9)
  if onlyBkdrft ∧ protocol ≠ bkdrftProtoType then pure (.error (-1))
  else if protocol = protoUdp ∨ protocol = bkdrftProtoType then
    let first ← byte ip
    let udp := ip + first.toNat % 16 * 4
    let udpLen ← fetch (udp + 4) 2
    if ofBE udpLen < 8 then pure (.error (-3)) else pure (.ok (udp + 8, ofBE udpLen - 8))
  else pure (.error (-4))

/-- `get_packet_payload`. -/
def readPacketPayload (onlyBkdrft : Bool) : Reading (Except ℤ (ℕ × ℕ)) := do
  match ← readIpHeader with
  | none => pure (.error (-2))
  | some ip => readPayloadAt onlyBkdrft ip

/-- `parse_bkdrft_msg`, after a payload was found. -/
def readMsgAt (parseFromArray : List UInt8 → Option Overlay) (msg size : ℕ) :
    Reading (Option Msg) := do
  if bkdrftMaxMessageSize ≤ size then pure none
  else
    let firstByte ← byte msg
    if firstByte = bkdrftCtrlMsgType then pure (some (.ctrl msg))
    else if firstByte = bkdrftOverlayMsgType then
      let body ← fetch (msg + 1) (size - 1)
      pure ((parseFromArray body).map .overlay)
    else pure none

/-- `parse_bkdrft_msg`. -/
def readBkdrftMsg (parseFromArray : List UInt8 → Option Overlay) : Reading (Option Msg) := do
  match ← readPacketPayload true with
  | .error _ => pure none
  | .ok (msg, size) => readMsgAt parseFromArray msg size

/-! ### The results are those of the model -/

theorem run_readIpHeader (h : Mem) : readIpHeader.run h = getIpHeader h := by
  simp only [readIpHeader, run_bind, run_ite]
  rfl

theorem run_readPacketPayload (h : Mem) (onlyBkdrft : Bool) :
    (readPacketPayload onlyBkdrft).run h = getPacketPayload h onlyBkdrft := by
  simp only [readPacketPayload, run_bind, run_readIpHeader, getPacketPayload]
  cases getIpHeader h with
  | none => rfl
  | some ip =>
    simp only [readPayloadAt, run_bind, run_ite]
    rfl

theorem run_readBkdrftMsg (parseFromArray : List UInt8 → Option Overlay) (p : Mbuf) :
    (readBkdrftMsg parseFromArray).run p.head = parseBkdrftMsg parseFromArray p := by
  simp only [readBkdrftMsg, run_bind, run_readPacketPayload, parseBkdrftMsg]
  cases getPacketPayload p.head true with
  | error e => rfl
  | ok payload =>
    simp only [readMsgAt, run_bind, run_ite]
    rfl

/-! ### The places they read -/

/-- The data that `get_ip_header` reads. -/
def ipHeaderLength (h : Mem) : ℕ := if ofBE (h.load 12 2) = etherTypeVlan then 18 else 14

/-- The data that `get_packet_payload` reads after an IP header at `ip`. -/
def payloadLength (h : Mem) (ip : ℕ) : ℕ :=
  if h (ip + 9) = bkdrftProtoType then max (ip + 10) (ip + (h ip).toNat % 16 * 4 + 6) else ip + 10

/-- The data that `parse_bkdrft_msg` reads for a payload of `size` bytes at `msg`. -/
def messageLength (h : Mem) (msg size : ℕ) : ℕ :=
  if bkdrftMaxMessageSize ≤ size then 0
  else if h msg = bkdrftOverlayMsgType then msg + max size 1
  else msg + 1

variable {h : Mem} {len : ℕ}

theorem within_readIpHeader : readIpHeader.Within h len ↔ ipHeaderLength h ≤ len := by
  simp only [readIpHeader, within_bind, within_ite, within_fetch, within_pure, ite_self, and_true,
    ipHeaderLength]
  change 12 + 2 ≤ len ∧ (if ofBE (h.load 12 2) = etherTypeVlan then 14 + 2 + 2 ≤ len else True) ↔ _
  split_ifs
  · omega
  · rw [and_true]

theorem within_readPayloadAt (ip : ℕ) :
    (readPayloadAt true ip).Within h len ↔ payloadLength h ip ≤ len := by
  simp only [readPayloadAt, within_bind, within_ite, within_fetch, within_byte, within_pure,
    ite_self, and_true, payloadLength]
  change ip + 9 + 1 ≤ len ∧ (if True ∧ h (ip + 9) ≠ bkdrftProtoType then True
    else if h (ip + 9) = protoUdp ∨ h (ip + 9) = bkdrftProtoType then
      ip + 1 ≤ len ∧ ip + (h ip).toNat % 16 * 4 + 4 + 2 ≤ len
    else True) ↔ _
  by_cases hproto : h (ip + 9) = bkdrftProtoType
  · rw [if_neg (fun hne => hne.2 hproto), if_pos (.inr hproto), if_pos hproto, max_le_iff]
    omega
  · rw [if_pos ⟨trivial, hproto⟩, if_neg hproto, and_true]

theorem within_readMsgAt (parseFromArray : List UInt8 → Option Overlay) (msg size : ℕ) :
    (readMsgAt parseFromArray msg size).Within h len ↔ messageLength h msg size ≤ len := by
  simp only [readMsgAt, within_bind, within_ite, within_fetch, within_byte, within_pure, and_true,
    messageLength]
  change (if bkdrftMaxMessageSize ≤ size then True else msg + 1 ≤ len ∧
    if h msg = bkdrftCtrlMsgType then True
    else if h msg = bkdrftOverlayMsgType then msg + 1 + (size - 1) ≤ len else True) ↔ _
  by_cases hsize : bkdrftMaxMessageSize ≤ size
  · simp [hsize]
  rw [if_neg hsize, if_neg hsize]
  by_cases hctrl : h msg = bkdrftCtrlMsgType
  · rw [if_pos hctrl, if_neg (by rw [hctrl]; decide), and_true]
  rw [if_neg hctrl]
  split_ifs
  · omega
  · rw [and_true]

theorem within_readBkdrftMsg (parseFromArray : List UInt8 → Option Overlay) :
    (readBkdrftMsg parseFromArray).Within h len ↔ ipHeaderLength h ≤ len ∧
      (∀ ip, getIpHeader h = some ip → payloadLength h ip ≤ len) ∧
      ∀ msg size, getPacketPayload h true = .ok (msg, size) → messageLength h msg size ≤ len := by
  simp only [readBkdrftMsg, readPacketPayload, within_bind, within_readIpHeader, run_readIpHeader]
  rw [← readPacketPayload, run_readPacketPayload, and_assoc]
  refine and_congr_right fun _ => and_congr ?_ ?_
  · cases getIpHeader h with
    | none => simp
    | some ip => simpa using within_readPayloadAt ip
  · cases getPacketPayload h true with
    | error e => simp
    | ok payload =>
      obtain ⟨msg, size⟩ := payload
      simpa using within_readMsgAt parseFromArray msg size

/-! ### The fields of a packet -/

/-- An IPv4 header stands at `ip`: after the Ethernet header, or after a VLAN tag. -/
def HasIpAt (h : Mem) (ip : ℕ) : Prop :=
  ofBE (h.load 12 2) = etherTypeIpv4 ∧ ip = 14 ∨
    ofBE (h.load 12 2) = etherTypeVlan ∧ ofBE (h.load 16 2) = etherTypeIpv4 ∧ ip = 18

/-- Where the UDP header is by the header length of the IPv4 header at `ip`. -/
def udpAt (h : Mem) (ip : ℕ) : ℕ := ip + (h ip).toNat % 16 * 4

/-- The length field of that UDP header. -/
def udpLength (h : Mem) (ip : ℕ) : ℕ := ofBE (h.load (udpAt h ip + 4) 2)

/-- The headers announce a UDP payload of `size` bytes at `msg`. -/
def UdpPayload (h : Mem) (msg size : ℕ) : Prop :=
  ∃ ip, HasIpAt h ip ∧ msg = udpAt h ip + 8 ∧ udpLength h ip = 8 + size

/-- A packet of this protocol whose announced payload is not too long for a message. -/
structure Announces (h : Mem) (ip : ℕ) : Prop where
  hasIp : HasIpAt h ip
  protocol : h (ip + 9) = bkdrftProtoType
  header : 8 ≤ udpLength h ip
  size : udpLength h ip < 8 + bkdrftMaxMessageSize

/-- Data of `len` bytes reaches as far as the fields of the packet make it necessary: to the end of
each field that decides the result, and for a message to the end of what its type asks for, which
must also be announced. -/
structure LongEnough (h : Mem) (len : ℕ) : Prop where
  ethernet : 14 ≤ len
  vlan : ofBE (h.load 12 2) = etherTypeVlan → 18 ≤ len
  ip : ∀ ip, HasIpAt h ip → ip + 10 ≤ len
  udp : ∀ ip, HasIpAt h ip → h (ip + 9) = bkdrftProtoType → udpAt h ip + 6 ≤ len
  type : ∀ ip, Announces h ip → udpAt h ip + 9 ≤ len
  ctrl : ∀ ip, Announces h ip → h (udpAt h ip + 8) = bkdrftCtrlMsgType →
    8 + sizeofCdqPayload ≤ udpLength h ip ∧ udpAt h ip + 8 + sizeofCdqPayload ≤ len
  overlay : ∀ ip, Announces h ip → h (udpAt h ip + 8) = bkdrftOverlayMsgType →
    9 ≤ udpLength h ip ∧ udpAt h ip + udpLength h ip ≤ len

theorem HasIpAt.unique {ip ip' : ℕ} (hip : HasIpAt h ip) (hip' : HasIpAt h ip') : ip = ip' := by
  have hne : etherTypeIpv4 ≠ etherTypeVlan := by decide
  rcases hip with ⟨h1, rfl⟩ | ⟨h1, -, rfl⟩ <;> rcases hip' with ⟨h2, rfl⟩ | ⟨h2, -, rfl⟩
  · rfl
  · exact absurd (h1.symm.trans h2) hne
  · exact absurd (h2.symm.trans h1) hne
  · rfl

theorem getIpHeader_eq_some_iff {ip : ℕ} : getIpHeader h = some ip ↔ HasIpAt h ip := by
  have hne : etherTypeIpv4 ≠ etherTypeVlan := by decide
  simp only [getIpHeader, HasIpAt]
  split_ifs with hvlan hip hip
  · simp [hvlan, hip, hne.symm, eq_comm]
  · simp [hvlan, hip, hne.symm]
  · simp [hip, hne, eq_comm]
  · simp [hvlan, hip]

theorem getPacketPayload_eq_ok_iff {msg size : ℕ} :
    getPacketPayload h true = .ok (msg, size) ↔ ∃ ip, HasIpAt h ip ∧
      h (ip + 9) = bkdrftProtoType ∧ msg = udpAt h ip + 8 ∧ udpLength h ip = 8 + size := by
  simp only [← getIpHeader_eq_some_iff, getPacketPayload]
  cases getIpHeader h with
  | none => simp
  | some ip =>
    simp only [Option.some.injEq, exists_eq_left']
    change (if True ∧ h (ip + 9) ≠ bkdrftProtoType then Except.error (-1)
      else if h (ip + 9) = protoUdp ∨ h (ip + 9) = bkdrftProtoType then
        if udpLength h ip < 8 then Except.error (-3)
        else Except.ok (udpAt h ip + 8, udpLength h ip - 8)
      else Except.error (-4)) = _ ↔ _
    by_cases hproto : h (ip + 9) = bkdrftProtoType
    · rw [if_neg (fun hne => hne.2 hproto), if_pos (.inr hproto)]
      split_ifs with hlen
      · simp only [hproto, true_and, false_iff]
        omega
      · simp only [Except.ok.injEq, Prod.mk.injEq, hproto, true_and]
        omega
    · rw [if_pos ⟨trivial, hproto⟩]
      simp [hproto]

/-- The payload of a packet that announces one. -/
theorem Announces.getPacketPayload_eq {ip : ℕ} (ha : Announces h ip) :
    getPacketPayload h true = .ok (udpAt h ip + 8, udpLength h ip - 8) ∧
      udpLength h ip - 8 < bkdrftMaxMessageSize := by
  have hheader := ha.header
  have hsize := ha.size
  refine ⟨getPacketPayload_eq_ok_iff.2 ⟨ip, ha.hasIp, ha.protocol, rfl, ?_⟩, ?_⟩ <;> omega

theorem UdpPayload.eq_of_hasIpAt {ip msg size : ℕ} (hu : UdpPayload h msg size)
    (hip : HasIpAt h ip) : msg = udpAt h ip + 8 ∧ udpLength h ip = 8 + size := by
  obtain ⟨ip', hip', hmsg, hlen⟩ := hu
  obtain rfl := hip.unique hip'
  exact ⟨hmsg, hlen⟩

/-! ### Staying inside -/

theorem parseBkdrftMsg_eq_ctrl_iff {parseFromArray : List UInt8 → Option Overlay} {p : Mbuf}
    {msg : ℕ} :
    parseBkdrftMsg parseFromArray p = some (.ctrl msg) ↔
      ∃ size, getPacketPayload p.head true = .ok (msg, size) ∧ size < bkdrftMaxMessageSize ∧
        p.head msg = bkdrftCtrlMsgType := by
  rw [parseBkdrftMsg]
  cases getPacketPayload p.head true with
  | error e => simp
  | ok payload =>
    obtain ⟨a, size⟩ := payload
    dsimp only
    split_ifs with hsize hctrl hoverlay
    · simp
      omega
    · simp only [Option.some.injEq, Msg.ctrl.injEq, Except.ok.injEq, Prod.mk.injEq]
      constructor
      · rintro rfl
        exact ⟨size, ⟨rfl, rfl⟩, by omega, hctrl⟩
      · rintro ⟨_, ⟨rfl, -⟩, -⟩
        rfl
    · simp only [Option.map_eq_some_iff, reduceCtorEq, and_false, exists_false, Except.ok.injEq,
        Prod.mk.injEq, false_iff, not_exists]
      rintro _ ⟨⟨rfl, -⟩, -, htype⟩
      exact hctrl htype
    · simp only [Except.ok.injEq, Prod.mk.injEq, false_iff, not_exists]
      rintro _ ⟨⟨rfl, -⟩, -, htype⟩
      exact hctrl htype

theorem parseBkdrftMsg_eq_overlay_iff {parseFromArray : List UInt8 → Option Overlay} {p : Mbuf}
    {m : Overlay} :
    parseBkdrftMsg parseFromArray p = some (.overlay m) ↔
      ∃ msg size, getPacketPayload p.head true = .ok (msg, size) ∧ size < bkdrftMaxMessageSize ∧
        p.head msg = bkdrftOverlayMsgType ∧
        parseFromArray (p.head.load (msg + 1) (size - 1)) = some m := by
  rw [parseBkdrftMsg]
  cases getPacketPayload p.head true with
  | error e => simp
  | ok payload =>
    obtain ⟨a, size⟩ := payload
    simp only [Except.ok.injEq, Prod.mk.injEq, exists_and_left, and_assoc, exists_eq_left']
    split_ifs with hsize hctrl hoverlay
    · simp
      omega
    · have hne : p.head a ≠ bkdrftOverlayMsgType := by
        rw [hctrl]
        decide
      simp [hne]
    · simp [Option.map_eq_some_iff, hoverlay]
      omega
    · simp [hoverlay]

/-- The parser stays inside the packet, whatever the protobuf parser does: it reads only the
packet's data; a `struct cdq_payload` that it hands out lies in the announced payload and in the
data; and for an overlay message the announced payload has a byte, lies in the data, and the bytes
after the first are what the protobuf parser gets. -/
structure StaysInside (p : Mbuf) : Prop where
  reads : ∀ parseFromArray, (readBkdrftMsg parseFromArray).Within p.head p.dataLen
  ctrl : ∀ parseFromArray msg, parseBkdrftMsg parseFromArray p = some (.ctrl msg) →
    ∃ size, UdpPayload p.head msg size ∧
      sizeofCdqPayload ≤ size ∧ msg + sizeofCdqPayload ≤ p.dataLen
  overlay : ∀ parseFromArray m, parseBkdrftMsg parseFromArray p = some (.overlay m) →
    ∃ msg size, UdpPayload p.head msg size ∧
      1 ≤ size ∧ msg + size ≤ p.dataLen ∧
      parseFromArray (p.head.load (msg + 1) (size - 1)) = some m

variable {p : Mbuf}

/-- What the parser takes for the payload is announced. -/
theorem announces_of_getPacketPayload {msg size : ℕ}
    (hpay : getPacketPayload h true = .ok (msg, size)) (hsize : size < bkdrftMaxMessageSize) :
    ∃ ip, Announces h ip ∧ msg = udpAt h ip + 8 ∧ udpLength h ip = 8 + size := by
  obtain ⟨ip, hip, hproto, hmsg, hlen⟩ := getPacketPayload_eq_ok_iff.1 hpay
  exact ⟨ip, ⟨hip, hproto, by omega, by omega⟩, hmsg, hlen⟩

/-- In data that is long enough all reads are inside. -/
theorem LongEnough.within (hl : LongEnough h len)
    (parseFromArray : List UInt8 → Option Overlay) :
    (readBkdrftMsg parseFromArray).Within h len := by
  rw [within_readBkdrftMsg]
  refine ⟨?_, fun ip hip => ?_, fun msg size hpay => ?_⟩
  · unfold ipHeaderLength
    split_ifs with hvlan
    exacts [hl.vlan hvlan, hl.ethernet]
  · rw [getIpHeader_eq_some_iff] at hip
    unfold payloadLength
    split_ifs with hproto
    · exact max_le (hl.ip ip hip) (hl.udp ip hip hproto)
    · exact hl.ip ip hip
  · unfold messageLength
    split_ifs with hsize htype
    · exact Nat.zero_le _
    · obtain ⟨ip, ha, rfl, hlen⟩ := announces_of_getPacketPayload hpay (Nat.lt_of_not_le hsize)
      have := hl.overlay ip ha htype
      omega
    · obtain ⟨ip, ha, rfl, -⟩ := announces_of_getPacketPayload hpay (Nat.lt_of_not_le hsize)
      exact hl.type ip ha

theorem LongEnough.staysInside (hl : LongEnough p.head p.dataLen) : StaysInside p where
  reads := hl.within
  ctrl parseFromArray msg hmsg := by
    obtain ⟨size, hpay, hsize, htype⟩ := parseBkdrftMsg_eq_ctrl_iff.1 hmsg
    obtain ⟨ip, ha, rfl, hlen⟩ := announces_of_getPacketPayload hpay hsize
    obtain ⟨hfits, hdata⟩ := hl.ctrl ip ha htype
    exact ⟨size, ⟨ip, ha.hasIp, rfl, hlen⟩, by omega, hdata⟩
  overlay parseFromArray m hm := by
    obtain ⟨msg, size, hpay, hsize, htype, hbody⟩ := parseBkdrftMsg_eq_overlay_iff.1 hm
    obtain ⟨ip, ha, rfl, hlen⟩ := announces_of_getPacketPayload hpay hsize
    obtain ⟨hfits, hdata⟩ := hl.overlay ip ha htype
    exact ⟨_, size, ⟨ip, ha.hasIp, rfl, hlen⟩, by omega, by omega, hbody⟩

theorem StaysInside.longEnough (hin : StaysInside p) : LongEnough p.head p.dataLen := by
  obtain ⟨heth, hpay, hmsg⟩ := (within_readBkdrftMsg fun _ => none).1 (hin.reads _)
  have hpay' : ∀ ip, HasIpAt p.head ip → payloadLength p.head ip ≤ p.dataLen :=
    fun ip hip => hpay ip (getIpHeader_eq_some_iff.2 hip)
  refine ⟨?_, fun hvlan => ?_, fun ip hip => ?_, fun ip hip hproto => ?_, fun ip ha => ?_,
    fun ip ha htype => ?_, fun ip ha htype => ?_⟩
  · unfold ipHeaderLength at heth
    split_ifs at heth <;> omega
  · rwa [ipHeaderLength, if_pos hvlan] at heth
  · have := hpay' ip hip
    unfold payloadLength at this
    split_ifs at this
    · exact (le_max_left _ _).trans this
    · exact this
  · have := hpay' ip hip
    rw [payloadLength, if_pos hproto] at this
    exact (le_max_right _ _).trans this
  · obtain ⟨hpay, hsize⟩ := ha.getPacketPayload_eq
    have hle := hmsg _ _ hpay
    rw [messageLength, if_neg (Nat.not_le.2 hsize)] at hle
    split_ifs at hle <;> omega
  · obtain ⟨hpay, hsize⟩ := ha.getPacketPayload_eq
    obtain ⟨size, hu, hfits, hdata⟩ := hin.ctrl (fun _ => none) _
      (parseBkdrftMsg_eq_ctrl_iff.2 ⟨_, hpay, hsize, htype⟩)
    have := (hu.eq_of_hasIpAt ha.hasIp).2
    exact ⟨by omega, hdata⟩
  · obtain ⟨hpay, hsize⟩ := ha.getPacketPayload_eq
    -- a protobuf parser that accepts everything
    let m : Overlay := ⟨0, 0, 0, 0, [], [], 0, 0, 0, 0⟩
    obtain ⟨msg, size, hu, hpos, hdata, -⟩ := hin.overlay (fun _ => some m) m
      (parseBkdrftMsg_eq_overlay_iff.2 ⟨_, _, hpay, hsize, htype, rfl⟩)
    obtain ⟨rfl, hlen⟩ := hu.eq_of_hasIpAt ha.hasIp
    exact ⟨by omega, by omega⟩

/-- A packet that stays inside is decided by its data. -/
theorem StaysInside.parseBkdrftMsg_eq {q : Mbuf} (hin : StaysInside p)
    (hsame : ∀ i < p.dataLen, p.head i = q.head i)
    (parseFromArray : List UInt8 → Option Overlay) :
    parseBkdrftMsg parseFromArray q = parseBkdrftMsg parseFromArray p := by
  rw [← run_readBkdrftMsg, ← run_readBkdrftMsg]
  exact run_eq_of_within (hin.reads parseFromArray) hsame

/-- **The control packets of the switch are parsed inside.** -/
theorem staysInside_prepareCtrlPacket (p : Mbuf) (qid prio : ℕ) {nbPkts : ℕ}
    (hn : nbPkts < 2 ^ 32) (flow : Flow) :
    StaysInside (prepareCtrlPacket p qid prio nbPkts flow) := by
  have hctrl := isCtrl_prepareCtrlPacket hn p qid prio flow
  have hlen : (prepareCtrlPacket p qid prio nbPkts flow).dataLen = 256 := rfl
  have hne : etherTypeIpv4 ≠ etherTypeVlan := by decide
  have hmsg : bkdrftCtrlMsgType ≠ bkdrftOverlayMsgType := by decide
  have htype := hctrl.holds.type
  have hip : ∀ ip, HasIpAt (prepareCtrlPacket p qid prio nbPkts flow).head ip → ip = 14 :=
    fun ip hip => hip.unique (.inl ⟨hctrl.framed.etherType_eq, rfl⟩)
  have hudp : udpAt (prepareCtrlPacket p qid prio nbPkts flow).head 14 = 34 := by
    rw [udpAt, hctrl.framed.headerLength]
  have hulen : udpLength (prepareCtrlPacket p qid prio nbPkts flow).head 14 =
      8 + sizeofCdqPayload := by
    rw [udpLength, hudp]
    exact hctrl.framed.length_eq
  apply LongEnough.staysInside
  rw [hlen]
  refine ⟨by omega, fun _ => by omega, fun ip h => ?_, fun ip h _ => ?_, fun ip h => ?_,
    fun ip h _ => ?_, fun ip h ho => ?_⟩
  · obtain rfl := hip ip h
    omega
  · obtain rfl := hip ip h
    omega
  all_goals obtain rfl := hip ip h.hasIp
  · omega
  · rw [hudp, hulen]
    exact ⟨le_rfl, by decide⟩
  · rw [hudp] at ho
    exact absurd (htype.symm.trans ho) hmsg

/-- **When the parser stays inside the packet**: exactly if the data reaches as far as the fields of
the packet make it necessary. -/
theorem message_inside_iff (p : Mbuf) : StaysInside p ↔ LongEnough p.head p.dataLen :=
  ⟨StaysInside.longEnough, LongEnough.staysInside⟩

/-- A packet of 43 bytes whose UDP header announces one byte of payload, of the type `type`. -/
def oneByteMsg (type : UInt8) : Mbuf where
  buf := Mem.store (fun _ => 0) 0
    (List.replicate 12 0 ++ [8, 0] ++ [0x45] ++ List.replicate 8 0 ++ [253] ++
      List.replicate 14 0 ++ [0, 9] ++ [0, 0] ++ [type])
  dataOff := 0
  pktLen := 43
  dataLen := 43
  l2Len := 14
  l3Len := 20

/-- The parser takes it for a control message and hands out a `struct cdq_payload` of nine bytes
that starts at the last byte of the packet.  And of a packet with less data than an Ethernet header
it reads bytes that are not there. -/
theorem ctrl_message_outside :
    getPacketPayload (oneByteMsg bkdrftCtrlMsgType).head true = .ok (42, 1) ∧
    parseBkdrftMsg (fun _ => none) (oneByteMsg bkdrftCtrlMsgType) = some (.ctrl 42) ∧
    (oneByteMsg bkdrftCtrlMsgType).dataLen < 42 + sizeofCdqPayload ∧
    ¬ StaysInside (oneByteMsg bkdrftCtrlMsgType) ∧
    ¬ (readBkdrftMsg fun _ => none).Within (oneByteMsg bkdrftCtrlMsgType).head 13 := by
  have hpay : getPacketPayload (oneByteMsg bkdrftCtrlMsgType).head true = .ok (42, 1) := by
    decide +kernel
  have hparse :
      parseBkdrftMsg (fun _ => none) (oneByteMsg bkdrftCtrlMsgType) = some (.ctrl 42) := by
    decide +kernel
  refine ⟨hpay, hparse, by decide, fun hin => ?_, fun hin => ?_⟩
  · obtain ⟨size, -, -, hdata⟩ := hin.ctrl _ _ hparse
    exact absurd hdata (by decide)
  · obtain ⟨heth, -⟩ := (within_readBkdrftMsg _).1 hin
    exact absurd heth (by decide +kernel)

end Bess

end Backdraft

import Backdraft.Lib.Protobuf
import Backdraft.Packet.MacAddr
import Backdraft.Packet.RoundTrip

/-!
# Overlay messages

`FillOverlayPacket` and `ExtractFlow` of `bkdrft_overlay_ctrl.cc`.  An overlay message names a flow
with a rate and a pause.  It is serialized and handed to `prepare_packet`, which writes the headers
and the length, but not the message.  So the receiver reads what the buffer held before.

* `OverlayCodec`: serialization of messages, of which only that it is inverted is assumed;
* `fillOverlayPacket`, `extractFlow`;
* `parse_fillOverlayPacket`: what is parsed is in the buffer before the call;
* `extractFlow_overlayMsg`: the message itself, with its printed addresses, gives the flow back;
* `overlay_roundTrip_iff`: a message arrives exactly when the buffer already held such a message.
-/

namespace Backdraft.Bess

open Bytes Mem Protobuf

/-- `SwapFlow`. -/
def swapFlow (f : Flow) : Flow where
  addrSrc := f.addrDst
  addrDst := f.addrSrc
  portSrc := f.portDst
  portDst := f.portSrc
  protocol := f.protocol
  ethDstAddr := f.ethSrcAddr
  ethSrcAddr := f.ethDstAddr

/-- The fields of a flow have the widths of the source. -/
structure FlowInRange (f : Flow) : Prop where
  addrSrc : f.addrSrc < 2 ^ 32
  addrDst : f.addrDst < 2 ^ 32
  portSrc : f.portSrc < 2 ^ 16
  portDst : f.portDst < 2 ^ 16
  protocol : f.protocol < 2 ^ 32
  ethDstAddr : f.ethDstAddr < 2 ^ 48
  ethSrcAddr : f.ethSrcAddr < 2 ^ 48

/-- The fields of a message have the widths of their types. -/
structure Overlay.InRange (m : Overlay) : Prop where
  srcPort : m.srcPort < 2 ^ 32
  dstPort : m.dstPort < 2 ^ 32
  srcIp : m.srcIp < 2 ^ 32
  dstIp : m.dstIp < 2 ^ 32
  srcMac : m.srcMac.length < 2 ^ 32
  dstMac : m.dstMac.length < 2 ^ 32
  protocol : m.protocol < 2 ^ 32
  wndSize : m.wndSize < 2 ^ 32
  packetPerSec : m.packetPerSec < 2 ^ 64
  pauseDuration : m.pauseDuration < 2 ^ 64

/-- `SerializeToString` and `ParseFromArray` for overlay messages. -/
structure OverlayCodec where
  serialize : Overlay → List UInt8
  parse : List UInt8 → Option Overlay
  parse_serialize : ∀ m : Overlay, m.InRange → parse (serialize m) = some m

/-- The message of `FillOverlayPacket`. -/
def overlayMsg (f : Flow) (pps pauseDuration : ℕ) : Overlay where
  srcPort := f.portSrc
  dstPort := f.portDst
  srcIp := f.addrSrc
  dstIp := f.addrDst
  srcMac := MacAddr.toText (toBE 6 f.ethSrcAddr)
  dstMac := MacAddr.toText (toBE 6 f.ethDstAddr)
  protocol := f.protocol
  wndSize := 12
  packetPerSec := pps
  pauseDuration := pauseDuration

/-- The payload of `FillOverlayPacket`: the type and the serialized message. -/
def overlayPayload (codec : OverlayCodec) (f : Flow) (pps pauseDuration : ℕ) : List UInt8 :=
  bkdrftOverlayMsgType :: codec.serialize (overlayMsg f pps pauseDuration)

/-- `FillOverlayPacket`. -/
def fillOverlayPacket (codec : OverlayCodec) (f : Flow) (p : Mbuf) (pps pauseDuration : ℕ) :
    Mbuf :=
  let payload := overlayPayload codec f pps pauseDuration
  preparePacket p payload payload.length (swapFlow f)

/-- `ExtractFlow`. -/
def extractFlow (m : Overlay) : Option Flow :=
  match MacAddr.ofText m.srcMac with
  | none => none
  | some ethSrcAddr =>
    match MacAddr.ofText m.dstMac with
    | none => none
    | some ethDstAddr => some {
        addrSrc := m.srcIp % 2 ^ 32
        addrDst := m.dstIp % 2 ^ 32
        portSrc := m.srcPort % 2 ^ 16
        portDst := m.dstPort % 2 ^ 16
        protocol := m.protocol % 2 ^ 32
        ethDstAddr := ofBE ethDstAddr
        ethSrcAddr := ofBE ethSrcAddr }

/-- A message says that the flow `f` has the given rate and pause. -/
structure Says (m : Overlay) (f : Flow) (pps pauseDuration : ℕ) : Prop where
  packetPerSec : m.packetPerSec = pps
  pauseDuration : m.pauseDuration = pauseDuration
  flow : extractFlow m = some f

/-- A packet is parsed as an overlay message that says this. -/
def ReadAs (codec : OverlayCodec) (p : Mbuf) (f : Flow) (pps pauseDuration : ℕ) : Prop :=
  ∃ m, parseBkdrftMsg codec.parse p = some (.overlay m) ∧ Says m f pps pauseDuration

/-! ### The message -/

variable {f : Flow} {pps pauseDuration : ℕ} {codec : OverlayCodec} {p : Mbuf}

theorem length_toText_toBE (a : ℕ) : (MacAddr.toText (toBE 6 a)).length = 17 := by
  rfl

theorem inRange_overlayMsg (hf : FlowInRange f) (hpps : pps < 2 ^ 64)
    (hpause : pauseDuration < 2 ^ 64) : (overlayMsg f pps pauseDuration).InRange where
  srcPort := hf.portSrc.trans (by decide)
  dstPort := hf.portDst.trans (by decide)
  srcIp := hf.addrSrc
  dstIp := hf.addrDst
  srcMac := by rw [overlayMsg, length_toText_toBE]; decide
  dstMac := by rw [overlayMsg, length_toText_toBE]; decide
  protocol := hf.protocol
  wndSize := (by decide : 12 < 2 ^ 32)
  packetPerSec := hpps
  pauseDuration := hpause

theorem extractFlow_overlayMsg (hf : FlowInRange f) :
    extractFlow (overlayMsg f pps pauseDuration) = some f := by
  have hsrc : ofBE (toBE 6 f.ethSrcAddr) = f.ethSrcAddr := ofBE_toBE_of_lt hf.ethSrcAddr
  have hdst : ofBE (toBE 6 f.ethDstAddr) = f.ethDstAddr := ofBE_toBE_of_lt hf.ethDstAddr
  simp only [extractFlow, overlayMsg, MacAddr.ofText_toText length_toBE, hsrc, hdst,
    Nat.mod_eq_of_lt hf.addrSrc, Nat.mod_eq_of_lt hf.addrDst, Nat.mod_eq_of_lt hf.portSrc,
    Nat.mod_eq_of_lt hf.portDst, Nat.mod_eq_of_lt hf.protocol]

/-! ### A codec -/

namespace Overlay

/-- The fields of a message on the wire. -/
def fields (m : Overlay) : List Field :=
  varintField 1 m.srcPort ++ varintField 2 m.dstPort ++ varintField 3 m.srcIp ++
    varintField 4 m.dstIp ++ bytesField 5 m.srcMac ++ bytesField 6 m.dstMac ++
    varintField 7 m.protocol ++ varintField 8 m.wndSize ++ varintField 9 m.packetPerSec ++
    varintField 10 m.pauseDuration

/-- The message with the given fields. -/
def ofFields (fs : List Field) : Overlay where
  srcPort := lastVarint 1 fs 0 % 2 ^ 32
  dstPort := lastVarint 2 fs 0 % 2 ^ 32
  srcIp := lastVarint 3 fs 0 % 2 ^ 32
  dstIp := lastVarint 4 fs 0 % 2 ^ 32
  srcMac := lastBytes 5 fs []
  dstMac := lastBytes 6 fs []
  protocol := lastVarint 7 fs 0 % 2 ^ 32
  wndSize := lastVarint 8 fs 0 % 2 ^ 32
  packetPerSec := lastVarint 9 fs 0 % 2 ^ 64
  pauseDuration := lastVarint 10 fs 0 % 2 ^ 64

variable {m : Overlay}

theorem InRange.fits (h : m.InRange) : ∀ g ∈ m.fields, g.Fits := by
  have hvarint : ∀ n < 11, ∀ v < 2 ^ 64, ∀ g ∈ varintField n v, g.Fits :=
    fun n hn v hv => fits_varintField (by omega) hv
  have hbytes : ∀ n < 11, ∀ b : List UInt8, b.length < 2 ^ 32 → ∀ g ∈ bytesField n b, g.Fits :=
    fun n hn b hb => fits_bytesField (by omega) (by omega)
  have hsmall : ∀ v < 2 ^ 32, v < 2 ^ 64 := fun v hv => by omega
  intro g hg
  simp only [fields, List.mem_append] at hg
  obtain ((((((((hg | hg) | hg) | hg) | hg) | hg) | hg) | hg) | hg) | hg := hg
  · exact hvarint 1 (by decide) _ (hsmall _ h.srcPort) g hg
  · exact hvarint 2 (by decide) _ (hsmall _ h.dstPort) g hg
  · exact hvarint 3 (by decide) _ (hsmall _ h.srcIp) g hg
  · exact hvarint 4 (by decide) _ (hsmall _ h.dstIp) g hg
  · exact hbytes 5 (by decide) _ h.srcMac g hg
  · exact hbytes 6 (by decide) _ h.dstMac g hg
  · exact hvarint 7 (by decide) _ (hsmall _ h.protocol) g hg
  · exact hvarint 8 (by decide) _ (hsmall _ h.wndSize) g hg
  · exact hvarint 9 (by decide) _ h.packetPerSec g hg
  · exact hvarint 10 (by decide) _ h.pauseDuration g hg

theorem InRange.ofFields_fields (h : m.InRange) : ofFields m.fields = m := by
  obtain ⟨srcPort, dstPort, srcIp, dstIp, srcMac, dstMac, protocol, wndSize, pps, pause⟩ := m
  simp (disch := decide) only [ofFields, fields, lastVarint_append, lastVarint_varintField_self,
    lastVarint_varintField_of_ne, lastVarint_bytesField, lastBytes_append,
    lastBytes_bytesField_self, lastBytes_bytesField_of_ne, lastBytes_varintField,
    Nat.mod_eq_of_lt h.srcPort, Nat.mod_eq_of_lt h.dstPort, Nat.mod_eq_of_lt h.srcIp,
    Nat.mod_eq_of_lt h.dstIp, Nat.mod_eq_of_lt h.protocol, Nat.mod_eq_of_lt h.wndSize,
    Nat.mod_eq_of_lt h.packetPerSec, Nat.mod_eq_of_lt h.pauseDuration]

end Overlay

/-- The wire format of overlay messages. -/
def wireCodec : OverlayCodec where
  serialize m := m.fields.flatMap putField
  parse l := (scan l).map Overlay.ofFields
  parse_serialize m hm := by
    rw [scan_flatMap_putField hm.fits, Option.map_some, hm.ofFields_fields]

/-! ### The packet -/

section Packet

variable (hsize : (overlayPayload codec f pps pauseDuration).length < bkdrftMaxMessageSize)
include hsize

theorem framed_fillOverlayPacket :
    Framed (fillOverlayPacket codec f p pps pauseDuration).head
      (overlayPayload codec f pps pauseDuration).length :=
  framed_preparePacket (overlayPayload codec f pps pauseDuration)
    (by unfold bkdrftMaxMessageSize at hsize; omega)

omit hsize in
theorem head_fillOverlayPacket (x : ℕ) (hx : 42 ≤ x) :
    (fillOverlayPacket codec f p pps pauseDuration).head x = p.buf (128 + x) :=
  head_preparePacket (overlayPayload codec f pps pauseDuration) x hx

/-- What is parsed is what the buffer held before: the message sent matters only by its length. -/
theorem parse_fillOverlayPacket :
    parseBkdrftMsg codec.parse (fillOverlayPacket codec f p pps pauseDuration) =
      if p.buf 170 = bkdrftCtrlMsgType then some (.ctrl 42)
      else if p.buf 170 = bkdrftOverlayMsgType then
        (codec.parse (p.buf.load 171
          (codec.serialize (overlayMsg f pps pauseDuration)).length)).map .overlay
      else none := by
  have hfirst : (fillOverlayPacket codec f p pps pauseDuration).head 42 = p.buf 170 :=
    head_fillOverlayPacket 42 le_rfl
  have hrest (n : ℕ) : (fillOverlayPacket codec f p pps pauseDuration).head.load 43 n =
      p.buf.load 171 n := by
    rw [load_congr fun x hx _ => head_fillOverlayPacket x (by omega)]
    exact load_shift 128
  have hlen : (overlayPayload codec f pps pauseDuration).length - 1 =
      (codec.serialize (overlayMsg f pps pauseDuration)).length := rfl
  simp only [parseBkdrftMsg, (framed_fillOverlayPacket hsize).getPacketPayload_eq,
    if_neg (Nat.not_le.2 hsize), payloadOffset, Nat.reduceAdd, hfirst, hrest, hlen]

/-- **An overlay message is read as it was sent exactly when the buffer held a message that says
the same before the call; in particular when it held the payload of this very message.** -/
theorem overlay_roundTrip_iff :
    (ReadAs codec (fillOverlayPacket codec f p pps pauseDuration) f pps pauseDuration ↔
      p.buf 170 = bkdrftOverlayMsgType ∧
        ∃ m, codec.parse (p.buf.load 171
            (codec.serialize (overlayMsg f pps pauseDuration)).length) = some m ∧
          Says m f pps pauseDuration) ∧
    (FlowInRange f → pps < 2 ^ 64 → pauseDuration < 2 ^ 64 →
      p.buf.load 170 (overlayPayload codec f pps pauseDuration).length =
        overlayPayload codec f pps pauseDuration →
      ReadAs codec (fillOverlayPacket codec f p pps pauseDuration) f pps pauseDuration) := by
  have hiff : ReadAs codec (fillOverlayPacket codec f p pps pauseDuration) f pps pauseDuration ↔
      p.buf 170 = bkdrftOverlayMsgType ∧
        ∃ m, codec.parse (p.buf.load 171
            (codec.serialize (overlayMsg f pps pauseDuration)).length) = some m ∧
          Says m f pps pauseDuration := by
    simp only [ReadAs, parse_fillOverlayPacket hsize]
    constructor
    · rintro ⟨m, hparse, hsays⟩
      split_ifs at hparse with hctrl hoverlay
      · cases hparse
      · obtain ⟨m', hm', heq⟩ := Option.map_eq_some_iff.1 hparse
        obtain rfl : m' = m := Msg.overlay.inj heq
        exact ⟨hoverlay, m', hm', hsays⟩
    · rintro ⟨hoverlay, m, hm, hsays⟩
      have hne : p.buf 170 ≠ bkdrftCtrlMsgType := by rw [hoverlay]; decide
      exact ⟨m, by rw [if_neg hne, if_pos hoverlay, hm, Option.map_some], hsays⟩
  refine ⟨hiff, fun hf hpps hpause hheld => hiff.2 ?_⟩
  rw [overlayPayload, List.length_cons, load_succ, List.cons.injEq] at hheld
  obtain ⟨hfirst, hrest⟩ := hheld
  refine ⟨hfirst, overlayMsg f pps pauseDuration, ?_, rfl, rfl, extractFlow_overlayMsg hf⟩
  rw [hrest, codec.parse_serialize _ (inRange_overlayMsg hf hpps hpause)]

end Packet

/-- In a buffer that holds the payload of the message the message is read. -/
theorem overlay_roundTrip_iff_held :
    (overlayPayload wireCodec default 1000 5).length < bkdrftMaxMessageSize ∧
    ReadAs wireCodec
      (fillOverlayPacket wireCodec default
        ⟨store (fun _ => 0) 170 (overlayPayload wireCodec default 1000 5), 0, 0, 0, 0, 0⟩ 1000 5)
      default 1000 5 := by
  have hsize : (overlayPayload wireCodec default 1000 5).length < bkdrftMaxMessageSize := by
    decide +kernel
  exact ⟨hsize, (overlay_roundTrip_iff hsize).2 (by constructor <;> decide) (by decide)
    (by decide) load_store_self⟩

/-- In an empty buffer no message is read. -/
theorem overlay_not_read :
    FlowInRange default ∧
    (overlayPayload wireCodec default 1000 5).length < bkdrftMaxMessageSize ∧
    ¬ReadAs wireCodec (fillOverlayPacket wireCodec default ⟨fun _ => 0, 0, 0, 0, 0, 0⟩ 1000 5)
      default 1000 5 := by
  refine ⟨by constructor <;> decide, by decide +kernel, ?_⟩
  have hrun : parseBkdrftMsg wireCodec.parse
      (fillOverlayPacket wireCodec default ⟨fun _ => 0, 0, 0, 0, 0, 0⟩ 1000 5) = none := by
    decide +kernel
  rintro ⟨m, hm, -⟩
  rw [hrun] at hm
  cases hm

end Backdraft.Bess

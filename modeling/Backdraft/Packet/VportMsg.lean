import Backdraft.Lib.Protobuf
import Backdraft.Packet.RoundTrip
import Backdraft.QueueInc.Cdq

/-!
# Control messages on a vport

`vport_send_pkt` announces its packets with the `struct cdq_payload` of `create_bkdraft_ctrl_msg`,
and `vport_poll_ctrl_queue_expose_qid` reads an announcement as the protobuf message `Ctrl`.  The
two do not fit together: the bytes of the struct are never a message with the queue and the count
that were sent.

* `Ctrl`, `FollowsWireFormat`: the message, and what is assumed of `dpdk_net_perf__ctrl__unpack`;
* `vportCtrlMsg`: the reading of an announcement;
* `vportCtrlMsg_lt`: an announcement is dropped or read with too small a count.

Seven bytes reach the reader: the two of the queue, the two of the priority, which are zero, and
three of the count.  A field for the count needs a tag before its value, so its value can start
only at the second byte of the count, since a tag cannot be zero.
-/

namespace Backdraft.Client

open Bytes Word Mem Protobuf

/-- `DpdkNetPerf__Ctrl`. -/
structure Ctrl where
  qid : ℕ
  prio : ℕ
  nbPkts : ℕ
  totalBytes : ℕ
  deriving DecidableEq

namespace Ctrl

/-- The values are those of variables of type `uint32_t`. -/
structure InRange (m : Ctrl) : Prop where
  qid : m.qid < 2 ^ 32
  prio : m.prio < 2 ^ 32
  nbPkts : m.nbPkts < 2 ^ 32
  totalBytes : m.totalBytes < 2 ^ 32

/-- The message with the given fields. -/
def ofFields (fs : List Field) : Ctrl where
  qid := lastVarint 1 fs 0 % 2 ^ 32
  prio := lastVarint 2 fs 0 % 2 ^ 32
  nbPkts := lastVarint 3 fs 0 % 2 ^ 32
  totalBytes := lastVarint 4 fs 0 % 2 ^ 32

/-- The fields of a message. -/
def fields (m : Ctrl) : List Field :=
  varintField 1 m.qid ++ varintField 2 m.prio ++ varintField 3 m.nbPkts ++
    varintField 4 m.totalBytes

/-- A message as bytes. -/
def pack (m : Ctrl) : List UInt8 := m.fields.flatMap putField

end Ctrl

/-- A reader of messages follows the wire format: it takes the values from the fields of a
message, and it reads every message as it was packed.  It may refuse bytes that have the form of a
message, such as a field with number 0 or a known field of another wire type. -/
structure FollowsWireFormat (unpack : List UInt8 → Option Ctrl) : Prop where
  sound : ∀ l m, unpack l = some m → ∃ fs, scan l = some fs ∧ m = Ctrl.ofFields fs
  complete : ∀ m : Ctrl, m.InRange → unpack m.pack = some m

/-- The reader that refuses nothing that has the form of a message. -/
def unpackAll (l : List UInt8) : Option Ctrl := (scan l).map Ctrl.ofFields

/-- The queue and the count that `vport_poll_ctrl_queue_expose_qid` takes from a packet, if it is
a control message. -/
def vportCtrlMsg (unpack : List UInt8 → Option Ctrl) (p : Mbuf) : Option (ℕ × ℕ) :=
  match getPayload p.head with
  | none => none
  | some (msg, size) =>
    if p.head msg ≠ bkdrftCtrlMsgType then none
    else
      match unpack (p.head.load (msg + 1) (wsub 64 size 2)) with
      | none => none
      | some m => some (m.qid % 2 ^ 16, m.nbPkts % 2 ^ 16)

/-! ### Readers that follow the format -/

namespace Ctrl

variable {m : Ctrl}

theorem InRange.fits (h : m.InRange) : ∀ f ∈ m.fields, f.Fits := by
  have hfits : ∀ n < 5, ∀ v < 2 ^ 32, ∀ f ∈ varintField n v, f.Fits :=
    fun n hn v hv => fits_varintField (by omega) (by omega)
  intro f hf
  simp only [fields, List.mem_append] at hf
  obtain ((hf | hf) | hf) | hf := hf
  · exact hfits 1 (by decide) _ h.qid f hf
  · exact hfits 2 (by decide) _ h.prio f hf
  · exact hfits 3 (by decide) _ h.nbPkts f hf
  · exact hfits 4 (by decide) _ h.totalBytes f hf

theorem InRange.ofFields_fields (h : m.InRange) : ofFields m.fields = m := by
  obtain ⟨qid, prio, nbPkts, totalBytes⟩ := m
  simp (disch := decide) only [ofFields, fields, lastVarint_append, lastVarint_varintField_self,
    lastVarint_varintField_of_ne, Nat.mod_eq_of_lt h.qid, Nat.mod_eq_of_lt h.prio,
    Nat.mod_eq_of_lt h.nbPkts, Nat.mod_eq_of_lt h.totalBytes]

end Ctrl

theorem followsWireFormat_unpackAll : FollowsWireFormat unpackAll where
  sound l m h := by
    obtain ⟨fs, hfs, rfl⟩ := Option.map_eq_some_iff.1 h
    exact ⟨fs, hfs, rfl⟩
  complete m hm := by
    rw [unpackAll, Ctrl.pack, scan_flatMap_putField hm.fits, Option.map_some, hm.ofFields_fields]

/-! ### An announcement is not a message -/

section Announcement

variable {a b₀ b₁ : UInt8} {k v : ℕ} {f : Field} {r : List UInt8} {fs : List Field}

/-- A number that is read after the first byte of the count. -/
theorem varint_le_of_suffix {s : List UInt8} (hs : s <:+ [b₁, 0])
    (h : getVarint 10 s = some (v, r)) : v ≤ b₁.toNat := by
  simp only [List.suffix_cons_iff, List.suffix_nil] at hs
  obtain rfl | rfl | rfl := hs
  · by_cases hb : b₁.toNat < 128
    · simp only [getVarint, hb, if_true, Option.some.injEq, Prod.mk.injEq] at h
      omega
    · simp [getVarint, hb] at h
      omega
  · simp [getVarint] at h
    omega
  · cases h

/-- The first field of an announcement has no value other than zero, and it ends before the count
or after its first byte. -/
theorem getField_announcement (ha : a.toNat < 128)
    (h : getField [a, 0, 0, 0, b₀, b₁, 0] = some (f, r)) :
    (∀ v, f.value = .varint v → v = 0) ∧ (r = [0, 0, b₀, b₁, 0] ∨ r = [b₁, 0]) := by
  obtain ⟨tag, r', htag, hvalue, -⟩ := getField_eq_some h
  rw [getVarint, if_pos ha] at htag
  cases htag
  have hwire : a.toNat % 8 < 8 := Nat.mod_lt _ (by decide)
  generalize a.toNat % 8 = w at hvalue hwire
  interval_cases w <;> simp [getValue, getVarint, getBytes] at hvalue <;>
    simp [← hvalue.1, ← hvalue.2]

/-- Field 3 of an announcement holds no number greater than the second byte of the count. -/
theorem varint_le_of_announcement (ha : a.toNat < 128)
    (h : getFields k [a, 0, 0, 0, b₀, b₁, 0] = some fs) (hmem : ⟨3, .varint v⟩ ∈ fs) :
    v ≤ b₁.toNat := by
  have hc : ∀ s, s <:+ [b₁, 0] → ∀ v r, getVarint 10 s = some (v, r) → v ≤ b₁.toNat :=
    fun s hs v r => varint_le_of_suffix hs
  obtain _ | k := k
  · cases h
  obtain ⟨f, r, fs, hf, hfs, rfl⟩ := getFields_succ_eq_some h
  obtain ⟨hzero, hr⟩ := getField_announcement ha hf
  obtain rfl | hmem := List.mem_cons.1 hmem
  · rw [hzero v rfl]
    exact Nat.zero_le _
  obtain rfl | rfl := hr
  · -- the priority is a field with number 0, and what follows it starts with the count
    obtain _ | k := k
    · cases hfs
    obtain ⟨f, r, fs, hf, hfs, rfl⟩ := getFields_succ_eq_some hfs
    have hzero : getField [0, 0, b₀, b₁, 0] = some (⟨0, .varint 0⟩, [b₀, b₁, 0]) := rfl
    rw [hzero] at hf
    cases hf
    obtain hmem | hmem := List.mem_cons.1 hmem
    · cases hmem
    · refine varint_le_of_mem_getFields hfs (fun s hs hlen => hc s ?_) hmem
      obtain rfl | hs := List.suffix_cons_iff.1 hs
      · exact absurd hlen (lt_irrefl _)
      · exact hs
  · exact varint_le_of_mem_getFields hfs (fun s hs _ => hc s hs) hmem

end Announcement

variable {p r : Mbuf} {samplePkt : Option Mbuf} {unpack : List UInt8 → Option Ctrl} {q n : ℕ}

/-- The bytes that reach the reader. -/
theorem load_announcement (hp : IsCtrl p ⟨q, 0, n⟩) (hq : q < 32) (hn : n < 2 ^ 16) :
    p.head.load 43 7 = [UInt8.ofNat q, 0, 0, 0, UInt8.ofNat n, UInt8.ofNat (n / 256), 0] := by
  have hpayload := hp.holds.payload
  simp only [cdqPayload, CdqPayload.mk.injEq] at hpayload
  obtain ⟨hqid, hprio, hcount⟩ := hpayload
  have hqid' := load_eq_toLE hqid
  have hprio' := load_eq_toLE hprio
  have hcount' := load_eq_toLE hcount
  -- the reader does not get the last byte of the count
  have hsplit : p.head.load 43 7 = p.head.load 43 2 ++ p.head.load 45 2 ++ p.head.load 47 3 := by
    rw [← load_add, ← load_add]
  have htake : p.head.load 47 3 = (toLE 4 n).take 3 := by
    rw [← hcount', load_add (m := p.head) (a := 47) (n := 3) 1, List.take_left' length_load]
  have hq0 : q / 256 = 0 := by omega
  have hn0 : n / 256 / 256 = 0 := by omega
  rw [hsplit, hqid', hprio', htake]
  simp [toLE, hq0, hn0]

/-- **The announcement of a packet count on a vport is never read as it was sent: it is dropped, or
read with too small a count.** -/
theorem vportCtrlMsg_lt (hunpack : FollowsWireFormat unpack) (hq : q < maxQueuesPerDir)
    (hpos : 1 ≤ n) (hn : n < 2 ^ 16) (hok : ctrlPacket p q n samplePkt = .ok r) :
    vportCtrlMsg unpack r ≠ some (q, n) ∧ ∀ m, vportCtrlMsg unpack r = some m → m.2 < n := by
  have hlt : ∀ m, vportCtrlMsg unpack r = some m → m.2 < n := by
    intro m hm
    have hctrl := isCtrl_ctrlPacket (by unfold maxQueuesPerDir at hq; omega) (by omega) hok
    have hbytes := load_announcement hctrl hq hn
    have hsize : wsub 64 sizeofCdqPayload 2 = 7 := wsub_of_le (by decide) (by decide)
    simp only [vportCtrlMsg, hctrl.framed.getPayload_eq, payloadOffset, Nat.reduceAdd,
      hctrl.holds.type, ne_eq, not_true_eq_false, if_false, hsize, hbytes] at hm
    split at hm
    · cases hm
    · next m' hm' =>
      obtain ⟨fs, hscan, rfl⟩ := hunpack.sound _ _ hm'
      cases hm
      have hbyte : (UInt8.ofNat (n / 256)).toNat = n / 256 := toNat_ofNat_byte (by omega)
      have hfirst : (UInt8.ofNat q).toNat < 128 := by
        unfold maxQueuesPerDir at hq
        rw [toNat_ofNat_byte (by omega)]
        omega
      have hle : lastVarint 3 fs 0 ≤ n / 256 := by
        rw [← hbyte]
        exact lastVarint_le (fun v hv => varint_le_of_announcement hfirst hscan hv) (Nat.zero_le _)
      calc lastVarint 3 fs 0 % 2 ^ 32 % 2 ^ 16 ≤ lastVarint 3 fs 0 :=
            (Nat.mod_le _ _).trans (Nat.mod_le _ _)
        _ ≤ n / 256 := hle
        _ < n := Nat.div_lt_self hpos (by decide)
  exact ⟨fun heq => lt_irrefl n (hlt (q, n) heq), hlt⟩

/-- An announcement of 128 packets in queue 8, which has the form of a message, is misread too. -/
theorem vportCtrlMsg_lt_queue_eight :
    (8 < maxQueuesPerDir ∧ 1 ≤ 128 ∧ 128 < 2 ^ 16) ∧
    ∃ r, ctrlPacket ⟨fun _ => 0, 128, 0, 0, 0, 0⟩ 8 128 (some ⟨fun _ => 0, 128, 0, 0, 0, 0⟩) =
        .ok r ∧ vportCtrlMsg unpackAll r ≠ some (8, 128) := by
  obtain ⟨r, hok⟩ := exists_ctrlPacket ⟨fun _ => 0, 128, 0, 0, 0, 0⟩ 8 128
    ⟨fun _ => 0, 128, 0, 0, 0, 0⟩
  exact ⟨by decide, r, hok, (vportCtrlMsg_lt followsWireFormat_unpackAll (by decide) (by decide)
    (by decide) hok).1⟩

/-- The announcement of one packet in queue 1 is dropped. -/
theorem announcement_dropped :
    FollowsWireFormat unpackAll ∧
    ∃ r, ctrlPacket ⟨fun _ => 0, 128, 0, 0, 0, 0⟩ 1 1 (some ⟨fun _ => 0, 128, 0, 0, 0, 0⟩) =
        .ok r ∧ vportCtrlMsg unpackAll r = none := by
  have hrun : ((ctrlPacket ⟨fun _ => 0, 128, 0, 0, 0, 0⟩ 1 1
      (some ⟨fun _ => 0, 128, 0, 0, 0, 0⟩)).toOption.map (vportCtrlMsg unpackAll)) = some none := by
    decide +kernel
  obtain ⟨r, hok⟩ := exists_ctrlPacket ⟨fun _ => 0, 128, 0, 0, 0, 0⟩ 1 1
    ⟨fun _ => 0, 128, 0, 0, 0, 0⟩
  rw [hok] at hrun
  exact ⟨followsWireFormat_unpackAll, r, hok, Option.some_inj.1 hrun⟩

end Backdraft.Client

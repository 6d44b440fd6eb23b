import Backdraft.Packet.RoundTrip

/-!
# Sending with announcements

`send_pkt` of `bkdrft.c` and `vport_send_pkt` of `bkdrft_vport.c`.  Both hand data packets to a
queue and then announce what was taken with a control packet on the doorbell queue.  They differ in
what they do when the control packet cannot be sent: the first frees it and returns, the second
tries again until it succeeds.  Both return without an announcement when no buffer can be
allocated for it.

* `Placed`, `SendCall`, `sendPkt`, `vportSendPkt`: the queues and the two calls, with the answers
  that the driver and the allocator give during a call;
* `Effect`: what a call adds to a queue and to the announcements;
* `length_add_announcedFor`: the packets of a queue are those announced and those lost;
* `announced_iff`: nothing is unannounced exactly when every call that has sent packets has also
  sent its control packet.

A control packet is counted as the switch reads it, from its bytes.  What a call never announces is
not announced later, since the next call announces its own packets only.
-/

namespace Backdraft.Client

/-- The packets that were placed on each queue of a port, in order. -/
abbrev Placed := ℕ → List Mbuf

/-- `BKDRFT_CTRL_QUEUE`. -/
def bkdrftCtrlQueue : ℕ := 0

/-- A call with its outcomes: the number of data packets that the driver would take, the buffer
that is allocated, and whether the driver takes the control packet, at each attempt. -/
structure SendCall where
  qid : ℕ
  pkts : List Mbuf
  dataTx : ℕ
  alloc : Option Mbuf
  ctrlTx : List Bool

namespace SendCall

/-- The number of data packets that the driver takes. -/
def nbTx (c : SendCall) : ℕ := min c.dataTx c.pkts.length

/-- The arguments of a call have the widths of the source, and its queue is not the doorbell. -/
structure Valid (doorbell : ℕ) (c : SendCall) : Prop where
  qid_lt : c.qid < 2 ^ 16
  qid_ne : c.qid ≠ doorbell
  length_lt : c.pkts.length < 2 ^ 16

end SendCall

/-- `rte_eth_tx_burst` and `send_packets_vport`, when the driver takes the first `n` packets. -/
def txBurst (w : Placed) (q : ℕ) (pkts : List Mbuf) (n : ℕ) : Placed :=
  Function.update w q (w q ++ pkts.take n)

/-- `send_pkt`: what is on the queues after the call. -/
def sendPkt (sendCtrlPkt : Bool) (w : Placed) (c : SendCall) : Placed :=
  let w := txBurst w c.qid c.pkts c.dataTx
  if c.nbTx = 0 then w
  else if sendCtrlPkt then
    match c.alloc with
    | none => w
    | some buf =>
      -- the result of `prepare_packet` is not looked at
      let ctrlPkt :=
        match ctrlPacket buf c.qid c.nbTx c.pkts.head? with
        | .ok pkt => pkt
        | .error _ => (createBkdraftCtrlMsg buf payloadOffset c.qid c.nbTx).1
      if c.ctrlTx.headD false then txBurst w bkdrftCtrlQueue [ctrlPkt] 1 else w
  else w

/-- The attempts of `vport_send_pkt` to send a control packet; `none` while it tries. -/
def retryCtrlPkt (w : Placed) (doorbell : ℕ) (ctrlPkt : Mbuf) : List Bool → Option Placed
  | [] => none
  | true :: _ => some (txBurst w doorbell [ctrlPkt] 1)
  | false :: attempts => retryCtrlPkt w doorbell ctrlPkt attempts

/-- `vport_send_pkt`: what is on the queues after the call; `none` while it is in progress. -/
def vportSendPkt (sendCtrlPkt : Bool) (doorbell : ℕ) (w : Placed) (c : SendCall) :
    Option Placed :=
  let w := txBurst w c.qid c.pkts c.dataTx
  if c.nbTx = 0 then some w
  else if sendCtrlPkt then
    match c.alloc with
    | none => some w
    | some buf =>
      match ctrlPacket buf c.qid c.nbTx c.pkts.head? with
      | .error _ => some w
      | .ok ctrlPkt => retryCtrlPkt w doorbell ctrlPkt c.ctrlTx
  else some w

/-! ### Announcements -/

/-- The announcement in a packet, as the switch reads it. -/
def announcement (p : Mbuf) : Option (ℕ × ℕ) := Bess.ctrlMsg (fun _ => none) p

/-- The number of packets of queue `q` that were announced on the doorbell queue. -/
def announcedFor (w : Placed) (doorbell q : ℕ) : ℕ := announcedIn announcement q (w doorbell)

/-- A call has added `nbTx` packets to its queue, and it has announced them or nothing. -/
structure Effect (doorbell : ℕ) (c : SendCall) (announces : Bool) (w w' : Placed) : Prop where
  placed : ∀ q ≠ doorbell, (w' q).length = (w q).length + if c.qid = q then c.nbTx else 0
  announced : ∀ q, announcedFor w' doorbell q =
    announcedFor w doorbell q + if c.qid = q ∧ announces then c.nbTx else 0

/-- The packets of queue `q` that a call has sent and not announced. -/
def lostBy (announces : SendCall → Bool) (q : ℕ) (c : SendCall) : ℕ :=
  if c.qid = q ∧ ¬announces c then c.nbTx else 0

variable {doorbell q : ℕ} {c : SendCall} {w w' : Placed} {buf ctrlPkt : Mbuf}

theorem announcedBy_ctrlPacket {samplePkt : Option Mbuf} (hc : c.Valid doorbell)
    (hok : ctrlPacket buf c.qid c.nbTx samplePkt = .ok ctrlPkt) :
    announcedBy announcement q ctrlPkt = if c.qid = q then c.nbTx else 0 := by
  have hn : c.nbTx < 2 ^ 32 := by
    have hlt := hc.length_lt
    unfold SendCall.nbTx
    omega
  simp only [announcedBy, announcement,
    (isCtrl_ctrlPacket hc.qid_lt hn hok).bess_ctrlMsg fun _ => none]

theorem announcedFor_txBurst_ctrl (p : Mbuf) :
    announcedFor (txBurst w doorbell [p] 1) doorbell q =
      announcedFor w doorbell q + announcedBy announcement q p := by
  simp [announcedFor, txBurst]

theorem announcedFor_txBurst_data (hc : c.Valid doorbell) (n : ℕ) :
    announcedFor (txBurst w c.qid c.pkts n) doorbell q = announcedFor w doorbell q := by
  simp [announcedFor, txBurst, Function.update_of_ne hc.qid_ne.symm]

/-! ### What a call does -/

/-- The data packets of a call. -/
theorem effect_data (hc : c.Valid doorbell) :
    Effect doorbell c false w (txBurst w c.qid c.pkts c.dataTx) where
  placed q _ := by
    by_cases hq : c.qid = q
    · subst hq
      simp [txBurst, SendCall.nbTx]
    · simp [txBurst, Function.update_of_ne (Ne.symm hq), hq]
  announced q := by
    simp [announcedFor_txBurst_data hc]

/-- The control packet after them. -/
theorem effect_ctrl {samplePkt : Option Mbuf} (hc : c.Valid doorbell)
    (hok : ctrlPacket buf c.qid c.nbTx samplePkt = .ok ctrlPkt) :
    Effect doorbell c true w
      (txBurst (txBurst w c.qid c.pkts c.dataTx) doorbell [ctrlPkt] 1) where
  placed q hq := by
    rw [← (effect_data hc).placed q hq, txBurst, Function.update_of_ne hq]
  announced q := by
    rw [announcedFor_txBurst_ctrl, announcedFor_txBurst_data hc, announcedBy_ctrlPacket hc hok]
    simp

/-- A call that sends nothing has nothing to announce. -/
theorem Effect.of_nbTx_eq_zero {announces : Bool} (h : Effect doorbell c false w w')
    (hzero : c.nbTx = 0) : Effect doorbell c announces w w' where
  placed := h.placed
  announced q := by rw [h.announced q, hzero, ite_self, ite_self]

/-- A call that sends something has a sample for its control packet. -/
theorem exists_ctrlPacket_of_nbTx_ne_zero (hn : c.nbTx ≠ 0) (buf : Mbuf) :
    ∃ ctrlPkt, ctrlPacket buf c.qid c.nbTx c.pkts.head? = .ok ctrlPkt := by
  obtain ⟨qid, _ | ⟨sample, pkts⟩, dataTx, alloc, ctrlTx⟩ := c
  · simp [SendCall.nbTx] at hn
  · exact exists_ctrlPacket buf qid _ sample

namespace SendCall

/-- The control packet of `send_pkt` is allocated, and the driver takes it. -/
def announces (c : SendCall) : Bool := c.alloc.isSome && c.ctrlTx.headD false

/-- The control packet of `vport_send_pkt` is allocated. -/
def vportAnnounces (c : SendCall) : Bool := c.alloc.isSome

end SendCall

theorem effect_sendPkt (hc : c.Valid bkdrftCtrlQueue) :
    Effect bkdrftCtrlQueue c c.announces w (sendPkt true w c) := by
  have hdata := effect_data (w := w) hc
  unfold sendPkt
  by_cases hn : c.nbTx = 0
  · simpa [hn] using hdata.of_nbTx_eq_zero hn
  · cases halloc : c.alloc with
    | none => simpa [hn, SendCall.announces, halloc] using hdata
    | some buf =>
      obtain ⟨ctrlPkt, hok⟩ := exists_ctrlPacket_of_nbTx_ne_zero hn buf
      simp only [hn, if_false, if_true, hok, SendCall.announces, halloc, Option.isSome_some,
        Bool.true_and]
      cases c.ctrlTx.headD false with
      | false => exact hdata
      | true => exact effect_ctrl hc hok

/-- When the attempts come to an end, the control packet was sent once. -/
theorem retryCtrlPkt_eq_some {attempts : List Bool}
    (h : retryCtrlPkt w doorbell ctrlPkt attempts = some w') :
    w' = txBurst w doorbell [ctrlPkt] 1 := by
  induction attempts with
  | nil => cases h
  | cons attempt attempts ih =>
    cases attempt with
    | true => exact (Option.some_inj.1 h).symm
    | false => exact ih h

theorem effect_vportSendPkt (hc : c.Valid doorbell)
    (h : vportSendPkt true doorbell w c = some w') :
    Effect doorbell c c.vportAnnounces w w' := by
  have hdata := effect_data (w := w) hc
  unfold vportSendPkt at h
  by_cases hn : c.nbTx = 0
  · simp only [hn, if_true, Option.some.injEq] at h
    subst h
    exact hdata.of_nbTx_eq_zero hn
  · cases halloc : c.alloc with
    | none =>
      simp only [hn, if_false, if_true, halloc, Option.some.injEq] at h
      subst h
      simpa [SendCall.vportAnnounces, halloc] using hdata
    | some buf =>
      obtain ⟨ctrlPkt, hok⟩ := exists_ctrlPacket_of_nbTx_ne_zero hn buf
      simp only [hn, if_false, if_true, halloc, hok] at h
      rw [retryCtrlPkt_eq_some h]
      simpa [SendCall.vportAnnounces, halloc] using effect_ctrl hc hok

/-! ### Runs -/

section Runs

variable {step : Placed → SendCall → Option Placed} {announces : SendCall → Bool}
  {calls : List SendCall}

/-- The packets of a queue are those that were announced and those that were lost. -/
theorem length_add_announcedFor
    (hstep : ∀ w c w', c.Valid doorbell → step w c = some w' →
      Effect doorbell c (announces c) w w')
    (hvalid : ∀ c ∈ calls, c.Valid doorbell) (hrun : calls.foldlM step w = some w')
    (hq : q ≠ doorbell) :
    (w' q).length + announcedFor w doorbell q =
      (w q).length + announcedFor w' doorbell q + (calls.map (lostBy announces q)).sum := by
  induction calls generalizing w with
  | nil =>
    cases hrun
    simp
  | cons c calls ih =>
    obtain ⟨u, hu, hrun⟩ := Option.bind_eq_some_iff.1 hrun
    have heffect := hstep w c u (hvalid c List.mem_cons_self) hu
    have hplaced := heffect.placed q hq
    have hannounced := heffect.announced q
    have hlost : (if c.qid = q then c.nbTx else 0) =
        (if c.qid = q ∧ announces c then c.nbTx else 0) + lostBy announces q c := by
      unfold lostBy
      by_cases hqid : c.qid = q <;> by_cases ha : announces c <;> simp [hqid, ha]
    have hrest := ih (fun d hd => hvalid d (List.mem_cons_of_mem c hd)) hrun
    rw [List.map_cons, List.sum_cons]
    omega

/-- From empty queues, all packets of a queue are announced exactly when no call has lost any. -/
theorem announcedFor_eq_length_iff
    (hstep : ∀ w c w', c.Valid doorbell → step w c = some w' →
      Effect doorbell c (announces c) w w')
    (hvalid : ∀ c ∈ calls, c.Valid doorbell)
    (hrun : calls.foldlM step (fun _ => []) = some w') (hq : q ≠ doorbell) :
    announcedFor w' doorbell q = (w' q).length ↔
      ∀ c ∈ calls, c.qid = q → 0 < c.nbTx → announces c = true := by
  have hsum := length_add_announcedFor hstep hvalid hrun hq
  simp only [announcedFor, announcedIn_nil, List.length_nil, Nat.add_zero, Nat.zero_add] at hsum
  have hzero : announcedFor w' doorbell q = (w' q).length ↔
      (calls.map (lostBy announces q)).sum = 0 := by
    simp only [announcedFor]
    omega
  rw [hzero, List.sum_eq_zero_iff, List.forall_mem_map]
  refine forall₂_congr fun c _ => ?_
  unfold lostBy
  by_cases hqid : c.qid = q <;> by_cases ha : announces c <;> simp [hqid, ha]

end Runs

/-- **After any calls of `send_pkt`, and likewise of `vport_send_pkt`, the packets of a data queue
are announced exactly when every call that has sent packets to it has sent its control packet.** -/
theorem announced_iff (calls : List SendCall) (q : ℕ) :
    ((∀ c ∈ calls, c.Valid bkdrftCtrlQueue) → q ≠ bkdrftCtrlQueue →
      (announcedFor (calls.foldl (sendPkt true) fun _ => []) bkdrftCtrlQueue q =
          ((calls.foldl (sendPkt true) fun _ => []) q).length ↔
        ∀ c ∈ calls, c.qid = q → 0 < c.nbTx → c.announces = true)) ∧
    (∀ (doorbell : ℕ) (w : Placed), (∀ c ∈ calls, c.Valid doorbell) →
      calls.foldlM (vportSendPkt true doorbell) (fun _ => []) = some w → q ≠ doorbell →
      (announcedFor w doorbell q = (w q).length ↔
        ∀ c ∈ calls, c.qid = q → 0 < c.nbTx → c.vportAnnounces = true)) := by
  constructor
  · intro hvalid hq
    have hrun : calls.foldlM (fun w c => some (sendPkt true w c)) (fun _ => []) =
        some (calls.foldl (sendPkt true) fun _ => []) :=
      List.foldlM_pure
    refine announcedFor_eq_length_iff (fun w c w' hc h => ?_) hvalid hrun hq
    cases h
    exact effect_sendPkt hc
  · intro doorbell w hvalid hrun hq
    exact announcedFor_eq_length_iff (fun w c w' => effect_vportSendPkt) hvalid hrun hq

/-- A call with one packet for queue 1. -/
def oneToQueueOne (alloc : Option Mbuf) (ctrlTx : List Bool) : SendCall :=
  ⟨1, [⟨fun _ => 0, 128, 0, 0, 0, 0⟩], 1, alloc, ctrlTx⟩

/-- Two calls that announce their packets, the second on a vport after two failed attempts. -/
theorem announced_iff_two_calls :
    let buf : Mbuf := ⟨fun _ => 0xff, 128, 0, 0, 0, 0⟩
    announcedFor (sendPkt true (fun _ => []) (oneToQueueOne (some buf) [true])) 0 1 = 1 ∧
    ∃ w, vportSendPkt true 0 (fun _ => []) (oneToQueueOne (some buf) [false, false, true]) =
        some w ∧ announcedFor w 0 1 = (w 1).length := by
  intro buf
  have hvalid : ∀ ctrlTx, (oneToQueueOne (some buf) ctrlTx).Valid 0 :=
    fun ctrlTx => ⟨(by decide : 1 < 2 ^ 16), Nat.one_ne_zero, (by decide : 1 < 2 ^ 16)⟩
  refine ⟨?_, _, rfl, ?_⟩
  · refine ((announced_iff [oneToQueueOne (some buf) [true]] 1).1 ?_ (by decide)).2 ?_
    · exact List.forall_mem_singleton.2 (hvalid _)
    · exact List.forall_mem_singleton.2 fun _ _ => rfl
  · refine ((announced_iff [oneToQueueOne (some buf) [false, false, true]] 1).2 0 _ ?_ rfl
      (by decide)).2 ?_
    · exact List.forall_mem_singleton.2 (hvalid _)
    · exact List.forall_mem_singleton.2 fun _ _ => rfl

/-- Without a buffer for the control packet the data packet stays unannounced in both
implementations, and `send_pkt` does not repeat a control packet that the driver refuses. -/
theorem packet_unannounced :
    let unallocated := oneToQueueOne none []
    let refused := oneToQueueOne (some ⟨fun _ => 0, 128, 0, 0, 0, 0⟩) [false]
    (sendPkt true (fun _ => []) unallocated 1).length = 1 ∧
      announcedFor (sendPkt true (fun _ => []) unallocated) 0 1 = 0 ∧
    (sendPkt true (fun _ => []) refused 1).length = 1 ∧
      announcedFor (sendPkt true (fun _ => []) refused) 0 1 = 0 ∧
    ∃ w, vportSendPkt true 0 (fun _ => []) unallocated = some w ∧
      (w 1).length = 1 ∧ announcedFor w 0 1 = 0 :=
  ⟨rfl, rfl, rfl, rfl, _, rfl, rfl, rfl⟩

end Backdraft.Client

import Backdraft.OverlayCtrl.Book

/-!
# What the book holds after a run

A run is a list of calls of `FillBook` and `ApplyOverlayMessage`, the last call first.  Messages are
those that `FillOverlayPacket` makes for some flow, with numbers that fit their fields.

* `BookOp`, `after`: the calls and the runs;
* `bookedAt`, `pausedUntil`, `limitAt`: what the calls of a run say about a flow, and about a queue;
* `Agrees`: the book holds just that;
* `Agrees.step`: a call keeps it;
* `store_law`: it holds after every run, and a call for one flow leaves the entries of the others.
-/

namespace Backdraft

open Bess Word

namespace OverlayCtrl

/-- A call of `FillBook`, or of `ApplyOverlayMessage` for the message that `FillOverlayPacket` makes
for `f`; `flow` is what the local variable holds. -/
inductive BookOp
  | fillBook (port qid : ℕ) (f : Flow)
  | apply (f : Flow) (pps pauseDuration now : ℕ) (flow : Flow)

/-- The flow that a call is about. -/
def BookOp.target : BookOp → Flow
  | .fillBook _ _ f => f
  | .apply f _ _ _ _ => f

/-- The rate has 32 bits, and the end of the pause 64. -/
def BookOp.InRange : BookOp → Prop
  | .fillBook _ _ _ => True
  | .apply f pps pauseDuration now _ =>
    FlowInRange f ∧ pps < 2 ^ 32 ∧ now + pauseDuration < 2 ^ 64

/-- One call. -/
def step (c : OverlayCtrl) : BookOp → OverlayCtrl
  | .fillBook port qid f => (c.fillBook port qid f).1
  | .apply f pps pauseDuration now flow =>
    c.applyOverlayMessage (overlayMsg f pps pauseDuration) now flow

/-- The book after a run. -/
def after (c : OverlayCtrl) : List BookOp → OverlayCtrl
  | [] => c
  | op :: ops => (c.after ops).step op

/-! ### What a run says -/

/-- The port and the queue of the last `FillBook` of a flow. -/
def bookedAt (k : FlowTuple) : List BookOp → Option (ℕ × ℕ)
  | [] => none
  | .fillBook port qid f :: ops =>
    if f.toFlowTuple = k then some (port, qid) else bookedAt k ops
  | .apply _ _ _ _ _ :: ops => bookedAt k ops

/-- The end of the pause of the last message for a flow since it was first booked, or 0. -/
def pausedUntil (k : FlowTuple) : List BookOp → ℕ
  | [] => 0
  | .fillBook _ _ _ :: ops => pausedUntil k ops
  | .apply f _ pauseDuration now _ :: ops =>
    if f.toFlowTuple = k ∧ (bookedAt k ops).isSome then now + pauseDuration
    else pausedUntil k ops

/-- The rate, at least a batch, of the last message for a flow that was booked at the queue at that
moment. -/
def limitAt (port qid : ℕ) : List BookOp → Option ℕ
  | [] => none
  | .fillBook _ _ _ :: ops => limitAt port qid ops
  | .apply f pps _ _ _ :: ops =>
    if bookedAt f.toFlowTuple ops = some (port, qid) then some (max oneBatch pps)
    else limitAt port qid ops

/-- The entry that a run says a flow has. -/
def entryOf (k : FlowTuple) (ops : List BookOp) : Option OverlayEntry :=
  (bookedAt k ops).map fun place =>
    { newEntry place.1 place.2 with pauseUntilTs := pausedUntil k ops }

/-- The book holds what the run says; `ports` are the ports before it. -/
structure Agrees (ports : ℕ → OverlayPort) (c : OverlayCtrl) (ops : List BookOp) : Prop where
  lookup_eq : ∀ k, c.flowBook.lookup k = entryOf k ops
  limit_eq : ∀ port d qid, (c.ports port).limiter.limit (d, qid) =
    (limitAt port qid ops).getD ((ports port).limiter.limit (d, qid))
  accepts : c.flowBook.Accepts

variable {ports : ℕ → OverlayPort} {c : OverlayCtrl} {ops : List BookOp} {k : FlowTuple} {f : Flow}

theorem pausedUntil_of_not_booked (h : bookedAt k ops = none) : pausedUntil k ops = 0 := by
  induction ops with
  | nil => rfl
  | cons op ops ih =>
    cases op with
    | fillBook port qid f =>
      simp only [bookedAt] at h
      split_ifs at h
      exact ih h
    | apply f pps pauseDuration now flow =>
      have h' : bookedAt k ops = none := h
      simp [pausedUntil, h', ih h']

theorem agrees_init (ports : ℕ → OverlayPort) : Agrees ports (init ports) [] :=
  ⟨fun _ => rfl, fun _ _ _ => rfl, HashTable.accepts_empty⟩

/-- The entries before and after a flow is booked. -/
theorem entryOf_fillBook (port qid : ℕ) :
    entryOf k (.fillBook port qid f :: ops) =
      if k = f.toFlowTuple then
        some { (entryOf k ops).getD (newEntry port qid) with port := port, qid := qid }
      else entryOf k ops := by
  by_cases hk : k = f.toFlowTuple
  · subst hk
    cases hat : bookedAt f.toFlowTuple ops with
    | none => simp [entryOf, bookedAt, pausedUntil, hat, pausedUntil_of_not_booked hat, newEntry]
    | some place => simp [entryOf, bookedAt, pausedUntil, hat, newEntry]
  · simp [entryOf, bookedAt, pausedUntil, hk, Ne.symm hk]

/-- Booking a flow. -/
theorem Agrees.fillBook (h : Agrees ports c ops) (port qid : ℕ) (f : Flow) :
    Agrees ports (c.fillBook port qid f).1 (.fillBook port qid f :: ops) := by
  refine ⟨fun k => ?_, fun port' d qid' => ?_, accepts_fillBook h.accepts⟩
  · rw [entryOf_fillBook]
    split_ifs with hk
    · rw [hk, lookup_fillBook_self h.accepts, h.lookup_eq]
    · rw [lookup_fillBook_of_ne hk, h.lookup_eq]
  · rw [ports_fillBook]
    exact h.limit_eq port' d qid'

section Apply

variable {pps pauseDuration now : ℕ}

theorem limitedRate_overlayMsg (hpps : pps < 2 ^ 32) :
    limitedRate (overlayMsg f pps pauseDuration) % 2 ^ 32 = max oneBatch pps := by
  have hbatch : oneBatch < 2 ^ 32 := by decide
  change (if pps < oneBatch then oneBatch else pps) % 2 ^ 32 = max oneBatch pps
  split_ifs with hsmall
  · rw [Nat.mod_eq_of_lt hbatch, max_eq_left hsmall.le]
  · rw [Nat.mod_eq_of_lt hpps, max_eq_right (Nat.le_of_not_lt hsmall)]

/-- The entries before and after a message for a booked flow. -/
theorem entryOf_apply {entry : OverlayEntry} (h : entryOf f.toFlowTuple ops = some entry)
    (flow : Flow) :
    entryOf k (.apply f pps pauseDuration now flow :: ops) =
      if k = f.toFlowTuple then some { entry with pauseUntilTs := now + pauseDuration }
      else entryOf k ops := by
  obtain ⟨place, hplace, rfl⟩ := Option.map_eq_some_iff.1 h
  by_cases hk : k = f.toFlowTuple
  · subst hk
    simp [entryOf, bookedAt, pausedUntil, hplace]
  · simp [entryOf, bookedAt, pausedUntil, hk, Ne.symm hk]

/-- A message for a flow that is not booked: the run says nothing new. -/
theorem Agrees.apply_of_not_booked (h : Agrees ports c ops) (flow : Flow) (hf : FlowInRange f)
    (hplace : bookedAt f.toFlowTuple ops = none) :
    Agrees ports (c.applyOverlayMessage (overlayMsg f pps pauseDuration) now flow)
      (.apply f pps pauseDuration now flow :: ops) := by
  have hlook : c.flowBook.lookup
      (extractInto (overlayMsg f pps pauseDuration) flow).1.toFlowTuple = none := by
    rw [extractInto_overlayMsg hf, h.lookup_eq, entryOf, hplace]
    rfl
  rw [applyOverlayMessage_of_none hlook]
  refine ⟨fun k => ?_, fun port d qid => ?_, h.accepts⟩
  · rw [h.lookup_eq]
    by_cases hk : f.toFlowTuple = k
    · subst hk
      simp [entryOf, bookedAt, hplace]
    · simp [entryOf, bookedAt, pausedUntil, hk]
  · rw [h.limit_eq]
    simp [limitAt, hplace]

/-- A message for a booked flow: its pause, and the limits of its queue. -/
theorem Agrees.apply_of_booked {place : ℕ × ℕ} (h : Agrees ports c ops) (flow : Flow)
    (hr : (BookOp.apply f pps pauseDuration now flow).InRange)
    (hplace : bookedAt f.toFlowTuple ops = some place) :
    Agrees ports (c.applyOverlayMessage (overlayMsg f pps pauseDuration) now flow)
      (.apply f pps pauseDuration now flow :: ops) := by
  obtain ⟨hf, hpps, hend⟩ := hr
  have hextract : (extractInto (overlayMsg f pps pauseDuration) flow).1 = f :=
    extractInto_overlayMsg hf flow
  obtain ⟨entry, hentry⟩ : ∃ entry, entryOf f.toFlowTuple ops = some entry :=
    ⟨_, by rw [entryOf, hplace]; rfl⟩
  have hlook : c.flowBook.lookup
      (extractInto (overlayMsg f pps pauseDuration) flow).1.toFlowTuple = some entry := by
    rw [hextract, h.lookup_eq, hentry]
  refine ⟨fun k => ?_, fun port d qid => ?_, ?_⟩
  · have hpause : wadd 64 (overlayMsg f pps pauseDuration).pauseDuration now =
        now + pauseDuration := by
      rw [Nat.add_comm]
      exact wadd_of_lt (by simpa [overlayMsg, Nat.add_comm] using hend)
    rw [lookup_applyOverlayMessage hlook, entryOf_apply hentry, h.lookup_eq, hextract, hpause]
  · have hwhere : (port = entry.port ∧ qid = entry.qid) ↔
        bookedAt f.toFlowTuple ops = some (port, qid) := by
      rw [entryOf, hplace, Option.map_some, Option.some.injEq] at hentry
      rw [hplace, ← hentry, Option.some.injEq, Prod.ext_iff]
      exact and_congr eq_comm eq_comm
    rw [limit_applyOverlayMessage hlook, h.limit_eq, limitedRate_overlayMsg hpps]
    simp only [limitAt, hwhere]
    split_ifs <;> rfl
  · simp only [applyOverlayMessage, hlook]
    exact h.accepts.insert _ _

/-- Applying a message. -/
theorem Agrees.apply (h : Agrees ports c ops) (flow : Flow)
    (hr : (BookOp.apply f pps pauseDuration now flow).InRange) :
    Agrees ports (c.applyOverlayMessage (overlayMsg f pps pauseDuration) now flow)
      (.apply f pps pauseDuration now flow :: ops) := by
  cases hplace : bookedAt f.toFlowTuple ops with
  | none => exact h.apply_of_not_booked flow hr.1 hplace
  | some place => exact h.apply_of_booked flow hr hplace

end Apply

/-- A call keeps the agreement. -/
theorem Agrees.step {op : BookOp} (h : Agrees ports c ops) (hop : op.InRange) :
    Agrees ports (c.step op) (op :: ops) := by
  cases op with
  | fillBook port qid f => exact h.fillBook port qid f
  | apply f pps pauseDuration now flow => exact h.apply flow hop

theorem agrees_after (ports : ℕ → OverlayPort) (hops : ∀ op ∈ ops, op.InRange) :
    Agrees ports ((init ports).after ops) ops := by
  induction ops with
  | nil => exact agrees_init ports
  | cons op ops ih =>
    rw [List.forall_mem_cons] at hops
    exact (ih hops.2).step hops.1

/-- A call leaves the entries of the flows that it is not about. -/
theorem getOverlayEntry_step {op : BookOp} (hop : op.InRange)
    (hne : op.target.equalTo f = false) :
    (c.step op).getOverlayEntry f = c.getOverlayEntry f := by
  have hkey : f.toFlowTuple ≠ op.target.toFlowTuple := fun heq => by
    rw [Flow.equalTo_iff.2 heq.symm] at hne
    cases hne
  cases op with
  | fillBook port qid g =>
    have hkey : f.toFlowTuple ≠ g.toFlowTuple := hkey
    exact lookup_fillBook_of_ne hkey
  | apply g pps pauseDuration now flow =>
    have hkey : f.toFlowTuple ≠ g.toFlowTuple := hkey
    have hextract : (extractInto (overlayMsg g pps pauseDuration) flow).1 = g :=
      extractInto_overlayMsg hop.1 flow
    rw [OverlayCtrl.step]
    cases hlook : c.flowBook.lookup
        (extractInto (overlayMsg g pps pauseDuration) flow).1.toFlowTuple with
    | none => rw [applyOverlayMessage_of_none hlook]
    | some entry =>
      rw [hextract] at hlook
      rw [getOverlayEntry, lookup_applyOverlayMessage (hextract.symm ▸ hlook), hextract,
        if_neg hkey, getOverlayEntry]

/-- **The store law of the book.**  After every run, the entry of a flow holds the port and the
queue of its last `FillBook`, and the end of the pause of the last message since it was first
booked; `FillBook` and `getOverlayEntry` report that.  The limits of a queue are those of the last
message for a flow booked there, and otherwise as they were.  A call changes no entry but that of
the flow it is about. -/
theorem store_law (ports : ℕ → OverlayPort) (hops : ∀ op ∈ ops, op.InRange) :
    (∀ f : Flow, ((init ports).after ops).getOverlayEntry f =
      (bookedAt f.toFlowTuple ops).map fun place =>
        { newEntry place.1 place.2 with pauseUntilTs := pausedUntil f.toFlowTuple ops }) ∧
    (∀ (f : Flow) port qid, (((init ports).after ops).fillBook port qid f).2 =
      pausedUntil f.toFlowTuple ops) ∧
    (∀ port d qid, (((init ports).after ops).ports port).limiter.limit (d, qid) =
      (limitAt port qid ops).getD ((ports port).limiter.limit (d, qid))) ∧
    ∀ (op : BookOp) (f : Flow), op.InRange → op.target.equalTo f = false →
      (((init ports).after ops).step op).getOverlayEntry f =
        ((init ports).after ops).getOverlayEntry f := by
  have h := agrees_after ports hops
  refine ⟨fun f => h.lookup_eq _, fun f port qid => ?_, h.limit_eq,
    fun op f hop hne => getOverlayEntry_step hop hne⟩
  rw [snd_fillBook, getOverlayEntry, h.lookup_eq, entryOf]
  cases hplace : bookedAt f.toFlowTuple ops with
  | none => rw [pausedUntil_of_not_booked hplace]; rfl
  | some place => rfl

/-- A flow that is booked at one queue, paused, and then booked at another. -/
def movedFlow : List BookOp :=
  [.fillBook 1 2 default, .apply default 10 5 100 default, .fillBook 0 3 default]

/-- The entry follows the flow, and the limit stays at the queue where the flow was. -/
theorem store_law_moved_flow :
    (∀ op ∈ movedFlow, op.InRange) ∧
    ((init fun _ => newPort .nic).after movedFlow).getOverlayEntry default =
      some ⟨1, 2, false, 105, 32⟩ ∧
    (((init fun _ => newPort .nic).after movedFlow).ports 0).limiter.limit (.inc, 3) = 32 ∧
    (((init fun _ => newPort .nic).after movedFlow).ports 1).limiter.limit (.inc, 2) = 0 := by
  have hops : ∀ op ∈ movedFlow, op.InRange := by
    intro op hop
    simp only [movedFlow, List.mem_cons, List.not_mem_nil, or_false] at hop
    rcases hop with rfl | rfl | rfl
    · trivial
    · exact ⟨flowInRange_default, by decide, by decide⟩
    · trivial
  obtain ⟨hentry, -, hlimit, -⟩ := store_law (fun _ => newPort .nic) hops
  exact ⟨hops, (hentry default).trans (by decide), (hlimit 0 .inc 3).trans (by decide),
    (hlimit 1 .inc 2).trans (by decide)⟩

end OverlayCtrl

end Backdraft

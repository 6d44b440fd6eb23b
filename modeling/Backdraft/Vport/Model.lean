import Backdraft.Lib.Cycle
import Backdraft.Llring

/-!
# The extendable virtual port: data and operations

`lib/bd_vport/vport.c` and `llring_pool.c`.  A queue of a vport is a circular list of `llring`
segments (`struct llr_seg`) with two cursors, the writer's and the reader's.  The writer hops to
the next segment when its own is full and the next one is empty; the reader extends the list with
a fresh segment of the pool when the queue is nearly full, and hops while packets are left.

* `VportBar`: the shared memory of a vport, its queue handlers, its pool and the segments;
* `newVport`, `newVportDefault`: `_new_vport` and `new_vport`;
* `sendPacketsVport`, `recvPacketsVport`: the two data operations, at either endpoint;
* `World`, `World.step`: a vport with the record of what its queues accepted and delivered.

Segments are named by their number in the pool's memory.  `new_llr_pool` cuts this memory into
pieces of `bytesPerLlrSeg` bytes, which for rings of two or four slots is less than a segment
takes: the first two slots of a ring are then the `list_head` of the following segment, and a
write to one is a write to the other (`syncLinks`, `syncSlots`).  What lies outside the pool is
not modelled; reading a segment there is the result `wildPointer`.  The rate statistics, which
the active code does not read, are left out.  `rte_stack` is a stack.  The two `goto` loops are
given a number of rounds; running out of them is the result `noResult`.
-/

namespace Backdraft

open Word

/-- How a call can fail to return. -/
inductive Fault
  /-- `assert(seg != NULL)` failed -/
  | segNull
  /-- a segment outside the pool was accessed -/
  | wildPointer
  /-- the loop was not left within the given number of rounds -/
  | noResult
  deriving DecidableEq

/-- `struct llr_seg`: the two fields of its `list_head`, and its ring. -/
structure LlrSeg (α : Type) where
  next : ℕ
  prev : ℕ
  ring : Llring α

/-- `struct llring_pool`. -/
structure LlringPool where
  ptrStack : List ℕ
  numLlrings : ℕ
  llrSize : ℕ

/-- `struct queue_handler`. -/
structure QueueHandler where
  readerHead : ℕ
  writerHead : ℕ
  totalSize : ℕ
  enqueuePkts : ℕ
  dequeuePkts : ℕ
  thOver : ℕ
  thGoal : ℕ

/-- `enum queue_direction`. -/
inductive QueueDirection
  | inc
  | out
  deriving DecidableEq

/-- `struct vport_bar`, with the segments it reaches. -/
structure VportBar (α : Type) where
  numIncQ : ℕ
  numOutQ : ℕ
  queues : QueueDirection → ℕ → QueueHandler
  pool : LlringPool
  segs : ℕ → LlrSeg α

/-- `SLOTS_PER_LLRING`. -/
def slotsPerLlring : ℕ := 64

/-- `QUEUE_LENGTH_UPPER_BOUND`. -/
def queueLengthUpperBound : ℕ := 4096

variable {α : Type}

/-! ### The layout of the pool -/

/-- `offsetof(struct llr_seg, ring) + offsetof(struct llring, ring) + 8 * j`: slot `j` of the ring
of a segment.  `struct llring` is aligned to 64 bytes and takes 256. -/
def slotOffset (j : ℕ) : ℕ := 64 + 256 + 8 * j

/-- `llring_bytes_with_slots`. -/
def llringBytesWithSlots (slots : ℕ) : ℕ := 256 + 8 * slots

/-- `ROUND_TO_64`. -/
def roundTo64 (x : ℕ) : ℕ := (x + 64) / 64 * 64

/-- `bytes_per_llr_seg` in `new_llr_pool`: a `struct list_head` takes 16 bytes. -/
def bytesPerLlrSeg (countSlots : ℕ) : ℕ := roundTo64 (llringBytesWithSlots countSlots + 16)

/-- A segment reaches into the one after it. -/
def segsOverlap (countSlots : ℕ) : Bool := bytesPerLlrSeg countSlots < slotOffset countSlots

/-- Values that are pointers; `default` is the null pointer. -/
class Pointer (α : Type) extends Inhabited α where
  addr : α → ℕ
  ofAddr : ℕ → α

instance : Pointer ℕ where
  addr := id
  ofAddr := id

/-! ### Segment lists (`list.h`) -/

/-- Write the segment `s`. -/
def setSeg (segs : ℕ → LlrSeg α) (s : ℕ) (v : LlrSeg α) : ℕ → LlrSeg α :=
  fun t => if t = s then v else segs t

/-- `s->next = v`. -/
def setNext (segs : ℕ → LlrSeg α) (s v : ℕ) : ℕ → LlrSeg α :=
  setSeg segs s { segs s with next := v }

/-- `s->prev = v`. -/
def setPrev (segs : ℕ → LlrSeg α) (s v : ℕ) : ℕ → LlrSeg α :=
  setSeg segs s { segs s with prev := v }

/-- Write the ring of the segment `s`. -/
def setRing (segs : ℕ → LlrSeg α) (s : ℕ) (ring : Llring α) : ℕ → LlrSeg α :=
  setSeg segs s { segs s with ring := ring }

/-- `INIT_LIST_HEAD`. -/
def initListHead (segs : ℕ → LlrSeg α) (s : ℕ) : ℕ → LlrSeg α :=
  setPrev (setNext segs s s) s s

/-- `__list_add`. -/
def listAdd (segs : ℕ → LlrSeg α) (new prev next : ℕ) : ℕ → LlrSeg α :=
  setNext (setPrev (setNext (setPrev segs next new) new next) new prev) prev new

/-- `list_add_tail`: insert `new` before `head`. -/
def listAddTail (segs : ℕ → LlrSeg α) (new head : ℕ) : ℕ → LlrSeg α :=
  listAdd segs new (segs head).prev head

/-! ### Writes to the pool's memory -/

section Memory

variable [Pointer α]

/-- After a write to the ring of the segment `s`: its first two slots may be the links of the
segment after it. -/
def syncLinks (llrSize : ℕ) (segs : ℕ → LlrSeg α) (s : ℕ) : ℕ → LlrSeg α :=
  if segsOverlap llrSize then
    setSeg segs (s + 1)
      { segs (s + 1) with
        next := Pointer.addr ((segs s).ring.ring.getD 0 default)
        prev := Pointer.addr ((segs s).ring.ring.getD 1 default) }
  else segs

/-- After a write to the links of a segment: they may be the first two slots of the ring of the
segment before it. -/
def syncSlots (llrSize : ℕ) (segs : ℕ → LlrSeg α) : ℕ → ℕ → LlrSeg α
  | 0 => segs
  | s + 1 =>
    if segsOverlap llrSize then
      setRing segs s
        { (segs s).ring with
          ring := ((segs s).ring.ring.set 0 (Pointer.ofAddr (segs (s + 1)).next)).set 1
            (Pointer.ofAddr (segs (s + 1)).prev) }
    else segs

/-- A ring operation on the segment `s` that leaves its ring as `ring`. -/
def writeRing (llrSize : ℕ) (segs : ℕ → LlrSeg α) (s : ℕ) (ring : Llring α) : ℕ → LlrSeg α :=
  syncLinks llrSize (setRing segs s ring) s

/-- `INIT_LIST_HEAD` in the pool's memory. -/
def initLinks (llrSize : ℕ) (segs : ℕ → LlrSeg α) (s : ℕ) : ℕ → LlrSeg α :=
  syncSlots llrSize (initListHead segs s) s

/-- `list_add_tail` in the pool's memory. -/
def addLinks (llrSize : ℕ) (segs : ℕ → LlrSeg α) (new head : ℕ) : ℕ → LlrSeg α :=
  [head, new, (segs head).prev].foldl (syncSlots llrSize) (listAddTail segs new head)

end Memory

/-! ### The segment pool -/

/-- `new_llr_pool`; `none` when one of its assertions fails. -/
def newLlrPool [Inhabited α] (numLlr countSlots : ℕ) : Option (LlringPool × (ℕ → LlrSeg α)) :=
  match Llring.init countSlots with
  | none => none
  | some llr =>
    let llr := llr.setWaterMark ((countSlots >>> 3) * 7)
    if 0 < numLlr ∧ llr.freeCount = 0 then none
    else some
      ({ ptrStack := (List.range numLlr).reverse
         numLlrings := numLlr
         llrSize := countSlots },
       fun _ => { next := 0, prev := 0, ring := llr })

/-- `pull_llr`; `none` is the null pointer. -/
def pullLlr (pool : LlringPool) : Option ℕ × LlringPool :=
  match pool.ptrStack with
  | [] => (none, pool)
  | seg :: rest => (some seg, { pool with ptrStack := rest })

/-! ### Creating a vport -/

/-- Write the entry of queue `qid` in direction `dir`. -/
def setAt {β : Type} (f : QueueDirection → ℕ → β) (dir : QueueDirection) (qid : ℕ) (v : β) :
    QueueDirection → ℕ → β :=
  fun d i => if d = dir ∧ i = qid then v else f d i

/-- A handler in zeroed memory. -/
def zeroHandler : QueueHandler := ⟨0, 0, 0, 0, 0, 0, 0⟩

/-- One round of the loop of `_new_vport` over the queues. -/
def initQueue [Pointer α] (qSize : ℕ) (bar : VportBar α) (slot : QueueDirection × ℕ) :
    Option (VportBar α) :=
  match pullLlr bar.pool with
  | (none, _) => none
  | (some seg, pool) => some
      { bar with
        pool := pool
        segs := initLinks pool.llrSize bar.segs seg
        queues := setAt bar.queues slot.1 slot.2
          { bar.queues slot.1 slot.2 with
            readerHead := seg
            writerHead := seg
            totalSize := qSize
            thOver := qSize * 7 / 8
            thGoal := qSize / 8 } }

/-- The queues of a vport, in the order in which `_new_vport` visits them. -/
def allQueues (numIncQ numOutQ : ℕ) : List (QueueDirection × ℕ) :=
  (List.range numIncQ).map (fun i => (.inc, i)) ++ (List.range numOutQ).map (fun i => (.out, i))

/-- `_new_vport`. -/
def newVport [Pointer α] (numIncQ numOutQ poolSize qSize : ℕ) : Option (VportBar α) :=
  match newLlrPool poolSize qSize with
  | none => none
  | some (pool, segs) =>
    (allQueues numIncQ numOutQ).foldlM (initQueue qSize)
      { numIncQ := numIncQ
        numOutQ := numOutQ
        queues := fun _ _ => zeroHandler
        pool := pool
        segs := segs }

/-- `new_vport`: the pool size is a `uint16_t`; `none` also for the null pointer it returns when
that wraps below the number of queues. -/
def newVportDefault [Pointer α] (numIncQ numOutQ : ℕ) : Option (VportBar α) :=
  let poolSize := ((numIncQ + numOutQ) * 3 / 2 + 64) % 2 ^ 16
  if poolSize < numIncQ + numOutQ then none
  else newVport numIncQ numOutQ poolSize slotsPerLlring

/-! ### Sending and receiving -/

/-- `_count_pkts_in_q`. -/
def countPktsInQ (q : QueueHandler) : ℕ := wsub 32 q.enqueuePkts q.dequeuePkts

/-- The queue direction an endpoint sends on (`main` is `port->_main`). -/
def sendDir (main : Bool) : QueueDirection := if main then .out else .inc

/-- The queue direction an endpoint receives on. -/
def recvDir (main : Bool) : QueueDirection := if main then .inc else .out

/-- The `send_pkts` loop: segments, handler and number of packets enqueued. -/
def sendPkts [Pointer α] (pool : LlringPool) (segs : ℕ → LlrSeg α) (q : QueueHandler) (seg : ℕ)
    (pkts : List α) (enqueued : ℕ) : ℕ → Except Fault ((ℕ → LlrSeg α) × QueueHandler × ℕ)
  | 0 => .error .noResult
  | rounds + 1 =>
    let res := (segs seg).ring.spEnqueueBurst pkts
    let ret := res.2 &&& 0x7fffffff
    let segs := writeRing pool.llrSize segs seg res.1
    let q := { q with enqueuePkts := wadd 32 q.enqueuePkts ret }
    let next := (segs seg).next
    if ret < pkts.length ∧ next ≠ seg then
      if next < pool.numLlrings then
        if (segs next).ring.count = 0 then
          sendPkts pool segs { q with writerHead := next } next (pkts.drop ret) (enqueued + ret)
            rounds
        else .ok (segs, q, enqueued + ret)
      else .error .wildPointer
    else .ok (segs, q, enqueued + ret)

/-- `send_packets_vport_with_bp`; the last component is `*pause_duration`. -/
def sendPacketsVportWithBp [Pointer α] (bar : VportBar α) (main : Bool) (qid : ℕ) (pkts : List α) :
    Except Fault (VportBar α × ℕ × ℕ) :=
  let q := bar.queues (sendDir main) qid
  match sendPkts bar.pool bar.segs q q.writerHead pkts 0 (pkts.length + 2) with
  | .error e => .error e
  | .ok (segs, q, enqueued) =>
    .ok ({ bar with segs := segs, queues := setAt bar.queues (sendDir main) qid q }, enqueued, 0)

/-- `send_packets_vport`. -/
def sendPacketsVport [Pointer α] (bar : VportBar α) (main : Bool) (qid : ℕ) (pkts : List α) :
    Except Fault (VportBar α × ℕ) :=
  match sendPacketsVportWithBp bar main qid pkts with
  | .error e => .error e
  | .ok (bar, enqueued, _) => .ok (bar, enqueued)

/-- The water mark test of `recv_packets_vport`. -/
def needsExtension (q : QueueHandler) : Bool :=
  countPktsInQ q > q.thOver ∧ q.totalSize < queueLengthUpperBound

/-- The extension of a queue at the start of `recv_packets_vport`. -/
def extendQueue [Pointer α] (bar : VportBar α) (dir : QueueDirection) (qid : ℕ) :
    Except Fault (VportBar α) :=
  let q := bar.queues dir qid
  if needsExtension q then
    match pullLlr bar.pool with
    | (none, _) => .error .segNull
    | (some seg, pool) =>
      if (bar.segs q.readerHead).prev < pool.numLlrings then
        let totalSize := q.totalSize + pool.llrSize
        .ok
          { bar with
            pool := pool
            segs := addLinks pool.llrSize bar.segs seg q.readerHead
            queues := setAt bar.queues dir qid
              { q with
                totalSize := totalSize
                thGoal := totalSize / 10
                thOver := totalSize * 7 / 8 } }
      else .error .wildPointer
  else .ok bar

/-- The `read_pkts` loop: segments, handler and the packets dequeued. -/
def readPkts [Pointer α] (pool : LlringPool) (segs : ℕ → LlrSeg α) (q : QueueHandler)
    (seg cnt : ℕ) (dequeued : List α) :
    ℕ → Except Fault ((ℕ → LlrSeg α) × QueueHandler × List α)
  | 0 => .error .noResult
  | rounds + 1 =>
    let res := (segs seg).ring.scDequeueBurst cnt
    let ret := res.2.2
    let segs := writeRing pool.llrSize segs seg res.1
    let q := { q with dequeuePkts := wadd 32 q.dequeuePkts ret }
    let next := (segs seg).next
    if ret < cnt ∧ countPktsInQ q > 0 then
      if next < pool.numLlrings then
        readPkts pool segs { q with readerHead := next } next (cnt - ret) (dequeued ++ res.2.1)
          rounds
      else .error .wildPointer
    else .ok (segs, q, dequeued ++ res.2.1)

/-- `recv_packets_vport`: the packets written to `pkts`. -/
def recvPacketsVport [Pointer α] (bar : VportBar α) (main : Bool) (qid cnt : ℕ) :
    Except Fault (VportBar α × List α) :=
  match extendQueue bar (recvDir main) qid with
  | .error e => .error e
  | .ok bar =>
    let q := bar.queues (recvDir main) qid
    match readPkts bar.pool bar.segs q q.readerHead cnt [] (bar.pool.numLlrings + 1) with
    | .error e => .error e
    | .ok (segs, q, pkts) =>
      .ok ({ bar with segs := segs, queues := setAt bar.queues (recvDir main) qid q }, pkts)

/-! ### A vport in use -/

/-- The queues of one direction. -/
def VportBar.numQueues (bar : VportBar α) : QueueDirection → ℕ
  | .inc => bar.numIncQ
  | .out => bar.numOutQ

/-- The segments of a queue, from the reader's on. -/
def segmentsOf (bar : VportBar α) (dir : QueueDirection) (qid : ℕ) : List ℕ :=
  Cycle.walk (fun s => (bar.segs s).next) (bar.queues dir qid).readerHead bar.pool.numLlrings
    (bar.queues dir qid).readerHead

/-- The packets of the segments `l`, in order. -/
def packetsIn [Inhabited α] (segs : ℕ → LlrSeg α) (l : List ℕ) : List α :=
  l.flatMap fun s => (segs s).ring.contents

/-- The packets stored in a queue, from the reader's segment on. -/
def storedIn [Inhabited α] (bar : VportBar α) (dir : QueueDirection) (qid : ℕ) : List α :=
  packetsIn bar.segs (segmentsOf bar dir qid)

/-- A vport and what its queues have accepted and delivered so far, in order. -/
structure World (α : Type) where
  bar : VportBar α
  accepted : QueueDirection → ℕ → List α
  delivered : QueueDirection → ℕ → List α

/-- A call at the endpoint `main`. -/
inductive Call (α : Type)
  | send (main : Bool) (qid : ℕ) (pkts : List α)
  | recv (main : Bool) (qid cnt : ℕ)

/-- The queue a call works on. -/
def Call.queue : Call α → QueueDirection × ℕ
  | .send main qid _ => (sendDir main, qid)
  | .recv main qid _ => (recvDir main, qid)

/-- Append to the record of one queue. -/
def appendAt (log : QueueDirection → ℕ → List α) (dir : QueueDirection) (qid : ℕ) (l : List α) :
    QueueDirection → ℕ → List α :=
  setAt log dir qid (log dir qid ++ l)

/-- One atomic call. -/
def World.step [Pointer α] (w : World α) : Call α → Except Fault (World α)
  | .send main qid pkts =>
    match sendPacketsVport w.bar main qid pkts with
    | .error e => .error e
    | .ok (bar, n) =>
      .ok { w with bar := bar, accepted := appendAt w.accepted (sendDir main) qid (pkts.take n) }
  | .recv main qid cnt =>
    match recvPacketsVport w.bar main qid cnt with
    | .error e => .error e
    | .ok (bar, pkts) =>
      .ok { w with bar := bar, delivered := appendAt w.delivered (recvDir main) qid pkts }

/-- A vport before its first call. -/
def World.start (bar : VportBar α) : World α := ⟨bar, fun _ _ => [], fun _ _ => []⟩

end Backdraft

import Backdraft.Llring
import Backdraft.Lib.Reservation
import Backdraft.Lib.Run

/-!
# The ring shared by threads

`__llring_mp_do_enqueue`, `__llring_sp_do_enqueue`, `__llring_mc_do_dequeue` and
`__llring_sc_do_dequeue` of `llring.h`, cut into their accesses to the shared memory: the two reads
that give the number of free (or stored) entries, the compare-and-set of the head, the copies of the
entries one by one, and the wait for the tail.  Each is a step of its own, but for the end of the
wait: the read that finds the tail where it should be and the store to the tail are one step, since
no other call may move the tail in between.  Any number of threads take such steps in any order.

* `Stage`, `EnqueueCall`, `DequeueCall`, `Pc`: where a thread is in a call, with its variables;
* `SharedRing`, `step`: the shared memory and the threads;
* `orderly`: what the steps of a run must meet.

`Mode` says which of the two versions each side uses; in the single-producer version the head is
stored without a comparison and nobody waits for the tail.  The loads and stores are taken in the
order of the program, as on a machine with total store order.

The fields `reserved`, `published`, `taken`, `freed` count what the four indices have run through
since the ring was made, `accepted` and `granted` are the objects stored and given out so far, and
`mark` and `want` of a call note the count and the objects at its compare-and-set.  No step reads
them.
-/

namespace Backdraft

open Word

/-- Whether the single-producer and the single-consumer versions are used. -/
structure Mode where
  sp : Bool
  sc : Bool
  deriving DecidableEq

/-- The next access of a call to the shared memory. -/
inductive Stage
  /-- read the head of the own side -/
  | head
  /-- read the tail of the other side -/
  | other
  /-- move the head -/
  | cas
  /-- copy the entry `i` -/
  | copy (i : ℕ)
  /-- wait for the tail, and move it -/
  | tail
  deriving DecidableEq

/-- The variables of an enqueue call. -/
structure EnqueueCall (α : Type) where
  objs : List α
  behavior : QueueBehavior
  prodHead : ℕ
  freeEntries : ℕ
  n : ℕ
  mark : ℕ
  deriving DecidableEq

/-- The variables of a dequeue call. -/
structure DequeueCall (α : Type) where
  max : ℕ
  behavior : QueueBehavior
  consHead : ℕ
  n : ℕ
  objTable : List α
  mark : ℕ
  want : List α
  deriving DecidableEq

/-- Where a thread is. -/
inductive Pc (α : Type)
  | ready
  | enqueue (st : Stage) (c : EnqueueCall α)
  | dequeue (st : Stage) (c : DequeueCall α)
  /-- an enqueue call has stored the first `n` of its objects and returned `ret` -/
  | enqueued (behavior : QueueBehavior) (ret n : ℕ)
  /-- a dequeue call has returned `ret`, with `objs` in its table -/
  | dequeued (behavior : QueueBehavior) (ret : ℕ) (objs want : List α)
  deriving DecidableEq

namespace Pc

variable {α : Type}

/-- The thread is in no call. -/
def idle : Pc α → Bool
  | enqueue _ _ => false
  | dequeue _ _ => false
  | _ => true

def producing : Pc α → Bool
  | enqueue _ _ => true
  | _ => false

def consuming : Pc α → Bool
  | dequeue _ _ => true
  | _ => false

/-- The indices that the thread has reserved and not yet published. -/
def writing : Pc α → Option (ℕ × ℕ)
  | enqueue (.copy _) c => some (c.mark, c.n)
  | enqueue .tail c => some (c.mark, c.n)
  | _ => none

/-- The indices that the thread has taken and not yet freed. -/
def reading : Pc α → Option (ℕ × ℕ)
  | dequeue (.copy _) c => some (c.mark, c.n)
  | dequeue .tail c => some (c.mark, c.n)
  | _ => none

end Pc

/-- A ring and the threads that use it. -/
structure SharedRing (τ α : Type) where
  r : Llring α
  pc : τ → Pc α
  reserved : ℕ
  published : ℕ
  taken : ℕ
  freed : ℕ
  accepted : List α
  granted : List α

namespace SharedRing

variable {τ α : Type} [DecidableEq τ]

/-- The place of entry `i` of `n` from the index `idx` on, in the loops of `LLRING_ENQUEUE_PTRS` and
`LLRING_DEQUEUE_PTRS`. -/
def place (slots idx n i : ℕ) : ℕ :=
  if idx + n < slots then idx + i else if idx + i < slots then idx + i else idx + i - slots

/-- The objects that are published and not taken. -/
def queue (s : SharedRing τ α) : List α := s.accepted.drop s.granted.length

/-- Put the thread `t` at `p`. -/
def goto (s : SharedRing τ α) (t : τ) (p : Pc α) : SharedRing τ α :=
  { s with pc := Function.update s.pc t p }

/-- The result of an enqueue call that has stored its entries. -/
def enqueueRet (r : Llring α) (c : EnqueueCall α) : ℕ :=
  if wadd 32 (wsub 32 (wadd 32 r.mask 1) c.freeEntries) c.n > r.watermark then
    match c.behavior with
    | .queueFixed => Llring.errQuot
    | .queueVariable => c.n ||| Llring.quotExceed
  else
    match c.behavior with
    | .queueFixed => 0
    | .queueVariable => c.n

variable [Inhabited α]

/-- The next access of an enqueue call. -/
def enqueueStep (mode : Mode) (s : SharedRing τ α) (t : τ) (c : EnqueueCall α) :
    Stage → SharedRing τ α
  | .head => s.goto t (.enqueue .other { c with prodHead := s.r.prodHead, mark := s.reserved })
  | .other =>
    let freeEntries := wsub 32 (wadd 32 s.r.mask s.r.consTail) c.prodHead
    if c.objs.length > freeEntries ∧ c.behavior = .queueFixed then
      s.goto t (.enqueued c.behavior Llring.errNobuf 0)
    else if c.objs.length > freeEntries ∧ freeEntries = 0 then
      s.goto t (.enqueued c.behavior 0 0)
    else
      let n := if c.objs.length > freeEntries then freeEntries else c.objs.length
      s.goto t (.enqueue .cas { c with freeEntries := freeEntries, n := n })
  | .cas =>
    if mode.sp ∨ s.r.prodHead = c.prodHead then
      { s.goto t (.enqueue (.copy 0) { c with mark := s.reserved }) with
        r := { s.r with prodHead := wadd 32 c.prodHead c.n }
        reserved := s.reserved + c.n }
    else s.goto t (.enqueue .head c)
  | .copy i =>
    if i < c.n then
      { s.goto t (.enqueue (.copy (i + 1)) c) with
        r := { s.r with
          ring := s.r.ring.set (place s.r.slots (c.prodHead &&& s.r.mask) c.n i)
            (c.objs.getD i default) } }
    else s.goto t (.enqueue .tail c)
  | .tail =>
    if mode.sp ∨ s.r.prodTail = c.prodHead then
      { s.goto t (.enqueued c.behavior (enqueueRet s.r c) c.n) with
        r := { s.r with prodTail := wadd 32 c.prodHead c.n }
        published := s.published + c.n
        accepted := s.accepted ++ c.objs.take c.n }
    else s

/-- The next access of a dequeue call. -/
def dequeueStep (mode : Mode) (s : SharedRing τ α) (t : τ) (c : DequeueCall α) :
    Stage → SharedRing τ α
  | .head => s.goto t (.dequeue .other { c with consHead := s.r.consHead, mark := s.taken })
  | .other =>
    let entries := wsub 32 s.r.prodTail c.consHead
    if c.max > entries ∧ c.behavior = .queueFixed then
      s.goto t (.dequeued c.behavior Llring.errNoent [] [])
    else if c.max > entries ∧ entries = 0 then s.goto t (.dequeued c.behavior 0 [] [])
    else
      let n := if c.max > entries then entries else c.max
      s.goto t (.dequeue .cas { c with n := n })
  | .cas =>
    if mode.sc ∨ s.r.consHead = c.consHead then
      let want := s.queue.take c.n
      { s.goto t (.dequeue (.copy 0) { c with objTable := [], mark := s.taken, want := want }) with
        r := { s.r with consHead := wadd 32 c.consHead c.n }
        taken := s.taken + c.n
        granted := s.granted ++ want }
    else s.goto t (.dequeue .head c)
  | .copy i =>
    if i < c.n then
      let obj := s.r.ring.getD (place s.r.slots (c.consHead &&& s.r.mask) c.n i) default
      s.goto t (.dequeue (.copy (i + 1)) { c with objTable := c.objTable ++ [obj] })
    else s.goto t (.dequeue .tail c)
  | .tail =>
    if mode.sc ∨ s.r.consTail = c.consHead then
      let ret := match c.behavior with
        | .queueFixed => 0
        | .queueVariable => c.n
      { s.goto t (.dequeued c.behavior ret c.objTable c.want) with
        r := { s.r with consTail := wadd 32 c.consHead c.n }
        freed := s.freed + c.n }
    else s

/-- What a thread can do: call one of the operations, or go on with its call. -/
inductive Action (α : Type)
  | enqueue (objs : List α) (behavior : QueueBehavior)
  | dequeue (n : ℕ) (behavior : QueueBehavior)
  | next

/-- One step of the thread `t`; a thread makes one call at a time. -/
def step (mode : Mode) (s : SharedRing τ α) (i : τ × Action α) : Except Unit (SharedRing τ α) :=
  match i.2, s.pc i.1 with
  | .next, .enqueue st c => .ok (s.enqueueStep mode i.1 c st)
  | .next, .dequeue st c => .ok (s.dequeueStep mode i.1 c st)
  | .next, _ => .error ()
  | .enqueue objs b, p =>
    if p.idle then .ok (s.goto i.1 (.enqueue .head ⟨objs, b, 0, 0, 0, 0⟩)) else .error ()
  | .dequeue n b, p =>
    if p.idle then .ok (s.goto i.1 (.dequeue .head ⟨n, b, 0, 0, [], 0, []⟩)) else .error ()

/-- Before its compare-and-set the call has not been overtaken by nearly `2 ^ 32` entries, so that
an index which it finds unchanged has not moved. -/
def timely (s : SharedRing τ α) (mark : ℕ) : Bool := decide (s.reserved + s.r.slots ≤ mark + 2 ^ 32)

/-- What the steps of a run must meet: a call has something to do, the single-producer and the
single-consumer versions are called by one thread at a time, and calls are timely.  A call for no
objects moves no head, and in the versions for several threads it can wait for ever, for a tail that
has gone on. -/
def orderly [Fintype τ] (mode : Mode) (s : SharedRing τ α) (i : τ × Action α) : Bool :=
  match i.2 with
  | .enqueue objs _ => !objs.isEmpty && (!mode.sp || decide (∀ u, (s.pc u).producing = false))
  | .dequeue n _ => decide (0 < n) && (!mode.sc || decide (∀ u, (s.pc u).consuming = false))
  | .next =>
    match s.pc i.1 with
    | .enqueue .other c => s.timely c.mark
    | .enqueue .cas c => s.timely c.mark
    | .dequeue .other c => s.timely c.mark
    | .dequeue .cas c => s.timely c.mark
    | _ => true

/-- A ring that `llring_init` has made, with all threads outside. -/
def start (r : Llring α) : SharedRing τ α := ⟨r, fun _ => .ready, 0, 0, 0, 0, [], []⟩

end SharedRing

end Backdraft

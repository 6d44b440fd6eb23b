import Mathlib.Data.List.Basic
import Mathlib.Logic.Function.Basic
import Backdraft.OutQueue.Staged

/-!
# One run of a task

`Task::operator()` of `core/task.cc`, with `AddToRun` and `AllocPacketBatch` of `core/task.h` and
`RunChooseModule`, `EmitPacket`, `DropPacket` and `ProcessOGates` of `core/module.h`.  The module of
the task makes a batch; the batches that modules hand on wait at the input gates they are for, those
for one gate merged where they fit, and the loop gives them to the modules of these gates until none
is left.

* `BatchPtr`: the batch of the task and those of its pool;
* `GateTable`: what the functions read of the gates;
* `TaskState`: the fields of `Task` and `Context`;
* `addToRun`, `allocPacketBatch`, `emitPacket`, `dropPacket`, `runChooseModule`, `processOGates`:
  the functions of the source;
* `Action`, `Event`, `step`: what a module may do with its batch, and the loop turn by turn.

An error is a write past the end of an array, which the source does not check in a release build.
Hooks read a batch and change nothing here; only whether a gate has hooks matters.  The results of
tasks, time, and statistics of hooks are left out, and so is `RunSplit`, which no module calls.
-/

namespace Backdraft

/-- A pointer to a batch: `init_batch`, or an entry of `pbatch_`. -/
inductive BatchPtr
  | init
  | pool (i : ℕ)
  deriving DecidableEq

/-- The output gates of the modules with the input gates they lead to, whether they have hooks, and
the module, `mergeable_` and `priority_` of the input gates. -/
structure GateTable (M I : Type*) where
  ogate : M → ℕ → Option I
  hooked : M → ℕ → Bool
  owner : I → M
  mergeable : I → Bool
  priority : I → ℕ

/-- The fields of `Task` and `Context`.  The last four lists are for the statements only: what was
sent to each input gate, what the module there got, what was to be dropped and what is freed. -/
structure TaskState (M I P : Type*) where
  heap : BatchPtr → List P
  pbatchIdx : ℕ
  igateBatch : I → Option BatchPtr
  ogateBatch : M → ℕ → Option BatchPtr
  igatesToRun : List (I × BatchPtr)
  /-- `next_gate_` and `next_batch_` -/
  next : Option (I × BatchPtr)
  deadBatch : List P
  gateWithHook : List ℕ
  gateWithoutHook : List ℕ
  silentDrops : ℕ
  deadends : M → ℕ
  sent : List (I × P)
  processed : List (I × P)
  dropped : List P
  freed : List P

/-- The arrays that may be too short. -/
inductive Overrun
  | pbatch
  | gates
  | batch
  deriving DecidableEq

/-- `MAX_PBATCH_CNT`. -/
def maxPbatchCnt : ℕ := 256

/-- What a module does in `ProcessBatch`: it emits or drops a packet, hands on its batch, which then
holds `pkts`, or hands on a batch of its own. -/
inductive Action (P : Type*)
  | emit (p : P) (ogate : ℕ)
  | drop (p : P)
  | choose (pkts : List P) (ogate : ℕ)
  | chooseNew (pkts : List P) (ogate : ℕ)

namespace TaskState

variable {M I P : Type*} [DecidableEq M] [DecidableEq I]

/-- A task that has not run. -/
def start : TaskState M I P :=
  { heap := fun _ => []
    pbatchIdx := 0
    igateBatch := fun _ => none
    ogateBatch := fun _ _ => none
    igatesToRun := []
    next := none
    deadBatch := []
    gateWithHook := []
    gateWithoutHook := []
    silentDrops := 0
    deadends := fun _ => 0
    sent := []
    processed := []
    dropped := []
    freed := [] }

/-- `set_gate_batch` for an output gate. -/
def setOgateBatch (s : TaskState M I P) (m : M) (g : ℕ) (b : Option BatchPtr) : TaskState M I P :=
  { s with ogateBatch := fun m' g' => if m' = m ∧ g' = g then b else s.ogateBatch m' g' }

/-- Set a batch and its gate as new in `igates_to_run_`. -/
def enqueue (s : TaskState M I P) (ig : I) (b : BatchPtr) : TaskState M I P :=
  { s with
    igateBatch := Function.update s.igateBatch ig (some b)
    igatesToRun := s.igatesToRun ++ [(ig, b)] }

/-- `AddToRun`. -/
def addToRun (t : GateTable M I) (s : TaskState M I P) (ig : I) (b : BatchPtr) : TaskState M I P :=
  if s.next.isNone && !t.mergeable ig then { s with next := some (ig, b) }
  else
    match s.igateBatch ig with
    | none => s.enqueue ig b
    | some ib =>
      if (s.heap ib).length + (s.heap b).length ≤ kMaxBurst then
        { s with heap := Function.update s.heap ib (s.heap ib ++ s.heap b) }
      else s.enqueue ig b

/-- `AllocPacketBatch`. -/
def allocPacketBatch (s : TaskState M I P) : Except Overrun (BatchPtr × TaskState M I P) :=
  if s.pbatchIdx < maxPbatchCnt then
    .ok (.pool s.pbatchIdx,
      { s with
        heap := Function.update s.heap (.pool s.pbatchIdx) []
        pbatchIdx := s.pbatchIdx + 1 })
  else .error .pbatch

/-- `deadend`, for packets that are freed; the batch is cleared by the caller. -/
def deadend (s : TaskState M I P) (pkts : List P) : TaskState M I P :=
  { s with silentDrops := s.silentDrops + pkts.length, freed := s.freed ++ pkts }

/-- `deadend` of `dead_batch_`. -/
def flush (s : TaskState M I P) : TaskState M I P :=
  { s.deadend s.deadBatch with deadBatch := [] }

/-- `DropPacket`. -/
def dropPacket (s : TaskState M I P) (m : M) (p : P) : TaskState M I P :=
  let s :=
    { s with
      deadBatch := s.deadBatch ++ [p]
      deadends := Function.update s.deadends m (s.deadends m + 1)
      dropped := s.dropped ++ [p] }
  if kMaxBurst ≤ s.deadBatch.length then s.flush else s

/-- The batch of the next input gate, for an output gate without hooks. -/
def shareBatch (t : GateTable M I) (s : TaskState M I P) (m : M) (g : ℕ) (ig : I) :
    Except Overrun (BatchPtr × TaskState M I P) :=
  match s.igateBatch ig with
  | some b => .ok (b, s.setOgateBatch m g (some b))
  | none =>
    s.allocPacketBatch.map fun (b, s) => (b, (s.addToRun t ig b).setOgateBatch m g (some b))

/-- The first part of `EmitPacket`: the batch for the output gate `g`, which leads to `ig`. -/
def gateBatch (t : GateTable M I) (s : TaskState M I P) (m : M) (g : ℕ) (ig : I) :
    Except Overrun (BatchPtr × TaskState M I P) :=
  match s.ogateBatch m g with
  | some b => .ok (b, s)
  | none =>
    if t.hooked m g then do
      -- a batch of its own, for the hooks
      let (b, s) ← s.allocPacketBatch
      if s.gateWithHook.length < kMaxBurst then
        .ok (b, { s.setOgateBatch m g (some b) with gateWithHook := s.gateWithHook ++ [g] })
      else .error .gates
    else do
      let (b, s) ← s.shareBatch t m g ig
      if s.gateWithoutHook.length < kMaxBurst then
        .ok (b, { s with gateWithoutHook := s.gateWithoutHook ++ [g] })
      else .error .gates

/-- The second part: a full batch is replaced. -/
def replaceFull (t : GateTable M I) (s : TaskState M I P) (m : M) (g : ℕ) (ig : I) (b : BatchPtr) :
    Except Overrun (BatchPtr × TaskState M I P) :=
  if kMaxBurst ≤ (s.heap b).length then
    if t.hooked m g then
      (s.addToRun t ig b).allocPacketBatch.map fun (b', s) => (b', s.setOgateBatch m g (some b'))
    else
      s.allocPacketBatch.map fun (b', s) => (b', (s.setOgateBatch m g (some b')).addToRun t ig b')
  else .ok (b, s)

/-- `EmitPacket`. -/
def emitPacket (t : GateTable M I) (s : TaskState M I P) (m : M) (p : P) (g : ℕ) :
    Except Overrun (TaskState M I P) :=
  match t.ogate m g with
  | none => .ok (s.dropPacket m p)
  | some ig => do
    let (b, s) ← s.gateBatch t m g ig
    let (b, s) ← s.replaceFull t m g ig b
    return { s with
      heap := Function.update s.heap b (s.heap b ++ [p])
      sent := s.sent ++ [(ig, p)] }

/-- `RunChooseModule`. -/
def runChooseModule (t : GateTable M I) (s : TaskState M I P) (m : M) (g : ℕ) (b : BatchPtr) :
    TaskState M I P :=
  if s.heap b = [] then s
  else
    match t.ogate m g with
    | none =>
      { s.deadend (s.heap b) with
        deadends := Function.update s.deadends m (s.deadends m + (s.heap b).length)
        heap := Function.update s.heap b []
        dropped := s.dropped ++ s.heap b }
    | some ig => { s with sent := s.sent ++ (s.heap b).map (ig, ·) }.addToRun t ig b

/-- The body of the first loop of `ProcessOGates`. -/
def closeOgate (t : GateTable M I) (m : M) (s : TaskState M I P) (g : ℕ) : TaskState M I P :=
  match t.ogate m g, s.ogateBatch m g with
  | some ig, some b => (s.addToRun t ig b).setOgateBatch m g none
  | _, _ => s

/-- `ProcessOGates`. -/
def processOGates (t : GateTable M I) (s : TaskState M I P) (m : M) : TaskState M I P :=
  let s := s.gateWithHook.foldl (closeOgate t m) s
  let s := s.gateWithoutHook.foldl (fun s g => s.setOgateBatch m g none) s
  { s with gateWithHook := [], gateWithoutHook := [] }

/-- A module fills a batch; `PacketBatch` has room for 32 packets. -/
def fill (s : TaskState M I P) (b : BatchPtr) (pkts : List P) : Except Overrun (TaskState M I P) :=
  if pkts.length ≤ kMaxBurst then .ok { s with heap := Function.update s.heap b pkts }
  else .error .batch

/-- A module with the batch `b` does something. -/
def act (t : GateTable M I) (m : M) (b : BatchPtr) (s : TaskState M I P) :
    Action P → Except Overrun (TaskState M I P)
  | .emit p g => s.emitPacket t m p g
  | .drop p => .ok (s.dropPacket m p)
  | .choose pkts g => do
    let s ← s.fill b pkts
    return s.runChooseModule t m g b
  | .chooseNew pkts g => do
    let (b', s) ← s.allocPacketBatch
    let s ← s.fill b' pkts
    return s.runChooseModule t m g b'

/-- `ProcessBatch` of a module, then `ProcessOGates`. -/
def processBatch (t : GateTable M I) (s : TaskState M I P) (m : M) (b : BatchPtr)
    (actions : List (Action P)) : Except Overrun (TaskState M I P) := do
  let s ← actions.foldlM (act t m b) s
  return s.processOGates t m

/-- What happens to a task: it starts and its module hands on `init_batch`; the loop makes a turn,
in which the entry `pick` is on top of `igates_to_run_` if that is asked, and the module of the gate
does `actions`; the loop has ended. -/
inductive Event (M P : Type*)
  | begin (m : M) (pkts : List P) (ogate : ℕ)
  | turn (pick : ℕ) (actions : List (Action P))
  | finish

/-- The gate and the batch to run next, and the state without them. -/
def takeNext (s : TaskState M I P) (pick : ℕ) : Option ((I × BatchPtr) × TaskState M I P) :=
  match s.next with
  | some e => some (e, { s with next := none })
  | none =>
    s.igatesToRun[pick]?.map fun e =>
      (e, { s with
        igatesToRun := s.igatesToRun.eraseIdx pick
        igateBatch := Function.update s.igateBatch e.1 none })

/-- One event; the loop makes no turn when there is no batch. -/
def step (t : GateTable M I) (s : TaskState M I P) : Event M P → Except Overrun (TaskState M I P)
  | .begin m pkts g => do
    let s ← { s with pbatchIdx := 0 }.fill .init pkts
    return s.runChooseModule t m g .init
  | .turn pick actions =>
    match s.takeNext pick with
    | none => .ok s
    | some ((ig, b), s) =>
      { s with processed := s.processed ++ (s.heap b).map (ig, ·) }.processBatch t (t.owner ig) b
        actions
  | .finish => .ok s.flush

/-- Nothing is left to run. -/
def idle (s : TaskState M I P) : Bool := s.next.isNone && s.igatesToRun.isEmpty

/-- The entry has the highest priority, that is, the lowest number. -/
def onTop (t : GateTable M I) (s : TaskState M I P) (pick : ℕ) : Bool :=
  match s.igatesToRun[pick]? with
  | none => false
  | some e => s.igatesToRun.all fun e' => decide (t.priority e.1 ≤ t.priority e'.1)

/-- A module hands on its own batch at most once. -/
def chooses (actions : List (Action P)) : ℕ :=
  actions.countP fun
    | .choose _ _ => true
    | _ => false

/-- A task starts and ends when nothing is left to run, and the loop takes what is on top. -/
def permits (t : GateTable M I) (s : TaskState M I P) : Event M P → Bool
  | .begin _ _ _ => s.idle
  | .turn pick actions => (s.next.isSome || s.onTop t pick) && decide (chooses actions ≤ 1)
  | .finish => s.idle

end TaskState

end Backdraft

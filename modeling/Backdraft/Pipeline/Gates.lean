import Mathlib.Tactic
import Backdraft.Core

/-!
# Connecting modules

`ConnectGate`, `DisconnectGate`, `DisconnectModulesUpstream` and `Destroy` of `core/module.cc`, with
`ConnectModules`, `DisconnectModule` and `DestroyModule` of `core/module_graph.cc`.  An output gate
belongs to a module and leads to one input gate of the next module; an input gate knows the output
gates that lead to it, and is deleted with the last of them.

* `OGate`, `IGate`, `Gates`: the gates on the heap, and the vectors of pointers of the modules;
* `connectModules`, `disconnectModule`, `destroyModule`: the calls of the controller;
* `Call`, `run`: sequences of calls.

Gates are named by the number of their allocation, which is not used again.  `none` is a call that
follows a pointer to a deleted gate or fails a `CHECK` of the gate functions.  Memory for a new gate
is always there.  Priorities, unique indices, hooks and attributes are left out, and so are the
tasks of a module, with the `CHECK` of `DestroyAllTasks` that a task can be detached.
-/

namespace Backdraft

/-- `OGate`. -/
structure OGate (V : Type*) where
  module : V
  gateIdx : ℕ
  next : V
  igate : ℕ
  igateIdx : ℕ
  deriving DecidableEq

/-- `IGate`. -/
structure IGate (V : Type*) where
  module : V
  gateIdx : ℕ
  ogatesUpstream : List ℕ
  mergeable : Bool
  deriving DecidableEq

/-- The gates that are allocated, and `ogates_` and `igates_` of every module. -/
structure Gates (V : Type*) where
  ogate : ℕ → Option (OGate V)
  igate : ℕ → Option (IGate V)
  /-- the number of the next allocation -/
  fresh : ℕ
  ogates : V → ℕ → Option ℕ
  /-- `ogates_.size()` -/
  ogatesSize : V → ℕ
  igates : V → ℕ → Option ℕ
  /-- `igates_.size()` -/
  igatesSize : V → ℕ

/-- The numbers of gates of the module classes. -/
structure GateLimits (V : Type*) where
  numOGates : V → ℕ
  numIGates : V → ℕ

namespace Gates

/-- No module is connected. -/
def empty {V : Type*} : Gates V :=
  ⟨fun _ => none, fun _ => none, 0, fun _ _ => none, fun _ => 0, fun _ _ => none, fun _ => 0⟩

variable {V : Type*} [DecidableEq V]

/-- Write a pointer to `ogates_[i]` of a module. -/
def setOgates (s : Gates V) (m : V) (i : ℕ) (p : Option ℕ) : Gates V :=
  { s with ogates := fun m' i' => if m' = m ∧ i' = i then p else s.ogates m' i' }

/-- Write a pointer to `igates_[j]` of a module. -/
def setIgates (s : Gates V) (x : V) (j : ℕ) (q : Option ℕ) : Gates V :=
  { s with igates := fun x' j' => if x' = x ∧ j' = j then q else s.igates x' j' }

/-- `delete ogate`. -/
def deleteOgate (s : Gates V) (p : ℕ) : Gates V :=
  { s with ogate := Function.update s.ogate p none }

/-- `delete igate`. -/
def deleteIgate (s : Gates V) (q : ℕ) : Gates V :=
  { s with igate := Function.update s.igate q none }

/-- The two calls of `resize`. -/
def grow (s : Gates V) (m : V) (i : ℕ) (x : V) (j : ℕ) : Gates V :=
  { s with
    ogatesSize := Function.update s.ogatesSize m (max (s.ogatesSize m) (i + 1))
    igatesSize := Function.update s.igatesSize x (max (s.igatesSize x) (j + 1)) }

/-- The input gate `j` of `x`, which is made if it is not there, and its pointer. -/
def findIgate (s : Gates V) (x : V) (j : ℕ) : Gates V × ℕ :=
  match s.igates x j with
  | some q => (s, q)
  | none =>
    ({ s with igate := Function.update s.igate s.fresh (some ⟨x, j, [], false⟩)
              fresh := s.fresh + 1 }.setIgates x j (some s.fresh), s.fresh)

/-- `PushOgate`. -/
def IGate.pushOgate (ig : IGate V) (p : ℕ) : IGate V :=
  { ig with
    ogatesUpstream := ig.ogatesUpstream ++ [p]
    mergeable := decide (1 < (ig.ogatesUpstream ++ [p]).length) }

/-- `RemoveOgate`.  The last line of the source is not reached when the gate is found. -/
def IGate.removeOgate (ig : IGate V) (p : ℕ) : IGate V :=
  if p ∈ ig.ogatesUpstream then { ig with ogatesUpstream := ig.ogatesUpstream.erase p }
  else { ig with mergeable := decide (1 < ig.ogatesUpstream.length) }

/-- `ConnectGate`. -/
def connectGate (s : Gates V) (m : V) (i : ℕ) (x : V) (j : ℕ) : Option (Gates V × ℤ) :=
  if (s.ogates m i).isSome then some (s, -ebusy)
  else
    let r := (s.grow m i x j).findIgate x j
    let p := r.1.fresh
    (r.1.igate r.2).map fun ig =>
      ({ r.1.setOgates m i (some p) with
          ogate := Function.update r.1.ogate p (some ⟨m, i, x, r.2, ig.gateIdx⟩)
          igate := Function.update r.1.igate r.2 (some (IGate.pushOgate ig p))
          fresh := p + 1 }, 0)

/-- `DisconnectGate`. -/
def disconnectGate (s : Gates V) (m : V) (i : ℕ) : Option (Gates V) :=
  match s.ogates m i with
  | none => some s
  | some p => do
    let og ← s.ogate p
    let ig ← s.igate og.igate
    let ig' := IGate.removeOgate ig p
    let s' := { s with igate := Function.update s.igate og.igate (some ig') }
    let s' := if ig'.ogatesUpstream.isEmpty then
        (s'.setIgates ig'.module ig'.gateIdx none).deleteIgate og.igate
      else s'
    return (s'.setOgates m i none).deleteOgate p

/-- The body of the loop of `DisconnectModulesUpstream`. -/
def dropUpstream (s : Gates V) (p : ℕ) : Option (Gates V) :=
  (s.ogate p).map fun og => (s.setOgates og.module og.gateIdx none).deleteOgate p

/-- `DisconnectModulesUpstream`. -/
def disconnectModulesUpstream (lim : GateLimits V) (s : Gates V) (x : V) (j : ℕ) :
    Option (Gates V) :=
  if lim.numIGates x ≤ j then none
  else
    match s.igates x j with
    | none => some s
    | some q => do
      let ig ← s.igate q
      let s' ← ig.ogatesUpstream.foldlM dropUpstream s
      return (s'.setIgates x j none).deleteIgate q

/-- `Destroy`. -/
def destroy (lim : GateLimits V) (s : Gates V) (x : V) : Option (Gates V) := do
  let s' ← (List.range (s.igatesSize x)).foldlM (fun s j => s.disconnectModulesUpstream lim x j) s
  (List.range (s'.ogatesSize x)).foldlM (fun s i => s.disconnectGate x i) s'

/-- `ConnectModules`. -/
def connectModules (lim : GateLimits V) (s : Gates V) (m : V) (i : ℕ) (x : V) (j : ℕ) :
    Option (Gates V × ℤ) :=
  if lim.numOGates m ≤ i ∨ maxGates ≤ i then some (s, -einval)
  else if lim.numIGates x ≤ j ∨ maxGates ≤ j then some (s, -einval)
  else s.connectGate m i x j

/-- `DisconnectModule`. -/
def disconnectModule (lim : GateLimits V) (s : Gates V) (m : V) (i : ℕ) : Option (Gates V × ℤ) :=
  if lim.numOGates m ≤ i then some (s, -einval) else (s.disconnectGate m i).map (·, 0)

/-- `DestroyModule`; a module that is made later has no gates. -/
def destroyModule (lim : GateLimits V) (s : Gates V) (x : V) : Option (Gates V) :=
  (s.destroy lim x).map fun s' =>
    { s' with
      ogates := Function.update s'.ogates x fun _ => none
      ogatesSize := Function.update s'.ogatesSize x 0
      igates := Function.update s'.igates x fun _ => none
      igatesSize := Function.update s'.igatesSize x 0 }

/-- The calls of the controller. -/
inductive Call (V : Type*)
  | connect (m : V) (i : ℕ) (x : V) (j : ℕ)
  | disconnect (m : V) (i : ℕ)
  | destroy (x : V)

/-- One call. -/
def step (lim : GateLimits V) (s : Gates V) : Call V → Option (Gates V)
  | .connect m i x j => (s.connectModules lim m i x j).map Prod.fst
  | .disconnect m i => (s.disconnectModule lim m i).map Prod.fst
  | .destroy x => s.destroyModule lim x

/-- A sequence of calls. -/
def run (lim : GateLimits V) (s : Gates V) (calls : List (Call V)) : Option (Gates V) :=
  calls.foldlM (step lim) s

end Gates

end Backdraft

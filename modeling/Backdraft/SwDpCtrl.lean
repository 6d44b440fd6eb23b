import Backdraft.QueueOut.FlowTable

/-!
# The shared table of paused flows

`BKDRFTSwDpCtrl`, the table through which an output module tells the input modules to pause a flow
or to let it go on.
-/

namespace Backdraft

/-- `struct DpTblEntry`; `untilTs` is its field `until`. -/
structure DpTblEntry where
  untilTs : ℕ
  rate : ℕ
  deriving DecidableEq, Inhabited

/-- `BKDRFTSwDpCtrl`, with its map `flowBook_`. -/
structure SwDpCtrl where
  flowBook : HashTable FlowTuple DpTblEntry

namespace SwDpCtrl

/-- The table at the start. -/
def init : SwDpCtrl := ⟨∅⟩

/-- `PauseFlow`.  What `Insert` returns for a new flow is not looked at. -/
def pauseFlow (c : SwDpCtrl) (ts rate : ℕ) (flow : Flow) : SwDpCtrl :=
  ⟨c.flowBook.insert flow.toFlowTuple ⟨ts, rate⟩⟩

/-- `GetFlowStatus`. -/
def getFlowStatus (c : SwDpCtrl) (flow : Flow) : DpTblEntry :=
  (c.flowBook.lookup flow.toFlowTuple).getD ⟨0, 0⟩

theorem lookup_pauseFlow {c : SwDpCtrl} (h : c.flowBook.Accepts) (ts rate : ℕ) (flow : Flow)
    (f : FlowTuple) :
    (c.pauseFlow ts rate flow).flowBook.lookup f =
      if f = flow.toFlowTuple then some ⟨ts, rate⟩ else c.flowBook.lookup f := by
  by_cases hf : f = flow.toFlowTuple
  · subst hf; rw [if_pos rfl]; exact h.lookup_insert _ _
  · rw [if_neg hf]; exact HashTable.lookup_insert_ne hf

end SwDpCtrl

end Backdraft

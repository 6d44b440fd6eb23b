import Mathlib.Tactic
import Backdraft.Lib.Handles
import Backdraft.Pipeline.Task

/-!
# The batches of a task

A batch is held by the module that runs, opened for an output gate and being filled, or waiting to
be run.  No batch is two of these at once, and the packets in opened and in waiting batches are
those that were sent and not processed.

* `runnable`: the batches that wait, with their gates;
* `Core`: the invariant, for the opened and the held batches;
* `Core.alloc`, `Core.send`, `Core.add`, `Core.addToRun`, `Core.takeNext`, `Core.release`: the life
  of a batch;
* `Core.dropPacket`, `Core.discard`: packets that are dropped.
-/

namespace Backdraft

namespace TaskState

variable {M I P : Type*}

/-- The batches that wait, with their gates. -/
def runnable (s : TaskState M I P) : List (I × BatchPtr) := s.igatesToRun ++ s.next.toList

/-- The batch of the task, or one that was taken from the pool. -/
def Allocated (s : TaskState M I P) : BatchPtr → Prop
  | .init => True
  | .pool i => i < s.pbatchIdx

/-- The invariant of a task, while the batches `opened` are being filled for their gates and the
batches `held` are in the hands of a module. -/
structure Core (opened : List (I × BatchPtr)) (held : List BatchPtr) (s : TaskState M I P) :
    Prop where
  nodup : ((s.runnable ++ opened).map Prod.snd ++ held).Nodup
  allocated : ∀ b ∈ (s.runnable ++ opened).map Prod.snd ++ held, s.Allocated b
  short : ∀ b ∈ (s.runnable ++ opened).map Prod.snd, (s.heap b).length ≤ kMaxBurst
  registered : ∀ ig b, s.igateBatch ig = some b → (ig, b) ∈ s.igatesToRun
  dead_lt : s.deadBatch.length < kMaxBurst
  sent : s.sent.Perm (s.processed ++ Handles.contents s.heap (s.runnable ++ opened))
  dropped : s.dropped.Perm (s.freed ++ s.deadBatch)
  silentDrops_eq : s.silentDrops = s.freed.length

variable {opened opened' : List (I × BatchPtr)} {held : List BatchPtr} {s : TaskState M I P}

/-- Batches change their places. -/
theorem Core.relist (h : Core opened held s) {q : List (I × BatchPtr)} {n : Option (I × BatchPtr)}
    {f : I → Option BatchPtr} (hperm : (q ++ n.toList ++ opened').Perm (s.runnable ++ opened))
    (hreg : ∀ ig b, f ig = some b → (ig, b) ∈ q) :
    Core opened' held { s with igatesToRun := q, next := n, igateBatch := f } where
  nodup := ((hperm.map Prod.snd).append_right held).nodup_iff.mpr h.nodup
  allocated b hb := h.allocated b (((hperm.map Prod.snd).append_right held).mem_iff.mp hb)
  short b hb := h.short b ((hperm.map Prod.snd).mem_iff.mp hb)
  registered := hreg
  dead_lt := h.dead_lt
  sent := h.sent.trans ((Handles.contents_perm hperm).symm.append_left _)
  dropped := h.dropped
  silentDrops_eq := h.silentDrops_eq

theorem Core.perm (h : Core opened held s) (hperm : opened'.Perm opened) : Core opened' held s :=
  h.relist (hperm.append_left _) h.registered

/-- A held batch is none of the others. -/
theorem Core.not_mem {b : BatchPtr} (h : Core opened (b :: held) s) :
    b ∉ (s.runnable ++ opened).map Prod.snd := fun hmem =>
  (List.nodup_append.mp h.nodup).2.2 b hmem b List.mem_cons_self rfl

/-- Held batches are forgotten. -/
theorem Core.release (h : Core opened held s) {held' : List BatchPtr} (hsub : held'.Sublist held) :
    Core opened held' s :=
  { h with
    nodup := h.nodup.sublist (hsub.append_left _)
    allocated := fun c hc => h.allocated c ((hsub.append_left _).subset hc) }

/-- The output gates do not matter. -/
theorem Core.gates (h : Core opened held s) (ogateBatch : M → ℕ → Option BatchPtr)
    (gateWithHook gateWithoutHook : List ℕ) :
    Core opened held
      { s with
        ogateBatch := ogateBatch
        gateWithHook := gateWithHook
        gateWithoutHook := gateWithoutHook } :=
  ⟨h.nodup, h.allocated, h.short, h.registered, h.dead_lt, h.sent, h.dropped, h.silentDrops_eq⟩

/-- A held batch gets other packets. -/
theorem Core.setHeap {b : BatchPtr} (h : Core opened (b :: held) s) (pkts : List P) :
    Core opened (b :: held) { s with heap := Function.update s.heap b pkts } where
  nodup := h.nodup
  allocated := h.allocated
  short c hc := by
    have hne : c ≠ b := fun heq => h.not_mem (heq ▸ hc)
    simpa only [Function.update_of_ne hne] using h.short c hc
  registered := h.registered
  dead_lt := h.dead_lt
  sent := by
    have hsent := h.sent
    rw [← Handles.contents_update pkts h.not_mem] at hsent
    exact hsent
  dropped := h.dropped
  silentDrops_eq := h.silentDrops_eq

theorem Core.fill {b : BatchPtr} (h : Core opened (b :: held) s) {pkts : List P}
    {s' : TaskState M I P} (hfill : s.fill b pkts = .ok s') :
    Core opened (b :: held) s' ∧ (s'.heap b).length ≤ kMaxBurst := by
  unfold TaskState.fill at hfill
  split_ifs at hfill with hlen
  cases hfill
  exact ⟨h.setHeap pkts, by simpa only [Function.update_self] using hlen⟩

/-- A held batch is opened for a gate. -/
theorem Core.send {b : BatchPtr} (h : Core opened (b :: held) s)
    (hshort : (s.heap b).length ≤ kMaxBurst) (ig : I) :
    Core ((ig, b) :: opened) held { s with sent := s.sent ++ (s.heap b).map (ig, ·) } := by
  have hmid : (s.runnable ++ (ig, b) :: opened).Perm ((ig, b) :: (s.runnable ++ opened)) :=
    List.perm_middle
  have hptrs : ((s.runnable ++ (ig, b) :: opened).map Prod.snd ++ held).Perm
      ((s.runnable ++ opened).map Prod.snd ++ b :: held) :=
    ((hmid.map Prod.snd).append_right held).trans List.perm_middle.symm
  refine ⟨hptrs.nodup_iff.mpr h.nodup, fun c hc => h.allocated c (hptrs.mem_iff.mp hc),
    fun c hc => ?_, h.registered, h.dead_lt, ?_, h.dropped, h.silentDrops_eq⟩
  · rcases List.mem_cons.mp ((hmid.map Prod.snd).mem_iff.mp hc) with rfl | hc
    · exact hshort
    · exact h.short c hc
  · refine (h.sent.append_right _).trans ?_
    rw [List.append_assoc]
    exact (List.perm_append_comm.trans (Handles.contents_perm hmid.symm)).append_left _

/-- A packet is added to an opened batch that is not full. -/
theorem Core.add {ig : I} {b : BatchPtr} (h : Core opened held s) (he : (ig, b) ∈ opened)
    (hfull : (s.heap b).length < kMaxBurst) (p : P) :
    Core opened held
      { s with
        heap := Function.update s.heap b (s.heap b ++ [p])
        sent := s.sent ++ [(ig, p)] } where
  nodup := h.nodup
  allocated := h.allocated
  short c hc := by
    by_cases hcb : c = b
    · subst hcb
      simp only [Function.update_self, List.length_append, List.length_singleton]
      omega
    · simpa only [Function.update_of_ne hcb] using h.short c hc
  registered := h.registered
  dead_lt := h.dead_lt
  sent := by
    refine (h.sent.append_right _).trans ?_
    rw [List.append_assoc]
    exact (Handles.contents_extend [p] (List.mem_append_right s.runnable he)
      (List.nodup_append.mp h.nodup).1).symm.append_left _
  dropped := h.dropped
  silentDrops_eq := h.silentDrops_eq

/-- A batch is taken from the pool. -/
theorem Core.alloc (h : Core opened held s) {b : BatchPtr} {s' : TaskState M I P}
    (halloc : s.allocPacketBatch = .ok (b, s')) : Core opened (b :: held) s' ∧ s'.heap b = [] := by
  unfold allocPacketBatch at halloc
  split_ifs at halloc
  cases halloc
  have hnew : BatchPtr.pool s.pbatchIdx ∉ (s.runnable ++ opened).map Prod.snd ++ held := fun hmem =>
    lt_irrefl _ (h.allocated _ hmem)
  refine ⟨⟨?_, fun c hc => ?_, fun c hc => ?_, h.registered, h.dead_lt, ?_, h.dropped,
    h.silentDrops_eq⟩, Function.update_self _ _ _⟩
  · exact List.perm_middle.nodup_iff.mpr (List.nodup_cons.mpr ⟨hnew, h.nodup⟩)
  · rcases List.mem_cons.mp (List.perm_middle.mem_iff.mp hc) with rfl | hc
    · exact Nat.lt_succ_self _
    · have hold := h.allocated c hc
      cases c with
      | init => trivial
      | pool i => exact Nat.lt_succ_of_lt hold
  · have hne : c ≠ .pool s.pbatchIdx := fun heq => hnew (heq ▸ List.mem_append_left _ hc)
    simpa only [Function.update_of_ne hne] using h.short c hc
  · have hsent := h.sent
    rw [← Handles.contents_update [] fun hmem => hnew (List.mem_append_left _ hmem)] at hsent
    exact hsent

/-! ### Waiting batches -/

/-- What is picked from a list, and the rest. -/
theorem perm_of_getElem? {α : Type*} {l : List α} {n : ℕ} {a : α} (h : l[n]? = some a) :
    (a :: l.eraseIdx n).Perm l := by
  obtain ⟨hlt, rfl⟩ := List.getElem?_eq_some_iff.mp h
  exact List.getElem_cons_eraseIdx_perm hlt

section Run

variable [DecidableEq I] {t : GateTable M I} {ig : I} {b : BatchPtr}

theorem Core.enqueue (h : Core ((ig, b) :: opened) held s) : Core opened held (s.enqueue ig b) := by
  refine h.relist ?_ fun ig' b' hreg => ?_
  · simp only [runnable, List.append_assoc, List.singleton_append]
    refine List.Perm.append_left _ ?_
    exact List.perm_middle.symm
  · by_cases hig : ig' = ig
    · subst hig
      rw [Function.update_self, Option.some_inj] at hreg
      simp [hreg]
    · rw [Function.update_of_ne hig] at hreg
      exact List.mem_append_left _ (h.registered ig' b' hreg)

omit [DecidableEq I] in
/-- Two batches for one gate are merged. -/
theorem Core.merge (h : Core ((ig, b) :: opened) held s) {ib : BatchPtr}
    (hreg : s.igateBatch ig = some ib)
    (hfit : (s.heap ib).length + (s.heap b).length ≤ kMaxBurst) :
    Core opened held { s with heap := Function.update s.heap ib (s.heap ib ++ s.heap b) } := by
  have hmid : (s.runnable ++ (ig, b) :: opened).Perm ((ig, b) :: (s.runnable ++ opened)) :=
    List.perm_middle
  have hsub : (s.runnable ++ opened).Sublist (s.runnable ++ (ig, b) :: opened) :=
    (List.sublist_cons_self _ _).append_left _
  have hptrs := (hsub.map Prod.snd).append_right held
  have hmem : (ig, ib) ∈ s.runnable ++ opened :=
    List.mem_append_left _ (List.mem_append_left _ (h.registered ig ib hreg))
  refine ⟨h.nodup.sublist hptrs, fun c hc => h.allocated c (hptrs.subset hc), fun c hc => ?_,
    h.registered, h.dead_lt, ?_, h.dropped, h.silentDrops_eq⟩
  · by_cases hcb : c = ib
    · subst hcb
      simpa only [Function.update_self, List.length_append] using hfit
    · simpa only [Function.update_of_ne hcb] using h.short c ((hsub.map Prod.snd).subset hc)
  · have hnodup := (List.nodup_append.mp (h.nodup.sublist hptrs)).1
    refine h.sent.trans (List.Perm.append_left _ ?_)
    exact ((Handles.contents_perm hmid).trans List.perm_append_comm).trans
      (Handles.contents_extend (s.heap b) hmem hnodup).symm

/-- **`AddToRun`**: an opened batch waits to be run, on its own or with another one. -/
theorem Core.addToRun (h : Core ((ig, b) :: opened) held s) :
    Core opened held (s.addToRun t ig b) := by
  unfold TaskState.addToRun
  split_ifs with hnext
  · rw [Bool.and_eq_true, Option.isNone_iff_eq_none] at hnext
    refine h.relist ?_ h.registered
    simp [runnable, hnext.1]
  · split
    · exact h.enqueue
    · rename_i ib hreg
      split_ifs with hfit
      · exact h.merge hreg hfit
      · exact h.enqueue

omit [DecidableEq I] in
/-- The packets of an opened batch are processed, by a module that holds the batch then. -/
theorem Core.process (h : Core ((ig, b) :: opened) held s) :
    Core opened (b :: held)
      { s with processed := s.processed ++ (s.heap b).map (ig, ·) } := by
  have hmid : (s.runnable ++ (ig, b) :: opened).Perm ((ig, b) :: (s.runnable ++ opened)) :=
    List.perm_middle
  have hptrs : ((s.runnable ++ opened).map Prod.snd ++ b :: held).Perm
      ((s.runnable ++ (ig, b) :: opened).map Prod.snd ++ held) :=
    List.perm_middle.trans ((hmid.map Prod.snd).append_right held).symm
  refine ⟨hptrs.nodup_iff.mpr h.nodup, fun c hc => h.allocated c (hptrs.mem_iff.mp hc),
    fun c hc => ?_, h.registered, h.dead_lt, ?_, h.dropped, h.silentDrops_eq⟩
  · exact h.short c ((hmid.map Prod.snd).mem_iff.mpr (List.mem_cons_of_mem _ hc))
  · refine h.sent.trans ?_
    rw [List.append_assoc]
    exact (Handles.contents_perm hmid).append_left _

theorem runnable_takeNext {pick : ℕ} {s' : TaskState M I P}
    (htake : s.takeNext pick = some ((ig, b), s')) :
    s.runnable.Perm ((ig, b) :: s'.runnable) := by
  unfold TaskState.takeNext at htake
  split at htake
  · rename_i e hnext
    cases htake
    simp [runnable, hnext]
  · rename_i hnext
    obtain ⟨e, he, heq⟩ := Option.map_eq_some_iff.mp htake
    obtain ⟨rfl, rfl⟩ := Prod.mk.inj heq
    simpa [runnable, hnext] using (perm_of_getElem? he).symm

/-- The next batch is taken out. -/
theorem Core.takeNext (h : Core opened held s) {pick : ℕ} {s' : TaskState M I P}
    (htake : s.takeNext pick = some ((ig, b), s')) : Core ((ig, b) :: opened) held s' := by
  have hperm : (s'.runnable ++ (ig, b) :: opened).Perm (s.runnable ++ opened) :=
    List.perm_middle.trans ((runnable_takeNext htake).symm.append_right opened)
  unfold TaskState.takeNext at htake
  split at htake
  · cases htake
    exact h.relist hperm h.registered
  · obtain ⟨e, he, heq⟩ := Option.map_eq_some_iff.mp htake
    obtain ⟨rfl, rfl⟩ := Prod.mk.inj heq
    refine h.relist hperm fun ig' b' hreg => ?_
    have hne : ig' ≠ ig := by
      rintro rfl
      simp at hreg
    rw [Function.update_of_ne hne] at hreg
    have hmem := (perm_of_getElem? he).mem_iff.mpr (h.registered ig' b' hreg)
    exact (List.mem_cons.mp hmem).resolve_left fun heq => hne (Prod.mk.inj heq).1

end Run

/-! ### Dropped packets -/

theorem Core.flush (h : Core opened held s) : Core opened held s.flush :=
  { h with
    dead_lt := Nat.succ_pos _
    dropped := by simpa [TaskState.flush, deadend] using h.dropped
    silentDrops_eq := by simp [TaskState.flush, deadend, h.silentDrops_eq] }

theorem Core.dropPacket [DecidableEq M] (h : Core opened held s) (m : M) (p : P) :
    Core opened held (s.dropPacket m p) := by
  have hdropped : (s.dropped ++ [p]).Perm (s.freed ++ (s.deadBatch ++ [p])) := by
    rw [← List.append_assoc]
    exact h.dropped.append_right _
  simp only [TaskState.dropPacket]
  split_ifs with hfull
  · exact
      { h with
        dead_lt := Nat.succ_pos _
        dropped := by simpa [TaskState.flush, deadend] using hdropped
        silentDrops_eq := by simp [TaskState.flush, deadend, h.silentDrops_eq] }
  · exact { h with dead_lt := not_le.mp hfull, dropped := hdropped }

/-- A held batch is freed. -/
theorem Core.discard {b : BatchPtr} (h : Core opened (b :: held) s) (deadends : M → ℕ) :
    Core opened (b :: held)
      { s.deadend (s.heap b) with
        deadends := deadends
        heap := Function.update s.heap b []
        dropped := s.dropped ++ s.heap b } :=
  { h.setHeap [] with
    dropped := by
      refine (h.dropped.append_right _).trans ?_
      simp only [deadend, List.append_assoc]
      exact List.perm_append_comm.append_left _
    silentDrops_eq := by simp [deadend, h.silentDrops_eq] }

/-- **`RunChooseModule`**: the batch is freed, or waits to be run. -/
theorem Core.runChooseModule [DecidableEq M] [DecidableEq I] {t : GateTable M I} {b : BatchPtr}
    (h : Core opened (b :: held) s) (hshort : (s.heap b).length ≤ kMaxBurst) (m : M) (g : ℕ) :
    Core opened held (s.runChooseModule t m g b) := by
  unfold TaskState.runChooseModule
  split_ifs
  · exact h.release (List.sublist_cons_self _ _)
  · split
    · exact (h.discard _).release (List.sublist_cons_self _ _)
    · exact (h.send hshort _).addToRun

end TaskState

end Backdraft

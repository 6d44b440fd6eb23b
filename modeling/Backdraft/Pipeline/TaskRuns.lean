import Backdraft.Lib.Run
import Backdraft.Pipeline.TaskBatches

/-!
# What a task does with its packets

Results over all runs of a task, whatever its modules do, in a pipeline whose output gates have
hooks, as `ConnectModules` makes them unless it is told otherwise.

* `Working`: the invariant while a module runs, with the output gates it has opened;
* `Working.emitPacket`, `Working.act`, `Working.processOGates`, `Resting.step`: every call keeps it;
* `task_conserves`: each packet that is sent to a gate is processed there once, and each packet that
  is dropped is freed.
-/

namespace Backdraft

namespace TaskState

variable {M I P : Type} [DecidableEq M] [DecidableEq I] {t : GateTable M I} {s : TaskState M I P}

/-! ### What stays -/

section Frame

variable (t s) (ig : I) (b : BatchPtr)

omit [DecidableEq M] in
/-- `AddToRun` changes the waiting batches only. -/
theorem addToRun_cases :
    s.addToRun t ig b = { s with next := some (ig, b) } ∧ s.next = none ∨
      s.addToRun t ig b = s.enqueue ig b ∨
      ∃ heap, s.addToRun t ig b = { s with heap := heap } := by
  unfold addToRun
  split_ifs with hnext
  · rw [Bool.and_eq_true, Option.isNone_iff_eq_none] at hnext
    exact .inl ⟨rfl, hnext.1⟩
  · split
    · exact .inr (.inl rfl)
    · split_ifs
      · exact .inr (.inr ⟨_, rfl⟩)
      · exact .inr (.inl rfl)

end Frame

/-- The output gates and the batches opened for them are the same. -/
structure SameGates (s s' : TaskState M I P) : Prop where
  ogateBatch : s'.ogateBatch = s.ogateBatch
  withHook : s'.gateWithHook = s.gateWithHook
  withoutHook : s'.gateWithoutHook = s.gateWithoutHook

omit [DecidableEq M] in
theorem sameGates_addToRun (ig : I) (b : BatchPtr) : SameGates s (s.addToRun t ig b) := by
  rcases addToRun_cases t s ig b with ⟨h, -⟩ | h | ⟨heap, h⟩
  all_goals
    rw [h]
    exact ⟨rfl, rfl, rfl⟩

omit [DecidableEq M] [DecidableEq I] in
theorem sameGates_alloc {b : BatchPtr} {s' : TaskState M I P}
    (h : s.allocPacketBatch = .ok (b, s')) : SameGates s s' := by
  unfold allocPacketBatch at h
  split_ifs at h
  cases h
  exact ⟨rfl, rfl, rfl⟩

omit [DecidableEq I] in
theorem sameGates_dropPacket (m : M) (p : P) : SameGates s (s.dropPacket m p) := by
  simp only [dropPacket]
  split_ifs <;> exact ⟨rfl, rfl, rfl⟩

theorem sameGates_runChooseModule (m : M) (g : ℕ) (b : BatchPtr) :
    SameGates s (s.runChooseModule t m g b) := by
  unfold runChooseModule
  split_ifs
  · exact ⟨rfl, rfl, rfl⟩
  · split
    · exact ⟨rfl, rfl, rfl⟩
    · exact ⟨(sameGates_addToRun _ b).ogateBatch, (sameGates_addToRun _ b).withHook,
        (sameGates_addToRun _ b).withoutHook⟩

omit [DecidableEq M] [DecidableEq I] in
theorem sameGates_fill {b : BatchPtr} {pkts : List P} {s' : TaskState M I P}
    (h : s.fill b pkts = .ok s') : SameGates s s' := by
  unfold fill at h
  split_ifs at h
  cases h
  exact ⟨rfl, rfl, rfl⟩

omit [DecidableEq M] in
theorem sameGates_takeNext {pick : ℕ} {e : I × BatchPtr} {s' : TaskState M I P}
    (h : s.takeNext pick = some (e, s')) : SameGates s s' := by
  unfold takeNext at h
  split at h
  · cases h
    exact ⟨rfl, rfl, rfl⟩
  · obtain ⟨e', -, heq⟩ := Option.map_eq_some_iff.mp h
    obtain ⟨rfl, rfl⟩ := Prod.mk.inj heq
    exact ⟨rfl, rfl, rfl⟩

omit [DecidableEq M] [DecidableEq I] in
theorem SameGates.trans {s₁ s₂ : TaskState M I P} (h : SameGates s s₁) (h' : SameGates s₁ s₂) :
    SameGates s s₂ :=
  ⟨h'.ogateBatch.trans h.ogateBatch, h'.withHook.trans h.withHook,
    h'.withoutHook.trans h.withoutHook⟩

/-! ### A module at work -/

/-- The invariant while `m` runs; `opened` are the output gates with a batch, with the input gates
they lead to. -/
structure Working (t : GateTable M I) (m : M) (opened : List (ℕ × I × BatchPtr))
    (held : List BatchPtr) (s : TaskState M I P) : Prop where
  core : Core (opened.map Prod.snd) held s
  nodup : (opened.map Prod.fst).Nodup
  opened_eq : ∀ e ∈ opened, t.ogate m e.1 = some e.2.1 ∧ s.ogateBatch m e.1 = some e.2.2
  closed : ∀ m' g b, s.ogateBatch m' g = some b → m' = m ∧ ∃ ig, (g, ig, b) ∈ opened
  withoutHook : s.gateWithoutHook = []

variable {m : M} {opened : List (ℕ × I × BatchPtr)} {held : List BatchPtr}

omit [DecidableEq M] [DecidableEq I] in
theorem Working.congr (h : Working t m opened held s) {held' : List BatchPtr}
    {s' : TaskState M I P} (hcore : Core (opened.map Prod.snd) held' s') (hsame : SameGates s s') :
    Working t m opened held' s' where
  core := hcore
  nodup := h.nodup
  opened_eq e he := by
    rw [hsame.ogateBatch]
    exact h.opened_eq e he
  closed m' g b hb := by
    rw [hsame.ogateBatch] at hb
    exact h.closed m' g b hb
  withoutHook := hsame.withoutHook.trans h.withoutHook

omit [DecidableEq M] [DecidableEq I] in
theorem Working.perm (h : Working t m opened held s) {opened' : List (ℕ × I × BatchPtr)}
    (hperm : opened'.Perm opened) : Working t m opened' held s where
  core := h.core.perm (hperm.map Prod.snd)
  nodup := (hperm.map Prod.fst).nodup_iff.mpr h.nodup
  opened_eq e he := h.opened_eq e (hperm.mem_iff.mp he)
  closed m' g b hb := by
    obtain ⟨rfl, ig, hmem⟩ := h.closed m' g b hb
    exact ⟨rfl, ig, hperm.mem_iff.mpr hmem⟩
  withoutHook := h.withoutHook

omit [DecidableEq I] in
/-- A batch with no packets is opened for the output gate `g`, instead of the one it had. -/
theorem Working.openGate {g : ℕ} {ig : I} {b : BatchPtr} (hg : t.ogate m g = some ig)
    (hcore : Core (opened.map Prod.snd) (b :: held) s) (hempty : s.heap b = [])
    (hnodup : (opened.map Prod.fst).Nodup) (hnot : g ∉ opened.map Prod.fst)
    (hopened : ∀ e ∈ opened, t.ogate m e.1 = some e.2.1 ∧ s.ogateBatch m e.1 = some e.2.2)
    (hclosed : ∀ m' g' b', s.ogateBatch m' g' = some b' → (m' = m ∧ g' = g) ∨
      m' = m ∧ ∃ ig', (g', ig', b') ∈ opened)
    (hwithout : s.gateWithoutHook = []) :
    Working t m ((g, ig, b) :: opened) held (s.setOgateBatch m g (some b)) where
  core := by
    have hsend := hcore.send (by simp [hempty]) ig
    simp only [hempty, List.map_nil, List.append_nil] at hsend
    exact hsend.gates _ _ _
  nodup := List.nodup_cons.mpr ⟨hnot, hnodup⟩
  opened_eq e he := by
    rcases List.mem_cons.mp he with rfl | he
    · exact ⟨hg, by simp [setOgateBatch]⟩
    · have hne : e.1 ≠ g := fun heq => hnot (heq ▸ List.mem_map_of_mem he)
      simpa [setOgateBatch, hne] using hopened e he
  closed m' g' b' hb := by
    simp only [setOgateBatch] at hb
    split_ifs at hb with hsame
    · obtain ⟨rfl, rfl⟩ := hsame
      exact ⟨rfl, ig, by simp [Option.some.inj hb]⟩
    · obtain ⟨rfl, ig', hmem⟩ := (hclosed m' g' b' hb).resolve_left hsame
      exact ⟨rfl, ig', List.mem_cons_of_mem _ hmem⟩
  withoutHook := hwithout

/-- The first part of `EmitPacket`. -/
theorem Working.gateBatch (h : Working t m opened held s) {g : ℕ} {ig : I} {b : BatchPtr}
    {s' : TaskState M I P} (hlisted : s.gateWithHook = opened.map Prod.fst)
    (hg : t.ogate m g = some ig) (hhook : t.hooked m g = true)
    (hbatch : s.gateBatch t m g ig = .ok (b, s')) :
    ∃ opened', Working t m opened' held s' ∧ s'.gateWithHook = opened'.map Prod.fst ∧
      (g, ig, b) ∈ opened' := by
  unfold TaskState.gateBatch at hbatch
  split at hbatch
  · rename_i b' hb
    cases hbatch
    obtain ⟨-, ig', hmem⟩ := h.closed m g b hb
    obtain rfl : ig' = ig := by simpa [hg] using (h.opened_eq _ hmem).1.symm
    exact ⟨opened, h, hlisted, hmem⟩
  · rename_i hb
    rw [if_pos hhook] at hbatch
    obtain ⟨⟨b', s₁⟩, halloc, hrest⟩ := Run.bind_eq_ok.mp hbatch
    simp only at hrest
    split_ifs at hrest
    cases hrest
    obtain ⟨hcore, hempty⟩ := h.core.alloc halloc
    have hsame := sameGates_alloc halloc
    have hnot : g ∉ opened.map Prod.fst := fun hmem => by
      obtain ⟨e, he, rfl⟩ := List.mem_map.mp hmem
      rw [(h.opened_eq e he).2] at hb
      cases hb
    have hwork : Working t m ((g, ig, b) :: opened) held (s₁.setOgateBatch m g (some b)) := by
      refine Working.openGate hg hcore hempty h.nodup hnot (fun e he => ?_)
        (fun m' g' b' hb' => .inr ?_) (hsame.withoutHook.trans h.withoutHook)
      · rw [hsame.ogateBatch]
        exact h.opened_eq e he
      · rw [hsame.ogateBatch] at hb'
        exact h.closed m' g' b' hb'
    have hlast := hwork.perm (List.perm_append_singleton (g, ig, b) opened)
    refine ⟨opened ++ [(g, ig, b)], ⟨hlast.core.gates _ _ _, hlast.nodup, hlast.opened_eq,
      hlast.closed, hlast.withoutHook⟩, ?_, by simp⟩
    simp [hsame.withHook, hlisted]

/-- The second part: the batch has room afterwards. -/
theorem Working.replaceFull (h : Working t m opened held s) {g : ℕ} {ig : I} {b b' : BatchPtr}
    {s' : TaskState M I P} (hlisted : s.gateWithHook = opened.map Prod.fst)
    (hmem : (g, ig, b) ∈ opened) (hhook : t.hooked m g = true)
    (hfull : s.replaceFull t m g ig b = .ok (b', s')) :
    ∃ opened', Working t m opened' held s' ∧ s'.gateWithHook = opened'.map Prod.fst ∧
      (g, ig, b') ∈ opened' ∧ (s'.heap b').length < kMaxBurst := by
  unfold TaskState.replaceFull at hfull
  split_ifs at hfull with hlen
  · -- the full batch waits to be run, and an empty one takes its place
    obtain ⟨xs, ys, rfl⟩ := List.append_of_mem hmem
    have hmid : ((g, ig, b) :: (xs ++ ys)).Perm (xs ++ (g, ig, b) :: ys) := List.perm_middle.symm
    have hnodup := (hmid.map Prod.fst).nodup_iff.mpr h.nodup
    have hadd : Core ((xs ++ ys).map Prod.snd) held (s.addToRun t ig b) :=
      (h.core.perm (hmid.map Prod.snd)).addToRun
    have hopen : ∀ e ∈ xs ++ ys, t.ogate m e.1 = some e.2.1 ∧ s.ogateBatch m e.1 = some e.2.2 :=
      fun e he => h.opened_eq e (hmid.mem_iff.mp (List.mem_cons_of_mem _ he))
    cases halloc : (s.addToRun t ig b).allocPacketBatch with
    | error e =>
      rw [halloc] at hfull
      cases hfull
    | ok r =>
      obtain ⟨b₁, s₁⟩ := r
      rw [halloc] at hfull
      cases hfull
      obtain ⟨hcore, hempty⟩ := hadd.alloc halloc
      have hsame : s₁.ogateBatch = s.ogateBatch :=
        (sameGates_alloc halloc).ogateBatch.trans (sameGates_addToRun ig b).ogateBatch
      have hwork :
          Working t m ((g, ig, b') :: (xs ++ ys)) held (s₁.setOgateBatch m g (some b')) := by
        refine Working.openGate (h.opened_eq _ hmem).1 hcore hempty (List.nodup_cons.mp hnodup).2
          (List.nodup_cons.mp hnodup).1 (fun e he => ?_) (fun m' g' c hc => ?_) ?_
        · rw [hsame]
          exact hopen e he
        · rw [hsame] at hc
          obtain ⟨rfl, ig', hmem'⟩ := h.closed m' g' c hc
          rcases List.mem_cons.mp (hmid.mem_iff.mpr hmem') with heq | hmem'
          · exact .inl ⟨rfl, (Prod.mk.inj heq).1⟩
          · exact .inr ⟨rfl, ig', hmem'⟩
        · exact ((sameGates_alloc halloc).withoutHook.trans
            (sameGates_addToRun ig b).withoutHook).trans h.withoutHook
      refine ⟨xs ++ (g, ig, b') :: ys, hwork.perm List.perm_middle, ?_, by simp, ?_⟩
      · show s₁.gateWithHook = _
        rw [(sameGates_alloc halloc).withHook, (sameGates_addToRun ig b).withHook, hlisted]
        simp
      · show (s₁.heap b').length < kMaxBurst
        rw [hempty]
        exact Nat.succ_pos _
  · cases hfull
    exact ⟨opened, h, hlisted, hmem, not_le.mp hlen⟩

/-- All output gates have hooks, as `ConnectModules` adds them without `skip_default_hooks`. -/
def Tracked (t : GateTable M I) : Prop := ∀ m g ig, t.ogate m g = some ig → t.hooked m g = true

/-- **`EmitPacket`.** -/
theorem Working.emitPacket (ht : Tracked t) (h : Working t m opened held s)
    (hlisted : s.gateWithHook = opened.map Prod.fst) {p : P} {g : ℕ} {s' : TaskState M I P}
    (hemit : s.emitPacket t m p g = .ok s') :
    ∃ opened', Working t m opened' held s' ∧ s'.gateWithHook = opened'.map Prod.fst := by
  unfold TaskState.emitPacket at hemit
  split at hemit
  · cases hemit
    have hsame := sameGates_dropPacket (s := s) m p
    exact ⟨opened, h.congr (h.core.dropPacket m p) hsame, hsame.withHook ▸ hlisted⟩
  · rename_i ig hg
    obtain ⟨⟨b₁, s₁⟩, hbatch, hemit⟩ := Run.bind_eq_ok.mp hemit
    obtain ⟨⟨b₂, s₂⟩, hfull, hemit⟩ := Run.bind_eq_ok.mp hemit
    cases hemit
    obtain ⟨opened₁, h₁, hlisted₁, hmem₁⟩ := h.gateBatch hlisted hg (ht m g ig hg) hbatch
    obtain ⟨opened₂, h₂, hlisted₂, hmem₂, hroom⟩ :=
      h₁.replaceFull hlisted₁ hmem₁ (ht m g ig hg) hfull
    refine ⟨opened₂, h₂.congr (h₂.core.add ?_ hroom p) ⟨rfl, rfl, rfl⟩, hlisted₂⟩
    exact List.mem_map_of_mem (f := Prod.snd) hmem₂

/-- A module fills a batch that it holds, and hands it on. -/
theorem Working.choose {b : BatchPtr} (h : Working t m opened (b :: held) s)
    (hlisted : s.gateWithHook = opened.map Prod.fst) {pkts : List P} (g : ℕ)
    {s₁ : TaskState M I P} (hfill : s.fill b pkts = .ok s₁) :
    Working t m opened held (s₁.runChooseModule t m g b) ∧
      (s₁.runChooseModule t m g b).gateWithHook = opened.map Prod.fst := by
  obtain ⟨hcore, hshort⟩ := h.core.fill hfill
  have hsame := (sameGates_fill hfill).trans (sameGates_runChooseModule (t := t) m g b)
  refine ⟨h.congr (hcore.runChooseModule hshort m g) hsame, ?_⟩
  rw [hsame.withHook]
  exact hlisted

/-- What a module does, with its own batch `b` in its hands or not any more. -/
theorem Working.act (ht : Tracked t) {b : BatchPtr} {a : Action P} {s' : TaskState M I P}
    (h : Working t m opened held s) (hlisted : s.gateWithHook = opened.map Prod.fst)
    (hheld : held = [b] ∨ held = [] ∧ chooses [a] = 0) (hact : s.act t m b a = .ok s') :
    ∃ opened' held', Working t m opened' held' s' ∧
      s'.gateWithHook = opened'.map Prod.fst ∧ (held' = held ∧ chooses [a] = 0 ∨
        held' = [] ∧ chooses [a] = 1) := by
  cases a with
  | emit p g =>
    obtain ⟨opened', h', hlisted'⟩ := h.emitPacket ht hlisted hact
    exact ⟨opened', held, h', hlisted', .inl ⟨rfl, rfl⟩⟩
  | drop p =>
    cases hact
    have hsame := sameGates_dropPacket (s := s) m p
    exact ⟨opened, held, h.congr (h.core.dropPacket m p) hsame, hsame.withHook ▸ hlisted,
      .inl ⟨rfl, rfl⟩⟩
  | choose pkts g =>
    obtain rfl : held = [b] := hheld.resolve_right fun hnone =>
      Nat.one_ne_zero hnone.2
    obtain ⟨s₁, hfill, hact⟩ := Run.bind_eq_ok.mp hact
    cases hact
    obtain ⟨h', hlisted'⟩ := h.choose hlisted g hfill
    exact ⟨opened, [], h', hlisted', .inr ⟨rfl, rfl⟩⟩
  | chooseNew pkts g =>
    obtain ⟨⟨b', s₁⟩, halloc, hact⟩ := Run.bind_eq_ok.mp hact
    obtain ⟨s₂, hfill, hact⟩ := Run.bind_eq_ok.mp hact
    cases hact
    have hsame := sameGates_alloc halloc
    have h₁ := h.congr (h.core.alloc halloc).1 hsame
    obtain ⟨h', hlisted'⟩ := h₁.choose (hsame.withHook ▸ hlisted) g hfill
    exact ⟨opened, held, h', hlisted', .inl ⟨rfl, rfl⟩⟩

theorem Working.acts (ht : Tracked t) {b : BatchPtr} :
    ∀ (actions : List (Action P)) {opened : List (ℕ × I × BatchPtr)} {held : List BatchPtr}
      {s s' : TaskState M I P}, Working t m opened held s →
      s.gateWithHook = opened.map Prod.fst →
      (held = [b] ∧ chooses actions ≤ 1 ∨ held = [] ∧ chooses actions = 0) →
      actions.foldlM (TaskState.act t m b) s = .ok s' →
      ∃ opened' held', Working t m opened' held' s' ∧
        s'.gateWithHook = opened'.map Prod.fst ∧ (held' = [b] ∨ held' = [])
  | [], opened, held, s, s', h, hlisted, hheld, hacts => by
    cases hacts
    exact ⟨opened, held, h, hlisted, hheld.imp And.left And.left⟩
  | a :: actions, opened, held, s, s', h, hlisted, hheld, hacts => by
    rw [List.foldlM_cons] at hacts
    obtain ⟨s₁, hact, hrest⟩ := Run.bind_eq_ok.mp hacts
    have hcount : chooses (a :: actions) = chooses actions + chooses [a] := by
      simp [chooses, List.countP_cons]
    have hone : held = [b] ∨ held = [] ∧ chooses [a] = 0 := by
      rcases hheld with ⟨hb, -⟩ | ⟨hnil, hzero⟩
      · exact .inl hb
      · exact .inr ⟨hnil, by omega⟩
    obtain ⟨opened₁, held₁, h₁, hlisted₁, hheld₁⟩ := h.act ht hlisted hone hact
    refine Working.acts ht actions h₁ hlisted₁ ?_ hrest
    rcases hheld₁ with ⟨rfl, hzero⟩ | ⟨rfl, hchosen⟩
    · refine hheld.imp (fun hb => ⟨hb.1, ?_⟩) fun hnil => ⟨hnil.1, ?_⟩ <;> omega
    · refine .inr ⟨rfl, ?_⟩
      rcases hheld with ⟨-, hle⟩ | ⟨-, hzero⟩ <;> omega

/-! ### The end of a turn -/

/-- The batch of an output gate waits to be run. -/
theorem Working.closeOgate {e : ℕ × I × BatchPtr} (h : Working t m (e :: opened) held s) :
    Working t m opened held (closeOgate t m s e.1) := by
  obtain ⟨hg, hb⟩ := h.opened_eq e List.mem_cons_self
  have hnot : e.1 ∉ opened.map Prod.fst := (List.nodup_cons.mp h.nodup).1
  have hsame := sameGates_addToRun (t := t) (s := s) e.2.1 e.2.2
  have hcore : Core (opened.map Prod.snd) held (s.addToRun t e.2.1 e.2.2) := h.core.addToRun
  unfold TaskState.closeOgate
  rw [hg, hb]
  refine ⟨hcore.gates _ _ _, (List.nodup_cons.mp h.nodup).2, fun e' he' => ?_,
    fun m' g' b' hb' => ?_, hsame.withoutHook.trans h.withoutHook⟩
  · have hne : e'.1 ≠ e.1 := fun heq => hnot (heq ▸ List.mem_map_of_mem he')
    simpa [setOgateBatch, hsame.ogateBatch, hne] using
      h.opened_eq e' (List.mem_cons_of_mem _ he')
  · simp only [setOgateBatch, hsame.ogateBatch] at hb'
    split_ifs at hb' with hself
    obtain ⟨rfl, ig, hmem⟩ := h.closed m' g' b' hb'
    refine ⟨rfl, ig, (List.mem_cons.mp hmem).resolve_left fun heq => hself ⟨rfl, ?_⟩⟩
    rw [← heq]

theorem Working.foldl_closeOgate : ∀ (opened : List (ℕ × I × BatchPtr)) {s : TaskState M I P},
    Working t m opened held s →
    Working t m [] held ((opened.map Prod.fst).foldl (TaskState.closeOgate t m) s)
  | [], _, h => h
  | _ :: opened, _, h => Working.foldl_closeOgate opened h.closeOgate

/-- The invariant between two turns. -/
structure Resting (s : TaskState M I P) : Prop where
  core : Core [] [] s
  ogateBatch_eq : ∀ m g, s.ogateBatch m g = none
  withHook : s.gateWithHook = []
  withoutHook : s.gateWithoutHook = []

omit [DecidableEq M] [DecidableEq I] in
theorem resting_start : Resting (start : TaskState M I P) := by
  refine ⟨⟨?_, ?_, ?_, ?_, ?_, ?_, ?_, ?_⟩, fun _ _ => rfl, rfl, rfl⟩ <;>
    simp [start, runnable, kMaxBurst]

/-- **`ProcessOGates`.** -/
theorem Working.processOGates (h : Working t m opened held s)
    (hlisted : s.gateWithHook = opened.map Prod.fst) : Resting (s.processOGates t m) := by
  have hdone := Working.foldl_closeOgate opened h
  simp only [TaskState.processOGates, hlisted, hdone.withoutHook, List.foldl_nil]
  refine ⟨(hdone.core.release (List.nil_sublist held)).gates _ _ _, fun m' g => ?_, rfl, rfl⟩
  rw [Option.eq_none_iff_forall_ne_some]
  intro b hb
  obtain ⟨-, ig, hmem⟩ := hdone.closed m' g b hb
  cases hmem

/-! ### All runs -/

/-- A turn of the loop. -/
theorem Resting.turn (ht : Tracked t) (h : Resting s) {pick : ℕ} {actions : List (Action P)}
    (hchoose : chooses actions ≤ 1) {s' : TaskState M I P}
    (hstep : step t s (.turn pick actions) = .ok s') : Resting s' := by
  simp only [TaskState.step] at hstep
  split at hstep
  · cases hstep
    exact h
  · rename_i ig b s₁ htake
    obtain ⟨s₂, hacts, hstep⟩ := Run.bind_eq_ok.mp hstep
    cases hstep
    have hcore := h.core.takeNext htake
    have hsame := sameGates_takeNext htake
    have hwork : Working t (t.owner ig) [] [b]
        { s₁ with processed := s₁.processed ++ (s₁.heap b).map (ig, ·) } := by
      refine ⟨hcore.process, List.nodup_nil, by simp, fun m' g c hc => ?_,
        hsame.withoutHook.trans h.withoutHook⟩
      rw [hsame.ogateBatch, h.ogateBatch_eq] at hc
      cases hc
    obtain ⟨opened, held, hdone, hlisted, -⟩ := Working.acts ht actions hwork
      (hsame.withHook.trans h.withHook) (.inl ⟨rfl, hchoose⟩) hacts
    exact hdone.processOGates hlisted

/-- A task starts. -/
theorem Resting.begin (h : Resting s) (hidle : s.idle = true) {m : M} {pkts : List P} {g : ℕ}
    {s' : TaskState M I P} (hstep : step t s (.begin m pkts g) = .ok s') : Resting s' := by
  rw [idle, Bool.and_eq_true, Option.isNone_iff_eq_none, List.isEmpty_iff] at hidle
  have hnone : s.runnable = [] := by simp [runnable, hidle]
  obtain ⟨s₁, hfill, hstep⟩ := Run.bind_eq_ok.mp hstep
  cases hstep
  -- nothing waits, so that all batches of the pool are free
  have hfree : Core [] [.init] { s with pbatchIdx := 0 } := by
    have hsent := h.core.sent
    rw [hnone] at hsent
    refine ⟨?_, ?_, ?_, h.core.registered, h.core.dead_lt, ?_, h.core.dropped,
      h.core.silentDrops_eq⟩
    all_goals simp only [runnable] at hnone ⊢
    · simp [hnone]
    · simp [hnone, Allocated]
    · simp [hnone]
    · simpa [hnone] using hsent
  obtain ⟨hcore, hshort⟩ := hfree.fill hfill
  have hsame := (sameGates_fill hfill).trans (sameGates_runChooseModule (t := t) m g .init)
  refine ⟨hcore.runChooseModule hshort m g, fun m' g' => ?_, hsame.withHook.trans h.withHook,
    hsame.withoutHook.trans h.withoutHook⟩
  rw [hsame.ogateBatch]
  exact h.ogateBatch_eq m' g'

/-- **A step.** -/
theorem Resting.step (ht : Tracked t) (s : TaskState M I P) (e : Event M P) (s' : TaskState M I P)
    (h : Resting s) (hpermits : permits t s e = true) (hstep : step t s e = .ok s') :
    Resting s' := by
  cases e with
  | begin m pkts g => exact h.begin hpermits hstep
  | turn pick actions =>
    rw [permits, Bool.and_eq_true, decide_eq_true_eq] at hpermits
    exact h.turn ht hpermits.2 hstep
  | finish =>
    cases hstep
    exact ⟨h.core.flush, h.ogateBatch_eq, h.withHook, h.withoutHook⟩

/-- **No packet is lost or doubled.**  At any time while a task runs, and over any number of its
runs, whatever its modules do: the packets sent to each input gate are those that its module has got
and those in the batches that wait for it; no batch holds more than 32 packets; and what was to be
dropped is freed or in `dead_batch_`.  When nothing is left to run, each packet sent has been
processed once, and after the last line all dropped packets are freed and counted. -/
theorem task_conserves (ht : Tracked t)
    (hreach : Run.ReachIf (step t) (permits t) (start : TaskState M I P) s) :
    s.sent.Perm (s.processed ++ Handles.contents s.heap s.runnable) ∧
      (∀ e ∈ s.runnable, (s.heap e.2).length ≤ kMaxBurst) ∧
      s.dropped.Perm (s.freed ++ s.deadBatch) ∧
      (s.idle = true → s.sent.Perm s.processed ∧ s.dropped.Perm s.flush.freed ∧
        s.flush.silentDrops = s.dropped.length) := by
  have h : Resting s := hreach.invariant resting_start fun u e v => Resting.step ht u e v
  have hsent := h.core.sent
  rw [List.append_nil] at hsent
  refine ⟨hsent, fun e he => ?_, h.core.dropped, fun hidle => ?_⟩
  · refine h.core.short e.2 (List.mem_map_of_mem ?_)
    rwa [List.append_nil]
  · rw [idle, Bool.and_eq_true, Option.isNone_iff_eq_none, List.isEmpty_iff] at hidle
    have hnone : s.runnable = [] := by simp [runnable, hidle]
    rw [hnone, Handles.contents_nil, List.append_nil] at hsent
    refine ⟨hsent, h.core.dropped, ?_⟩
    rw [h.core.dropped.length_eq, List.length_append, ← h.core.silentDrops_eq]
    rfl

/-- A task with two modules behind it, one after the other. -/
def twoModules : GateTable ℕ ℕ where
  ogate m g := if g = 0 then if m = 0 then some 0 else if m = 1 then some 1 else none else none
  hooked _ _ := true
  owner ig := if ig = 0 then 1 else 2
  mergeable _ := false
  priority _ := 0

/-- Of three packets the first module drops one and sends on two, which the second one keeps. -/
theorem task_conserves_twoModules :
    ∃ s : TaskState ℕ ℕ ℕ,
      Run.ReachIf (step twoModules) (permits twoModules) start s ∧ s.idle = true ∧
      s.processed = [(0, 7), (0, 8), (0, 9), (1, 7), (1, 9)] ∧ s.sent.Perm s.processed := by
  have hrun : ∃ s : TaskState ℕ ℕ ℕ,
      Run.ReachIf (step twoModules) (permits twoModules) start s ∧
      decide (s.idle = true ∧ s.processed = [(0, 7), (0, 8), (0, 9), (1, 7), (1, 9)]) = true :=
    Run.exists_reachIf
      [.begin 0 [7, 8, 9] 0, .turn 0 [.emit 7 0, .drop 8, .emit 9 0], .turn 0 [], .finish]
      (by decide +kernel)
  obtain ⟨s, hreach, hend⟩ := hrun
  obtain ⟨hidle, hproc⟩ := of_decide_eq_true hend
  have ht : Tracked twoModules := fun _ _ _ _ => rfl
  exact ⟨s, hreach, hidle, hproc, ((task_conserves ht hreach).2.2.2 hidle).1⟩

end TaskState

end Backdraft

import SwarmKV.Spec.Worker
import SwarmKV.Monitor.Progress

/-!
# The outline holds in every run

The caller of `execute_pipeline` meets its outline as well, and the outline holds
when the workers are spawned. By adequacy it holds in every reachable state.
-/

namespace SwarmKV.Pipeline

open Monitor.Outline

variable {cfg : Pipeline} {w w' : World}

/-! ## The caller -/

/-- The workers in `joined` have ended. -/
def Joined (joined : List String) (w : World) : Prop := ∀ n ∈ joined, (w.tasks n).isSome

theorem Joined.stable {joined : List String} {H : Finset Lock} :
    cfg.outline.Stable .main H (Joined joined) := by
  intro w w' hw hR _ n hn
  have hR : cfg.Rely .main H w w' := hR
  obtain ⟨r, hr⟩ := Option.isSome_iff_exists.mp (hw n hn)
  rw [hR.tasks n r hr]
  rfl

/-- The join loop. -/
theorem joinWorkers_triple {rest joined : List String}
    (hrest : ∀ n ∈ rest, n ∈ cfg.orchestrator.names) :
    cfg.outline.Triple .main ∅ (Joined joined) (Orchestrator.joinWorkers rest)
      (fun _ => Joined (rest.reverse ++ joined)) (fun _ _ => False) := by
  induction rest generalizing joined with
  | nil => exact Triple.ret fun w _ hw => hw
  | cons n rest ih =>
    unfold Orchestrator.joinWorkers
    refine Triple.bind (Q := fun _ => Joined (n :: joined)) ?_ fun _ => ?_
    · refine Triple.op Joined.stable fun w _ hw =>
        ⟨⟨.inl rfl, rfl, rfl, hrest n List.mem_cons_self⟩, fun x r w' hx _ => ⟨rfl, ?_⟩⟩
      simp only [exec] at hx
      split at hx
      · rename_i hsome
        simp only [Option.some.injEq, Prod.mk.injEq] at hx
        obtain ⟨-, rfl⟩ := hx
        intro n' hn'
        obtain rfl | hn' := List.mem_cons.mp hn'
        · exact Option.isSome_iff_exists.mpr ⟨_, hsome⟩
        · exact hw n' hn'
      · cases hx
    · have hnext := @ih (n :: joined) fun n' hn' => hrest n' (List.mem_cons_of_mem _ hn')
      simpa using hnext

/-- The mutex of the pool, as the caller holds it. -/
private abbrev pool : Finset Lock := insert .poolMutex ∅

private theorem allDone_stable {H : Finset Lock} : cfg.outline.Stable .main H cfg.AllDone :=
  Joined.stable

/-- An action of the caller that leaves the workers' futures alone. -/
private theorem main_op {o : Op} {R : o.Res → World → Prop} {X : Error → World → Prop}
    (hpre : ∀ w, cfg.AllDone w → cfg.ActionPre .main pool o w)
    (hx : ∀ x r w w', exec cfg.engine .main o x w = some (r, w') →
      touches o r = ∅ ∧ w'.tasks = w.tasks ∧ R r w') :
    cfg.outline.Triple .main pool cfg.AllDone (perform o) (fun r w => cfg.AllDone w ∧ R r w) X := by
  refine Triple.op allDone_stable fun w _ hw => ⟨⟨.inr hw, hpre w hw⟩, fun x r w' h _ => ?_⟩
  obtain ⟨ht, htasks, hR⟩ := hx x r w w' h
  refine ⟨ht, fun n hn => ?_, hR⟩
  rw [htasks]
  exact hw n hn

/-- The loop of `free_all`. -/
private theorem freeBuffers_triple (bs : List Nat) :
    cfg.outline.Triple .main pool cfg.AllDone (MemoryPool.freeBuffers bs) (fun _ => cfg.AllDone)
      (fun _ _ => False) := by
  induction bs with
  | nil => exact Triple.ret fun w _ hw => hw
  | cons b bs ih =>
    unfold MemoryPool.freeBuffers
    refine Triple.bind (main_op (R := fun _ _ => True) (fun w hw => ⟨rfl, hw⟩) ?_) fun _ =>
      ih.conseq (fun _ _ hw => hw.1) (fun _ _ _ h => h) fun _ _ _ h => h
    intro x r w w' hx
    simp only [exec, Option.some.injEq, Prod.mk.injEq] at hx
    obtain ⟨-, rfl⟩ := hx
    exact ⟨rfl, rfl, trivial⟩

/-- `free_all` empties the registry of the pool. -/
theorem freeAll_triple :
    cfg.outline.Triple .main ∅ cfg.AllDone MemoryPool.freeAll
      (fun _ w => cfg.AllDone w ∧ w.activeBuffers = []) (fun _ _ => False) := by
  have hbody : cfg.outline.Triple .main pool (fun w => cfg.AllDone w ∧ cfg.LockInv .poolMutex w)
      (do
        let activeBuffers ← perform .getActiveBuffers
        MemoryPool.freeBuffers activeBuffers
        perform .clearActiveBuffers)
      (fun _ w => cfg.AllDone w ∧ w.activeBuffers = []) (fun _ _ => False) := by
    refine Triple.bind (Q := fun _ => cfg.AllDone) ?_ fun bs => ?_
    · refine Triple.op (allDone_stable.and Stable.const) fun w _ hw =>
        ⟨⟨.inr hw.1, trivial⟩, fun x r w' hx _ => ⟨rfl, ?_⟩⟩
      simp only [exec, Option.some.injEq, Prod.mk.injEq] at hx
      obtain ⟨-, rfl⟩ := hx
      exact hw.1
    · refine Triple.bind (freeBuffers_triple bs) fun _ => ?_
      refine main_op (fun _ _ => rfl) ?_
      intro x r w w' hx
      simp only [exec, Option.some.injEq, Prod.mk.injEq] at hx
      obtain ⟨-, rfl⟩ := hx
      exact ⟨rfl, rfl, rfl⟩
  refine Triple.withLock (Finset.notMem_empty _) (fun _ h => by cases h) allDone_stable
    (fun _ _ => .inl rfl) hbody (fun _ => ?_) (fun _ => Stable.const) (fun _ w _ hw => ?_)
    fun _ _ _ h => h.elim
  · intro w w' hw hR hI
    have hR : cfg.Rely .main pool w w' := hR
    exact ⟨allDone_stable w w' hw.1 hR hI, (hR.activeBuffers rfl hw.1).trans hw.2⟩
  · exact ⟨.inr hw.1, trivial, hw⟩

/-- The rest of `execute_pipeline` does not throw. -/
theorem joinAll_triple :
    cfg.outline.Triple .main ∅ (fun _ => True) cfg.orchestrator.joinAll
      (fun _ w => cfg.AllDone w ∧ w.activeBuffers = []) (fun _ _ => False) := by
  unfold Orchestrator.joinAll
  refine Triple.bind (Q := fun _ => cfg.AllDone) ?_ fun _ => freeAll_triple
  have hjoin := @joinWorkers_triple cfg cfg.orchestrator.names [] fun n hn => hn
  refine hjoin.conseq (fun _ _ _ n hn => by cases hn) (fun _ w _ hw n hn => ?_) fun _ _ _ h => h
  exact hw n (by simpa using hn)

/-! ## The start -/

/-- The registration loop leaves the rest of the blackboard as it was. -/
theorem registeredState_watermark : cfg.registeredState.watermark = 0 := by
  rw [cfg.registeredState_registered.rest]
  rfl

theorem registeredState_prefixSeqLen : cfg.registeredState.prefixSeqLen = 0 := by
  rw [cfg.registeredState_registered.rest]
  rfl

theorem registeredState_prefixKvSerialBytes : cfg.registeredState.prefixKvSerialBytes = 0 := by
  rw [cfg.registeredState_registered.rest]
  rfl

theorem registeredState_prefixSnapshots (t : Int) :
    cfg.registeredState.prefixSnapshots t = none := by
  rw [cfg.registeredState_registered.rest]
  rfl

theorem registeredState_staging :
    cfg.registeredState.materializedBranchBuffer = cfg.stagingBuffer := by
  rw [cfg.registeredState_registered.rest]
  rfl

/-- Each milestone starts with as many consumers as branches fork there. -/
theorem initial_consumers (t : Int) :
    cfg.initialWorld.state.milestoneConsumersRemaining t = cfg.consumersLeft cfg.initialWorld t := by
  have hnone : cfg.freshState.milestoneConsumersRemaining t = none := rfl
  show cfg.registeredState.milestoneConsumersRemaining t = _
  rw [cfg.registeredState_registered.consumers, hnone]
  have hsum : ∀ l : List String,
      (l.map fun n => (1 : Int) - cfg.initialWorld.consumed n t).sum = l.length := by
    intro l
    induction l with
    | nil => rfl
    | cons n l ih =>
      have hzero : cfg.initialWorld.consumed n t = 0 := rfl
      simp only [List.map_cons, List.sum_cons, hzero, ih, List.length_cons]
      omega
  by_cases hm : cfg.orchestrator.HasConsumers t
  · have hpos := hm.1
    have hne := hm.2
    simp only [Orchestrator.branchesAt, ne_eq, List.map_eq_nil_iff] at hne
    rw [consumersLeft, if_pos hm, if_pos ⟨hpos, hne⟩, hsum, Orchestrator.branchesAt,
      List.length_map, Option.getD_none, Int.zero_add]
  · rw [consumersLeft, if_neg hm, if_neg]
    intro h
    refine hm ⟨h.1, ?_⟩
    simpa [Orchestrator.branchesAt] using h.2

/-- The invariant holds when the workers are spawned. -/
theorem initial_inv : cfg.Inv cfg.initialWorld where
  staging := registeredState_staging
  milestones t := cfg.mem_registeredMilestones
  consumers := initial_consumers
  freshContext _ _ := rfl
  freshBuffer b hb := by
    have hb : 1 ≤ b := hb
    exact if_neg (by omega)
  stagingOld b hb := by
    obtain ⟨size, -, rfl⟩ := Option.map_eq_some_iff.mp hb
    exact Nat.zero_lt_one
  stagingLive := by
    refine .inr fun b hb => ?_
    obtain ⟨size, hsize, rfl⟩ := Option.map_eq_some_iff.mp hb
    simp [initialWorld, hsize]
  promise _ _ h := by cases h
  started _ h := by cases h
  ended _ _ h := by cases h
  endedOnce _ _ _ h := by cases h
  exported _ _ h := by
    obtain ⟨i, h⟩ := h
    cases h
  forked _ _ _ h := by cases h
  commits _ := List.Pairwise.nil
  snapshots t snap h := by
    have hnone : cfg.initialWorld.state.prefixSnapshots t = none :=
      registeredState_prefixSnapshots t
    rw [hnone] at h
    cases h
  watermark _ _ := .inl registeredState_watermark
  filed p _ _ t ht hle _ := by
    have hzero : cfg.initialWorld.state.watermark = 0 := registeredState_watermark
    have hpos := ht.1
    rw [hzero] at hle
    omega

/-- What the mutexes protect holds when the workers are spawned, whatever is in the pool. -/
theorem start_lockInv {w : World} (hw : w.state = cfg.registeredState) (l : Lock) :
    cfg.LockInv l w := by
  cases l with
  | llamaApiMutex =>
    -- nothing is exported: the canonical triple is that of an empty fork
    have hlen : w.state.prefixSeqLen = 0 := hw ▸ registeredState_prefixSeqLen
    have hzero : w.state.prefixKvSerialBytes = 0 := hw ▸ registeredState_prefixKvSerialBytes
    have hbytes : w.branchBytes cfg.stagingBuffer w.state.prefixKvSerialBytes = [] := by
      rw [hzero]
      cases cfg.stagingBuffer with
      | none => rfl
      | some b => simp [World.branchBytes, World.bytesAt]
    refine fun _ => .inr ⟨.inl ⟨hlen, hbytes⟩, ?_⟩
    rw [hbytes]
    exact hzero.symm
  | watermarkMutex =>
    intro p _ _ t ht hle _
    have hzero : w.state.watermark = 0 := hw ▸ registeredState_watermark
    have hpos := ht.1
    rw [hzero] at hle
    omega
  | _ => trivial

theorem initial_lockInv (l : Lock) : cfg.LockInv l cfg.initialWorld :=
  start_lockInv rfl l

/-- A worker starts in front of its gates. -/
theorem initial_atGate {n : String} (hn : n ∈ cfg.orchestrator.names) :
    cfg.AtGate n [] cfg.initialWorld where
  waiting := ⟨⟨hn, rfl⟩, rfl, rfl⟩
  fresh _ := ⟨registeredState_watermark, registeredState_prefixSeqLen⟩
  completion _ h := by cases h
  watermark _ _ h := by cases h

/-! ## Every run -/

/-- The program of each thread meets its outline from the start. -/
theorem program_wp {w : World} (hinv : cfg.Inv w)
    (hgate : ∀ n ∈ cfg.orchestrator.names, cfg.AtGate n [] w) (i : Thread) :
    cfg.outline.wp i (cfg.program i) (cfg.outline.final i) ∅ ∅ w := by
  cases i with
  | main =>
    refine joinAll_triple.final (fun w w' hw hR hI => ?_) (fun _ _ _ h => h.elim) trivial hinv
    have hR : cfg.Rely .main ∅ w w' := hR
    exact ⟨rfl, allDone_stable w w' hw.1 hR hI, (hR.activeBuffers rfl hw.1).trans hw.2⟩
  | worker n =>
    show cfg.outline.wp _ (if n ∈ cfg.orchestrator.names then
      cfg.orchestrator.worker cfg.engine n else pure ()) _ _ _ _
    by_cases hn : n ∈ cfg.orchestrator.names
    · rw [if_pos hn]
      have hdone : ∀ (r : Outcome) (w w' : World), cfg.WorkerDone n w →
          cfg.Rely (.worker n) ∅ w w' → cfg.Done (.worker n) r w' := by
        intro r w w' hw hR _
        refine ⟨?_, fun hreg => ⟨?_, ?_⟩⟩
        · rw [hR.ownTask n rfl]
          exact hw.1
        · rw [hR.ownPromise n rfl]
          exact (hw.2 hreg).1
        · exact Closed.signalled w w' (hw.2 hreg).2 hR.quiet
      exact (worker_triple hn).final (fun w w' hw hR _ => hdone (.ok ()) w w' hw hR)
        (fun e w w' hw hR _ => hdone (.error e) w w' hw hR) (hgate n hn) hinv
    · rw [if_neg hn]
      exact ⟨rfl, rfl, fun w _ _ hn' => absurd hn' hn⟩

/-- The outline holds when the workers are spawned, in a world that meets the invariants. -/
theorem start_holds {w : World} (hinv : cfg.Inv w) (hlock : ∀ l, cfg.LockInv l w)
    (hgate : ∀ n ∈ cfg.orchestrator.names, cfg.AtGate n [] w) :
    cfg.outline.Holds { cfg.initial with data := w } := by
  have hheld : ∀ i, Monitor.Config.held { cfg.initial with data := w } i = ∅ := fun i => by
    ext l
    rw [Monitor.Config.mem_held]
    exact iff_of_false (fun h => by cases h) (Finset.notMem_empty l)
  refine ⟨fun _ => ∅, hinv, fun l _ => hlock l, fun i => ?_, fun j c k h => by cases h⟩
  rw [hheld]
  exact program_wp hinv hgate i

/-- The outline holds in every state of every run. -/
theorem reachable_holds {c : Config cfg.engine} (hc : cfg.Reachable c) : cfg.outline.Holds c :=
  (start_holds initial_inv initial_lockInv fun _ hn => initial_atGate hn).reaches hc

/-- Only waiting for a promise or for a future can block. -/
theorem blocked_op {i : Thread} {H : Finset Lock} {o : Op} {w : World} (hpre : cfg.Pre i H o w)
    (hx : ∀ x, exec cfg.engine i o x w = none) :
    (∃ d, o = .awaitCompletion d) ∨ ∃ m, o = .awaitTask m := by
  cases o with
  | awaitCompletion d => exact .inl ⟨d, rfl⟩
  | awaitTask m => exact .inr ⟨m, rfl⟩
  | llamaStateSeqGetData h b cap seq =>
    obtain ⟨-, -, -, ctx, hctx, -⟩ := hpre.2
    obtain ⟨bytes, hbytes⟩ := cfg.engine.exports_total (seqState seq ctx.cells)
    have := hx (.data bytes)
    simp [exec, hctx, hbytes] at this
  | llamaDecode h batch => cases hx .fail
  | llamaStateSeqSetData h q k seq => cases hx .fail
  | consumeMilestone t =>
    have := hx .ok
    simp only [exec] at this
    split at this <;> cases this
  | setPromise m r =>
    have := hx .ok
    simp only [exec] at this
    split at this <;> cases this
  | _ => cases hx .ok

/-- An operation only blocks while its thread holds no mutex. -/
theorem nonBlocking : cfg.outline.NonBlocking := by
  intro i H o w _ hpre hH
  by_contra hno
  have hx : ∀ x, exec cfg.engine i o x w = none := by simpa using hno
  obtain ⟨d, rfl⟩ | ⟨m, rfl⟩ := blocked_op hpre hx
  · exact absurd hpre.2.1 hH.ne_empty
  · exact absurd hpre.2.1 hH.ne_empty

end SwarmKV.Pipeline

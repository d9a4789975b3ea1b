import SwarmKV.Spec.Analytical

/-!
# The worker of a node meets its outline

A worker waits for its upstream nodes, runs `execute()` and fulfils its promise. The
assertions follow it: `Waiting` before the gates, `Running` inside `execute()`,
`AfterExecute` until the promise is set, `Fulfilled` from then on.
-/

namespace SwarmKV.Pipeline

open Monitor.Outline

variable {cfg : Pipeline} {n : String} {w w' : World}

/-! ## The gates -/

/-- The worker waits, and the upstream nodes in `passed` are where it wants them. -/
structure AtGate (cfg : Pipeline) (n : String) (passed : List String) (w : World) : Prop where
  waiting : cfg.Waiting n w
  fresh : cfg.orchestrator.Sole n → w.state.watermark = 0 ∧ w.state.prefixSeqLen = 0
  completion : ∀ d ∈ passed, d ∈ cfg.orchestrator.completionDeps n → (w.promises d).isSome
  watermark : ∀ p, cfg.orchestrator.Sole p → p ∈ passed → 0 ≤ cfg.orchestrator.req n →
    cfg.orchestrator.req n ≤ w.state.watermark

theorem Waiting.rely {H : Finset Lock} (hw : cfg.Waiting n w)
    (hR : cfg.Rely (.worker n) H w w') : cfg.Waiting n w' where
  live := hR.live hw.live
  promise := (hR.ownPromise n rfl).trans hw.promise
  log := hR.log.trans hw.log

theorem AtGate.stable {passed : List String} {H : Finset Lock} :
    cfg.outline.Stable (.worker n) H (cfg.AtGate n passed) := by
  intro w w' hw hR hI
  have hR : cfg.Rely (.worker n) H w w' := hR
  exact {
    waiting := hw.waiting.rely hR
    fresh := fun hs => by
      obtain ⟨hwm, hsl⟩ := hR.sole n hs rfl
      rw [hwm, hsl]
      exact hw.fresh hs
    completion := fun d hd hdep => by
      obtain ⟨r, hr⟩ := Option.isSome_iff_exists.mp (hw.completion d hd hdep)
      rw [hR.promises d r hr]
      rfl
    watermark := fun p hp hmem hreq => (hw.watermark p hp hmem hreq).trans (hR.watermark p hp) }

/-- How a failing gate leaves a worker. -/
def GateFailed (cfg : Pipeline) (n : String) (w : World) : Prop :=
  cfg.Live n w ∧ ¬ cfg.orchestrator.DepsRegistered n

theorem waitForWatermark_triple {passed : List String} {d : String}
    (hd : d ∈ cfg.orchestrator.getDependenciesForNode n) (hp : cfg.orchestrator.isPrefill d)
    (hreq : 0 ≤ cfg.orchestrator.req n) :
    cfg.outline.Triple (.worker n) ∅ (cfg.AtGate n passed)
      (PipelineState.waitForWatermark (cfg.orchestrator.req n))
      (fun _ => cfg.AtGate n (d :: passed)) (fun _ => cfg.GateFailed n) := by
  unfold PipelineState.waitForWatermark
  rw [if_neg (by omega)]
  refine Triple.waiting AtGate.stable (fun w hw => ⟨hw.waiting.live, hw.waiting.live⟩)
    (fun w _ hw => ⟨hw.waiting, rfl, hreq, d, hd, hp⟩)
    (fun w w' hM hR _ => stable_mutexInv (Finset.mem_singleton_self _) hM hR) ?_
  intro w w' hw hholds hR hI
  have hw' := AtGate.stable w w' hw hR hI
  have hle : cfg.orchestrator.req n ≤ w.state.watermark := of_decide_eq_true hholds
  refine ⟨hw'.waiting, hw'.fresh, fun d' hd' hdep => ?_, fun p hsole hmem _ => ?_⟩
  · obtain rfl | hd' := List.mem_cons.mp hd'
    · -- a prefill provider is not a completion dependency of a watermark branch
      exact absurd ⟨hp, hreq⟩ (Orchestrator.mem_completionDeps.mp hdep).2
    · exact hw'.completion d' hd' hdep
  · exact hle.trans (hR.watermark p hsole)

theorem awaitCompletion_triple {passed : List String} {d : String}
    (hd : d ∈ cfg.orchestrator.completionDeps n) (hn : d ∈ cfg.orchestrator.names) :
    cfg.outline.Triple (.worker n) ∅ (cfg.AtGate n passed) (perform (.awaitCompletion d))
      (fun _ => cfg.AtGate n (d :: passed)) (fun _ => cfg.GateFailed n) := by
  refine Triple.op AtGate.stable fun w _ hw =>
    ⟨⟨hw.waiting.live, rfl, n, rfl, hw.waiting, hd, hn⟩, fun x r w' hx _ => ⟨rfl, ?_⟩⟩
  simp only [exec] at hx
  split at hx
  · rename_i hsome
    simp only [Option.some.injEq, Prod.mk.injEq] at hx
    obtain ⟨-, rfl⟩ := hx
    refine ⟨hw.waiting, hw.fresh, fun d' hd' hdep => ?_, fun p hp hmem hreq => ?_⟩
    · obtain rfl | hd' := List.mem_cons.mp hd'
      · exact hsome
      · exact hw.completion d' hd' hdep
    · obtain rfl | hmem := List.mem_cons.mp hmem
      · exact absurd ⟨hp.1, hreq⟩ (Orchestrator.mem_completionDeps.mp hd).2
      · exact hw.watermark p hp hmem hreq
  · cases hx

/-- One gate. -/
theorem awaitDependency_triple {passed : List String} {d : String}
    (hd : d ∈ cfg.orchestrator.getDependenciesForNode n) :
    cfg.outline.Triple (.worker n) ∅ (cfg.AtGate n passed)
      (cfg.orchestrator.awaitDependency (cfg.orchestrator.req n) d)
      (fun _ => cfg.AtGate n (d :: passed)) (fun _ => cfg.GateFailed n) := by
  unfold Orchestrator.awaitDependency
  cases hnode : cfg.orchestrator.node d with
  | none =>
    -- `nodes.at(dep)` throws
    refine Triple.throw fun w _ hw => ⟨hw.waiting.live, fun hreg => ?_⟩
    obtain ⟨node, hsome⟩ := Orchestrator.mem_names.mp (hreg d hd)
    rw [hnode] at hsome
    cases hsome
  | some dep =>
    have hprefill : cfg.orchestrator.isPrefill d = dep.isPrefillProvider := by
      simp [Orchestrator.isPrefill, hnode]
    refine Triple.ite (fun hgate => ?_) (fun hgate => ?_)
    · exact waitForWatermark_triple hd (hprefill.trans hgate.1) hgate.2
    · refine awaitCompletion_triple (Orchestrator.mem_completionDeps.mpr ⟨hd, ?_⟩)
        (Orchestrator.mem_names.mpr ⟨dep, hnode⟩)
      rw [hprefill]
      exact hgate

/-- All gates, from those in `passed` on. -/
theorem awaitDependencies_triple {passed rest : List String}
    (hrest : ∀ d ∈ rest, d ∈ cfg.orchestrator.getDependenciesForNode n) :
    cfg.outline.Triple (.worker n) ∅ (cfg.AtGate n passed)
      (cfg.orchestrator.awaitDependencies (cfg.orchestrator.req n) rest)
      (fun _ => cfg.AtGate n (rest.reverse ++ passed)) (fun _ => cfg.GateFailed n) := by
  induction rest generalizing passed with
  | nil => exact Triple.ret fun w _ hw => hw
  | cons d rest ih =>
    unfold Orchestrator.awaitDependencies
    refine Triple.bind (awaitDependency_triple (hrest d List.mem_cons_self)) fun _ => ?_
    have hnext := @ih (d :: passed) fun d' hd' => hrest d' (List.mem_cons_of_mem _ hd')
    simpa using hnext

/-- Behind the last gate. -/
theorem AtGate.gatesPassed {passed : List String} (hw : cfg.AtGate n passed w)
    (hall : ∀ d ∈ cfg.orchestrator.getDependenciesForNode n, d ∈ passed) :
    cfg.GatesPassed n w where
  registered := hw.waiting.live.1
  completion d hd := hw.completion d (hall d (Orchestrator.mem_completionDeps.mp hd).1) hd
  watermark p hp hdep := hw.watermark p hp (hall p hdep)

/-! ## execute -/

/-- A node that has just started. -/
structure JustStarted (cfg : Pipeline) (n : String) (w : World) : Prop where
  running : cfg.Running n w
  log : w.log (.worker n) = [.executeStart]
  fresh : cfg.orchestrator.Sole n → w.state.watermark = 0 ∧ w.state.prefixSeqLen = 0

/-- A prefill provider that has just started has committed nothing. -/
theorem JustStarted.committed (hw : cfg.JustStarted n w) (hn : cfg.orchestrator.isPrefill n) :
    cfg.Committed n 0 0 w where
  prefill := hn
  running := hw.running
  inMemory := by simp [World.OutOfMemory, hw.log]
  below := by simp [World.commits, hw.log, Event.committed]
  last := fun h => absurd h (Nat.lt_irrefl 0)
  nBatch := fun h => absurd h (Nat.lt_irrefl 0)
  watermark hs := (hw.fresh hs).1
  seqLen hs := (hw.fresh hs).2.le
  canonical _ h := absurd h (Nat.lt_irrefl 0)

/-- `execute()` starts behind the last gate. -/
theorem start_triple {passed : List String}
    (hall : ∀ d ∈ cfg.orchestrator.getDependenciesForNode n, d ∈ passed)
    {X : Error → World → Prop} :
    cfg.outline.Triple (.worker n) ∅ (cfg.AtGate n passed) (perform (.note .executeStart))
      (fun _ => cfg.JustStarted n) X := by
  refine Triple.op AtGate.stable fun w _ hw =>
    ⟨⟨hw.waiting.live, n, rfl, hw.waiting, hw.gatesPassed hall⟩, fun x r w' hx _ => ⟨rfl, ?_⟩⟩
  simp only [exec, Option.some.injEq, Prod.mk.injEq] at hx
  obtain ⟨-, rfl⟩ := hx
  have hlog : (w.record (.worker n) .executeStart).log (.worker n) = [.executeStart] := by
    simp [World.record, hw.waiting.log]
  have hrunning : cfg.Running n (w.record (.worker n) .executeStart) := {
    live := hw.waiting.live
    promise := hw.waiting.promise
    started := by simp [World.Started, hlog]
    notEnded := fun r => by simp [World.Ended, hlog] }
  exact ⟨hrunning, hlog, hw.fresh⟩

/-- A node inside `execute()` with what its end will say. -/
structure Ending (cfg : Pipeline) (n : String) (r : Outcome) (w : World) : Prop where
  running : cfg.Running n w
  endOk : cfg.EndOk n r w
  signalled : r = .ok () → cfg.Signalled n w

/-- `execute()` of either kind of node. -/
theorem execute_triple {node : Node} {ctx : OrchestratorContext}
    (hnode : cfg.orchestrator.node n = some node) (hE : ctx.engine = cfg.engine) :
    cfg.outline.Triple (.worker n) ∅ (cfg.JustStarted n) (node.execute ctx)
      (fun _ => cfg.Ending n (.ok ())) (fun e => cfg.Ending n (.error e)) := by
  have hfail : ∀ e w, cfg.Failing n ∅ e w → cfg.Ending n (.error e) w := by
    intro e w hw
    refine ⟨hw.body.running, ⟨fun _ h => (by cases h), fun t ht => ?_⟩, fun h => by cases h⟩
    exact hw.missing t (Except.error.inj ht)
  cases node with
  | prefill p =>
    have hn : cfg.orchestrator.isPrefill n := by
      simp [Orchestrator.isPrefill, hnode, Node.isPrefillProvider]
    refine (executePrefill_triple hnode hE).conseq (fun w _ hw => hw.committed hn)
      (fun _ w _ hw => ?_) fun e w _ hw => hfail e w hw
    refine ⟨hw.1, ⟨fun _ _ => hw.2, fun t ht => by cases ht⟩, fun _ hpos => ?_⟩
    -- a prefill provider waits for no watermark
    rw [Orchestrator.req_of_isPrefill hn] at hpos
    exact absurd hpos (by decide)
  | analytical a =>
    have hn : cfg.orchestrator.isPrefill n = false := by
      simp [Orchestrator.isPrefill, hnode, Node.isPrefillProvider]
    refine (executeAnalytical_triple hnode hE).conseq (fun w _ hw => hw.running)
      (fun _ w _ hw => ?_) fun e w _ hw => hfail e w hw
    refine ⟨hw.1, ⟨fun h => ?_, fun t ht => by cases ht⟩, fun _ => hw.2⟩
    rw [hn] at h
    cases h

theorem Closed.ending {H : Finset Lock} {r : Outcome} :
    cfg.Closed (.worker n) H (cfg.Ending n r) := fun w w' hw hq => {
  running := Closed.running w w' hw.running hq
  endOk := {
    prefill := fun hn hr => Closed.prefillDone w w' (hw.endOk.prefill hn hr) hq
    missing := fun t ht p hp hdep hmem => hw.endOk.missing t ht p hp hdep fun hm =>
      hmem ((hq.grows _).subset hm) }
  signalled := fun hr => Closed.signalled w w' (hw.signalled hr) hq }

/-- A worker whose `execute()` has ended with `r`, before its promise is set. -/
structure AfterExecute (cfg : Pipeline) (n : String) (r : Outcome) (w : World) : Prop where
  live : cfg.Live n w
  promise : w.promises n = none
  ended : w.Ended n r
  signalled : r = .ok () → cfg.Signalled n w

theorem Closed.afterExecute {H : Finset Lock} {r : Outcome} :
    cfg.Closed (.worker n) H (cfg.AfterExecute n r) := fun w w' hw hq => {
  live := hq.live hw.live
  promise := (hq.ownPromise n rfl).trans hw.promise
  ended := (hq.grows _).subset hw.ended
  signalled := fun hr => Closed.signalled w w' (hw.signalled hr) hq }

/-- The end of `execute()` goes on record. -/
theorem end_triple {r : Outcome} {X : Error → World → Prop} :
    cfg.outline.Triple (.worker n) ∅ (cfg.Ending n r) (perform (.note (.executeEnd r)))
      (fun _ => cfg.AfterExecute n r) X := by
  refine Triple.op Closed.ending.stable fun w _ hw =>
    ⟨⟨hw.running.live, n, rfl, hw.running, hw.endOk⟩, fun x q w' hx _ => ⟨rfl, ?_⟩⟩
  simp only [exec, Option.some.injEq, Prod.mk.injEq] at hx
  obtain ⟨-, rfl⟩ := hx
  refine ⟨hw.running.live, hw.running.promise, by simp [World.Ended, World.record], fun hr hpos => ?_⟩
  have hold := hw.signalled hr hpos
  simpa [World.consumed, World.record, List.count_append] using hold

/-- `executeNode` leaves a record of how `execute()` ended. -/
theorem executeNode_triple {node : Node} {ctx : OrchestratorContext} {passed : List String}
    (hnode : cfg.orchestrator.node n = some node) (hE : ctx.engine = cfg.engine)
    (hall : ∀ d ∈ cfg.orchestrator.getDependenciesForNode n, d ∈ passed) :
    cfg.outline.Triple (.worker n) ∅ (cfg.AtGate n passed) (Orchestrator.executeNode node ctx)
      (fun _ => cfg.AfterExecute n (.ok ())) (fun e => cfg.AfterExecute n (.error e)) := by
  unfold Orchestrator.executeNode
  refine Triple.bind (start_triple hall) fun _ => ?_
  refine Triple.bind (Triple.attempt (execute_triple hnode hE)) fun r => ?_
  cases r with
  | ok a => exact end_triple
  | error e =>
    refine Triple.bind end_triple fun _ => ?_
    exact Triple.throw fun w _ hw => hw

/-! ## The promise and the future -/

/-- A worker that has nothing left to do but to end. -/
structure Fulfilled (cfg : Pipeline) (n : String) (w : World) : Prop where
  live : cfg.Live n w
  done : cfg.orchestrator.DepsRegistered n → (w.promises n).isSome ∧ cfg.Signalled n w

theorem Closed.fulfilled {H : Finset Lock} :
    cfg.Closed (.worker n) H (cfg.Fulfilled n) := fun w w' hw hq => {
  live := hq.live hw.live
  done := fun hreg => by
    rw [hq.ownPromise n rfl]
    exact ⟨(hw.done hreg).1, Closed.signalled w w' (hw.done hreg).2 hq⟩ }

/-- The promise is still open, and gets fulfilled. -/
private theorem setPromise_triple {r : Outcome} {A : World → Prop} {X : Error → World → Prop}
    (hA : cfg.Closed (.worker n) ∅ A) (hend : ∀ w, A w → cfg.AfterExecute n r w)
    (hs : ∀ w, A w → cfg.Signalled n w) :
    cfg.outline.Triple (.worker n) ∅ A (perform (.setPromise n r))
      (fun ok w => cfg.Fulfilled n w ∧ ok = true) X := by
  refine Triple.op hA.stable fun w _ hw =>
    ⟨⟨(hend w hw).live, rfl, (hend w hw).ended⟩, fun x q w' hx _ => ⟨rfl, ?_⟩⟩
  simp only [exec, (hend w hw).promise, Option.some.injEq, Prod.mk.injEq] at hx
  obtain ⟨rfl, rfl⟩ := hx
  refine ⟨⟨(hend w hw).live, fun _ => ⟨?_, hs w hw⟩⟩, rfl⟩
  simp

/-- The count does not keep a worker from fulfilling its promise. -/
private theorem AfterExecute.consume {r : Outcome} (hw : cfg.AfterExecute n r w) {t : Int}
    (left : Int → Option Int) : cfg.AfterExecute n r (consume n t left w) where
  live := hw.live
  promise := hw.promise
  ended := (w.log_grows_record _ _ _).subset hw.ended
  signalled hr hpos := by
    have hold := hw.signalled hr hpos
    simp only [Pipeline.consume, World.consumed, World.record, Function.update_self,
      List.count_append]
    exact Nat.add_pos_left hold _

/-- The `catch` block. -/
theorem failNode_triple {e : Error} (hn : n ∈ cfg.orchestrator.names) :
    cfg.outline.Triple (.worker n) ∅ (cfg.AfterExecute n (.error e))
      (Orchestrator.failNode (cfg.orchestrator.req n) n e)
      (fun _ => cfg.Fulfilled n) (fun _ => cfg.Fulfilled n) := by
  have hclosed : cfg.Closed (.worker n) ∅ (cfg.AfterExecute n (.error e)) := Closed.afterExecute
  have hset : cfg.outline.Triple (.worker n) ∅
      (fun w => cfg.AfterExecute n (.error e) w ∧ cfg.Signalled n w)
      (do
        let _ ← perform (.setPromise n (.error e))
        throw e) (fun (_ : Unit) => cfg.Fulfilled n) (fun _ => cfg.Fulfilled n) := by
    refine Triple.bind (setPromise_triple (hclosed.and Closed.signalled) (fun w hw => hw.1)
      fun w hw => hw.2) fun ok => ?_
    exact Triple.throw fun w _ hw => hw.1
  unfold Orchestrator.failNode
  dsimp only
  refine Triple.ite (fun hpos => ?_) (fun hle => ?_)
  · refine Triple.bind (signalMilestoneConsumed_triple (Finset.empty_subset _) hclosed
      (fun w hw => hw.live) (Orchestrator.hasConsumers_req hn hpos)
      (Orchestrator.mem_branchesAt.mpr ⟨hn, rfl⟩) fun w left hw => hw.consume left) fun _ => ?_
    exact hset.conseq (fun w _ hw => ⟨hw.1, fun _ => hw.2⟩) (fun _ _ _ h => h) fun _ _ _ h => h
  · exact hset.conseq (fun w _ hw => ⟨hw, fun hpos => absurd hpos hle⟩) (fun _ _ _ h => h)
      fun _ _ _ h => h

/-- The worker lambda. -/
theorem workerBody_triple (hn : n ∈ cfg.orchestrator.names) :
    cfg.outline.Triple (.worker n) ∅ (cfg.AtGate n [])
      (cfg.orchestrator.workerBody cfg.engine n) (fun _ => cfg.Fulfilled n)
      (fun _ => cfg.Fulfilled n) := by
  obtain ⟨node, hnode⟩ := Orchestrator.mem_names.mp hn
  have hreq : cfg.orchestrator.req n = node.requiredPrefixTokens := by
    simp [Orchestrator.req, hnode]
  unfold Orchestrator.workerBody Orchestrator.workerBodyAt
  rw [hnode]
  dsimp only
  rw [← hreq]
  refine Triple.bind ((awaitDependencies_triple fun d hd => hd).conseq (fun _ _ h => h)
    (fun _ _ _ h => h) fun e w _ hw => ⟨hw.1, fun hreg => absurd hreg hw.2⟩) fun _ => ?_
  refine Triple.catch' (Triple.bind (executeNode_triple hnode rfl fun d hd => ?_) fun _ => ?_)
    fun e => failNode_triple hn
  · simpa using hd
  · refine Triple.bind (setPromise_triple Closed.afterExecute (fun w hw => hw)
      fun w hw => hw.signalled rfl) fun ok => Triple.assume fun hok => ?_
    rw [if_pos hok]
    exact Triple.ret fun w _ hw => hw

/-- How a worker ends. -/
def WorkerDone (cfg : Pipeline) (n : String) (w : World) : Prop :=
  (w.tasks n).isSome ∧ (cfg.orchestrator.DepsRegistered n →
    (w.promises n).isSome ∧ cfg.Signalled n w)

/-- The worker thread. -/
theorem worker_triple (hn : n ∈ cfg.orchestrator.names) :
    cfg.outline.Triple (.worker n) ∅ (cfg.AtGate n []) (cfg.orchestrator.worker cfg.engine n)
      (fun _ => cfg.WorkerDone n) (fun _ => cfg.WorkerDone n) := by
  unfold Orchestrator.worker Orchestrator.workerAt
  refine Triple.bind (Q := fun _ => cfg.Fulfilled n) ?_ fun r => ?_
  · exact (Triple.attempt (workerBody_triple hn)).conseq (fun _ _ h => h)
      (fun r w _ hw => by cases r <;> exact hw) fun _ _ _ h => h
  · refine Triple.bind (Q := fun _ => cfg.WorkerDone n) ?_ fun _ => ?_
    · refine Triple.op Closed.fulfilled.stable fun w _ hw =>
        ⟨⟨hw.live, rfl⟩, fun x q w' hx _ => ⟨rfl, ?_⟩⟩
      simp only [exec, Option.some.injEq, Prod.mk.injEq] at hx
      obtain ⟨-, rfl⟩ := hx
      exact ⟨by simp, hw.done⟩
    · cases r with
      | ok a => exact Triple.ret fun w _ hw => hw
      | error e => exact Triple.throw fun w _ hw => hw

end SwarmKV.Pipeline

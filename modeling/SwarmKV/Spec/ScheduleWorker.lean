import SwarmKV.Spec.ScheduleProvider
import SwarmKV.Spec.ScheduleBranch

/-!
# The workers

A worker waits for what its node depends on, runs the node, and keeps the promise of its name with
the result that the sequential program has for it.
-/

namespace SwarmKV

open Monitor

namespace Pipeline

variable {cfg : Pipeline} {D : Calls} {p n : String} {h t : Nat} {s : View} {C : View}
  {I : View → Prop} {X : Error → View → Prop}

/-- The gate of a worker whose dependencies are all registered. -/
private theorem awaitDependencies_schedule {req : Int} {deps : List String}
    (hreg : ∀ d ∈ deps, d ∈ cfg.orchestrator.names) :
    (cfg.scheduleWatch D p (.worker n)).Spec I (cfg.orchestrator.awaitDependencies req deps)
      (fun _ => I) fun _ _ => False := by
  induction deps with
  | nil => exact .ret fun _ hs => hs
  | cons d deps ih =>
    refine .bind ?_ fun _ => ih fun d' hd' => hreg d' (List.mem_cons_of_mem _ hd')
    obtain ⟨dep, hdep⟩ := Orchestrator.mem_names.mp (hreg d List.mem_cons_self)
    unfold Orchestrator.awaitDependency
    simp only [hdep]
    refine .ite (fun hgate => ?_) fun _ => scheduleRule_lenient.op' rfl
    -- the wait for a watermark is not negative, so it does not throw
    unfold PipelineState.waitForWatermark
    refine .ite (fun hneg => absurd hgate.2 (by omega)) fun _ => ?_
    exact scheduleRule_lenient.withLock rfl rfl (.await fun s hs => ⟨⟨trivial, trivial⟩, fun _ => hs⟩)

/-- Worker `n` has fulfilled its promise. -/
private def PromiseKept (cfg : Pipeline) (D : Calls) (p n : String) (r : Outcome) (s : View) : Prop :=
  s.held = false ∧ (r, s.output) = D.result cfg p n

private theorem setPromise_schedule (r : Outcome) :
    (cfg.scheduleWatch D p (.worker n)).Spec (cfg.NodeEnded D p n r) (perform (.setPromise n r))
      (fun b s => cfg.PromiseKept D p n r s ∧ b = true) X := by
  refine .op fun s hs => ?_
  have hresult : r = (D.result cfg p n).1 := congrArg Prod.fst hs.result
  refine ⟨⟨trivial, rfl, hs.held, hs.settled, hs.filed, hresult⟩, fun b hb => ?_⟩
  exact ⟨⟨hs.held, hs.result⟩, hb.2⟩

/-- The node of a worker, whichever it is. -/
private theorem execute_schedule (hfed : cfg.orchestrator.FedBy p)
    (hD : ∀ q bytes, cfg.engine.exports q bytes = true → bytes = D.getData q)
    (hn : n ∈ cfg.orchestrator.names) {node : Node} (hnode : cfg.orchestrator.node n = some node)
    {ctx : OrchestratorContext} (hE : ctx.engine = cfg.engine)
    (hctx : ctx.nCtx = kSwarmkvDefaultPipelineCtx) (hpool : ctx.memoryPool = true)
    (hname : ctx.nodeName = n) :
    (cfg.scheduleWatch D p (.worker n)).Spec (· = {}) (node.execute ctx)
      (fun _ => cfg.NodeEnded D p n (.ok ())) fun e => cfg.NodeEnded D p n (.error e) := by
  cases node with
  | prefill node =>
    -- the only provider is `p`
    obtain rfl : n = p := hfed.sole n (by simp [Orchestrator.isPrefill, hnode, Node.isPrefillProvider])
    exact executePrefill_schedule hnode hE hctx hD
  | analytical node =>
    refine executeBranch_schedule (fun heq => ?_) hnode hE hctx hpool hname
    subst heq
    have hprovider := hfed.provider hn
    simp [Orchestrator.isPrefill, hnode, Node.isPrefillProvider] at hprovider

/-- The failure of a node is stored in its promise and thrown on. -/
private theorem storeFailure_schedule (e : Error) :
    (cfg.scheduleWatch D p (.worker n)).Spec (cfg.NodeEnded D p n (.error e))
      (perform (.setPromise n (.error e)) >>= fun _ => throw e : Prog Unit)
      (fun _ => cfg.PromiseKept D p n (.ok ())) fun e => cfg.PromiseKept D p n (.error e) :=
  .bind (setPromise_schedule _) fun _ => .throw fun _ hs => hs.1

private theorem workerBody_schedule (hfed : cfg.orchestrator.FedBy p)
    (hD : ∀ q bytes, cfg.engine.exports q bytes = true → bytes = D.getData q)
    (hn : n ∈ cfg.orchestrator.names) :
    (cfg.scheduleWatch D p (.worker n)).Spec (· = {}) (cfg.orchestrator.workerBody cfg.engine n)
      (fun _ => cfg.PromiseKept D p n (.ok ())) fun e => cfg.PromiseKept D p n (.error e) := by
  obtain ⟨node, hnode⟩ := Orchestrator.mem_names.mp hn
  unfold Orchestrator.workerBody Orchestrator.workerBodyAt
  simp only [hnode]
  refine .bind (.noThrow (awaitDependencies_schedule (hfed.registered n hn))) fun _ => ?_
  refine .catch' (K := fun e => cfg.NodeEnded D p n (.error e)) ?_ fun e => ?_
  · -- the try block
    refine .bind (Q := fun _ => cfg.NodeEnded D p n (.ok ())) ?_ fun _ => ?_
    · unfold Orchestrator.executeNode
      refine .bind (scheduleRule_lenient.op' rfl) fun _ => ?_
      refine .bind (.attempt (execute_schedule hfed hD hn hnode rfl rfl rfl rfl)) fun r => ?_
      cases r with
      | ok a => exact scheduleRule_lenient.op' rfl
      | error e => exact .bind (scheduleRule_lenient.op' rfl) fun _ => .throw fun _ hs => hs
    · refine .bind (setPromise_schedule _) fun b => .ite (fun _ => ?_) fun hb => ?_
      · exact .ret fun _ hs => hs.1
      · exact .throw fun s hs => absurd hs.2 hb
  · -- the catch block
    refine .ite (fun _ => ?_) fun _ => storeFailure_schedule e
    exact .bind (signalMilestoneConsumed_schedule _) fun _ => storeFailure_schedule e

private theorem worker_schedule (hfed : cfg.orchestrator.FedBy p)
    (hD : ∀ q bytes, cfg.engine.exports q bytes = true → bytes = D.getData q)
    (hn : n ∈ cfg.orchestrator.names) :
    (cfg.scheduleWatch D p (.worker n)).Spec (· = {}) (cfg.orchestrator.worker cfg.engine n)
      (fun _ s => s.held = false) fun _ s => s.held = false := by
  refine .bind (Q := fun r => cfg.PromiseKept D p n r) (.noThrow ?_) fun r => ?_
  · refine .post (.attempt (workerBody_schedule hfed hD hn)) fun r s hs => ?_
    cases r <;> exact hs
  refine .bind (Q := fun _ s => s.held = false) (.op fun s hs => ?_) fun _ => ?_
  · exact ⟨⟨⟨rfl, hs.1⟩, hs.2⟩, fun _ _ => hs.1⟩
  · cases r with
    | ok a => exact .ret fun _ hs => hs
    | error e => exact .throw fun _ hs => hs

/-- The threads of a pipeline follow the sequential program. -/
theorem program_schedule (hfed : cfg.orchestrator.FedBy p)
    (hD : ∀ q bytes, cfg.engine.exports q bytes = true → bytes = D.getData q) (i : Thread) :
    (cfg.scheduleWatch D p i).Meets (cfg.program i) (fun _ _ => True) {} := by
  cases i with
  | main =>
    refine (scheduleRule_lenient.joinAll (fun s a ha => ?_) {} rfl).mono fun _ _ _ => trivial
    cases ha <;> trivial
  | worker n =>
    show (cfg.scheduleWatch D p (.worker n)).Meets (if n ∈ cfg.orchestrator.names then
      cfg.orchestrator.worker cfg.engine n else pure () : Prog Unit) _ _
    split
    · exact (worker_schedule hfed hD ‹_› {} rfl).mono fun _ _ _ => trivial
    · trivial

end Pipeline

end SwarmKV

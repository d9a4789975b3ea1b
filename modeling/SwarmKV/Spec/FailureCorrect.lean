import SwarmKV.Spec.Stuck
import SwarmKV.Spec.Toy

/-!
# What becomes of a failure

A worker waits for the end of its upstream nodes, not for how they ended, and the
caller joins its workers the same way. So failures stay where they are: nodes behind
them start, and the caller returns, exactly as if nothing had happened.
-/

namespace SwarmKV.Pipeline

variable {cfg : Pipeline} {c : Config cfg.engine} {n d : String}

/-! ## Dependents -/

/-- `n` waits for the end of `d`. -/
def AwaitsEnd (cfg : Pipeline) (n d : String) : Prop := d ∈ cfg.orchestrator.completionDeps n

/-- What started nodes wait for, directly or not, has returned. -/
def UpstreamReturned (cfg : Pipeline) (w : World) : Prop :=
  ∀ n, w.Started n → ∀ d, Relation.TransGen cfg.AwaitsEnd n d → w.Ended d (.ok ())

/-- No node for whose end another one waits has failed. -/
def ProvidersReturned (cfg : Pipeline) (w : World) : Prop :=
  ∀ n ∈ cfg.orchestrator.names, ∀ d, cfg.AwaitsEnd n d → ¬ w.Failed d

/-- A started node waited for the end of each of its upstream nodes. -/
theorem Inv.ended_of_awaitsEnd {w : World} (hI : cfg.Inv w) (hs : w.Started n)
    (hd : cfg.AwaitsEnd n d) : ∃ r, w.Ended d r := by
  obtain ⟨r, hr⟩ := Option.isSome_iff_exists.mp ((hI.started n hs).completion d hd)
  exact ⟨r, hI.promise d r hr⟩

/-- If no provider fails, every upstream node of a started one has returned. -/
theorem Inv.upstreamReturned {w : World} (hI : cfg.Inv w) (hok : cfg.ProvidersReturned w) :
    cfg.UpstreamReturned w := by
  -- one edge: the upstream node has ended, and has not failed
  have hedge : ∀ n d, w.Started n → cfg.AwaitsEnd n d → w.Ended d (.ok ()) := by
    intro n d hs hd
    obtain ⟨r, hr⟩ := hI.ended_of_awaitsEnd hs hd
    cases r with
    | ok a => exact hr
    | error e => exact absurd ⟨e, hr⟩ (hok n (hI.started n hs).registered d hd)
  intro n hs d hd
  induction hd with
  | single hd => exact hedge n _ hs hd
  | tail _ hd ih => exact hedge _ _ (hI.ended _ _ ih).1 hd

/-- Nodes execute on top of returned upstream nodes only, exactly if no node for whose
    end another one waits fails. -/
theorem upstreamReturned_iff (hreg : ∀ m ∈ cfg.orchestrator.names, cfg.orchestrator.DepsRegistered m)
    (hc : cfg.Reachable c) :
    (cfg.ProvidersReturned c.data → cfg.UpstreamReturned c.data) ∧
      ((∀ m ∈ cfg.orchestrator.names, Finished c m) → cfg.UpstreamReturned c.data →
        cfg.ProvidersReturned c.data) := by
  have hinv := (reachable_holds hc).inv
  refine ⟨hinv.upstreamReturned, fun hfin hup n hn d hd hfail => ?_⟩
  -- a node that has ended has started
  obtain ⟨-, ⟨r, hr⟩, -⟩ := hc.done hn (hreg n hn) (hfin n hn)
  have hok := hup n (hinv.ended n r hr).1 d (.single hd)
  obtain ⟨e, he⟩ := hfail
  cases hinv.endedOnce d _ _ hok he

/-- Behind a prefiller that returns, the toy branch starts on top of it. -/
theorem upstreamReturned_iff_toy : (Toy.star 1 false (-1)).UpstreamReturned
    ((Toy.star 1 false (-1)).after (Toy.steps "P" 33 ++ Toy.steps "B" 12)).data := by
  have hiff := upstreamReturned_iff (show ∀ m ∈ (Toy.star 1 false (-1)).orchestrator.names,
      (Toy.star 1 false (-1)).orchestrator.DepsRegistered m by decide)
    (reachable_after _ (Toy.steps "P" 33 ++ Toy.steps "B" 12))
  refine hiff.1 ?_
  show ∀ n ∈ (Toy.star 1 false (-1)).orchestrator.names,
    ∀ d ∈ (Toy.star 1 false (-1)).orchestrator.completionDeps n,
      ¬ ((Toy.star 1 false (-1)).after (Toy.steps "P" 33 ++ Toy.steps "B" 12)).data.Failed d
  decide +kernel

/-- Behind a prefiller that fails, the toy branch starts all the same. -/
theorem not_upstreamReturned : ¬ ∀ c, (Toy.star 1 false (-1)).Reachable c →
    (Toy.star 1 false (-1)).UpstreamReturned c.data := by
  intro hall
  have hup := hall _ (reachable_after _ Toy.startAfterFailure)
  have hok := hup "B" (by decide +kernel) "P" (.single (by
    show "P" ∈ (Toy.star 1 false (-1)).orchestrator.completionDeps "B"
    decide))
  exact absurd hok (by decide +kernel)

/-! ## The caller -/

/-- `execute_pipeline` has returned. -/
def Returned (c : Config cfg.engine) : Prop := c.threads .main = .run (.ret ())

/-- `execute_pipeline` has thrown. -/
def Threw (c : Config cfg.engine) : Prop := ∃ e, c.threads .main = .run (.throw e)

/-- The caller hears of failures, and the pool is freed behind the last worker. -/
structure ReportsFailures (cfg : Pipeline) (c : Config cfg.engine) : Prop where
  returned : Returned c ↔ ∀ n ∈ cfg.orchestrator.names, c.data.Ended n (.ok ())
  threw : (¬ ∀ n ∈ cfg.orchestrator.names, c.data.Ended n (.ok ())) → Threw c
  freed : c.data.activeBuffers = [] ∧ ∀ n ∈ cfg.orchestrator.names, Finished c n

/-- At its end `execute_pipeline` has returned, with the pool freed behind the last
    worker. -/
theorem Reachable.main_returns (hc : cfg.Reachable c) (hf : (c.threads .main).finished) :
    Returned c ∧ c.data.activeBuffers = [] ∧ ∀ n ∈ cfg.orchestrator.names, Finished c n := by
  have h := reachable_holds hc
  obtain ht | ⟨e, ht⟩ := Monitor.TState.eq_of_finished hf
  · obtain ⟨-, hall, hfree⟩ : (.ok () : Outcome) = .ok () ∧ cfg.AllDone c.data ∧
      c.data.activeBuffers = [] := h.done_of_ret ht
    exact ⟨ht, hfree, fun n hn => (hc.finished_iff hn).mpr (hall n hn)⟩
  · -- the caller never throws
    obtain ⟨hok, -⟩ : (.error e : Outcome) = .ok () ∧ cfg.AllDone c.data ∧
      c.data.activeBuffers = [] := h.done_of_throw ht
    cases hok

/-- `execute_pipeline` reports failures exactly if there are none. -/
theorem reportsFailures_iff (hc : cfg.Reachable c) (hf : (c.threads .main).finished) :
    cfg.ReportsFailures c ↔ ∀ n ∈ cfg.orchestrator.names, c.data.Ended n (.ok ()) := by
  obtain ⟨hret, hfreed⟩ := hc.main_returns hf
  constructor
  · intro hrep
    exact hrep.returned.mp hret
  · intro hok
    exact ⟨⟨fun _ => hok, fun _ => hret⟩, fun hnot => absurd hok hnot, hfreed⟩

/-- Behind a toy prefiller and a toy branch that both return, the caller returns as well. -/
theorem reportsFailures_iff_toy : (Toy.star 1 false (-1)).ReportsFailures
    ((Toy.star 1 false (-1)).after
      (Toy.steps "P" 33 ++ Toy.steps "B" 28 ++ List.replicate 7 (.main, .ok))) := by
  refine (reportsFailures_iff (reachable_after _ _) (by decide +kernel)).mpr ?_
  decide +kernel

/-- Behind a prefiller that fails, the caller returns all the same. -/
theorem not_reportsFailures : ¬ ∀ c, (Toy.star 1 false (-1)).Reachable c →
    (c.threads .main).finished → (Toy.star 1 false (-1)).ReportsFailures c := by
  intro hall
  have hrep := hall _ (reachable_after _ Toy.joinAfterFailure) (by decide +kernel)
  have hok := hrep.returned.mp rfl
  exact absurd (hok "P" (by decide)) (by decide +kernel)

end SwarmKV.Pipeline

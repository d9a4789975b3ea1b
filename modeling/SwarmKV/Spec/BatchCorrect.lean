import SwarmKV.Spec.WorkerRules
import SwarmKV.Spec.Run
import SwarmKV.Spec.Toy

/-!
# Batch sizes

The prefill loop cuts its slices into chunks of at most `llama_n_batch` tokens, if that is
positive as an `int32_t`. A branch decodes its prompt in one call, and the only limit it checks
is `n_ctx`.
-/

namespace SwarmKV

open Monitor

/-- The batches that are decoded respect `llama_n_batch` exactly if `within`. -/
def DecodesRespect (E : Engine) (within : Prop) : Action sig → Prop
  | .op (.llamaDecode _ batch) => RespectsBatch E within batch
  | _ => True

theorem DecodeAction.respects {E : Engine} {within : Prop} {a : Action sig}
    (h : DecodeAction E within a) : DecodesRespect E within a := by
  cases h with
  | llamaDecode h batch hb => exact hb
  | _ => trivial

theorem PrefillAction.respects {E : Engine} {a : Action sig} (h : PrefillAction E a) :
    DecodesRespect E (E.llamaNBatch < 2 ^ 31) a := by
  cases h with
  | decode h => exact h.respects
  | host h => cases h <;> trivial
  | commit h => cases h <;> trivial
  | restore h =>
    cases h with
    | lookup h => cases h <;> trivial
    | llamaStateSeqSetData => trivial
  | _ => trivial

theorem BranchAction.respects {E : Engine} {within : Prop} {a : Action sig}
    (h : BranchAction E within a) : DecodesRespect E within a := by
  cases h with
  | decode h => exact h.respects
  | host h => cases h <;> trivial
  | lookup h => cases h <;> trivial
  | copy h => cases h <;> trivial
  | pool h => cases h <;> trivial
  | _ => trivial

theorem NodeAction.respects {E : Engine} {within : Prop} {t : Int} {a : Action sig}
    (h : NodeAction E within t a) : DecodesRespect E within a := by
  cases h with
  | prefill h hw =>
    rw [← hw]
    exact h.respects
  | body h =>
    cases h with
    | branch h => exact h.respects
    | signal h => cases h <;> trivial
  | _ => trivial

namespace Pipeline

variable {cfg : Pipeline} {c : Config cfg.engine}

/-- What the thread of a node may decode. -/
private def decodes (cfg : Pipeline) : Thread → Action sig → Prop
  | .main, _ => True
  | .worker n, a => ∀ node, cfg.orchestrator.node n = some node →
    DecodesRespect cfg.engine (node.BatchesFit cfg.engine) a

private theorem program_decodes (i : Thread) : (cfg.program i).Uses (decodes cfg i) := by
  cases i with
  | main => exact Orchestrator.joinAll_uses.mono fun _ _ => trivial
  | worker n =>
    show (if n ∈ cfg.orchestrator.names then cfg.orchestrator.worker cfg.engine n
      else pure () : Prog Unit).Uses _
    refine .ite (Orchestrator.worker_uses ?_ ?_ ?_ ?_) (.ret ())
    · intro a ha node _
      cases ha <;> trivial
    · intro a ha node _
      cases ha <;> trivial
    · intro t a ha node _
      cases ha <;> trivial
    · intro node ctx hnode hE
      refine (node.execute_uses ctx).mono fun a ha node' hnode' => ?_
      obtain rfl := Option.some.inj (hnode.symm.trans hnode')
      rw [← hE]
      exact ha.respects

/-- Each batch that a node submits, with whatever `n_ctx` and on whatever path, has at least one
    token and at most `llama_n_batch` exactly if the batches of the node fit; so it is in every
    run. -/
theorem respectsBatch_iff (node : Node) :
    (∀ ctx, (node.execute ctx).Uses
      (DecodesRespect ctx.engine (node.BatchesFit ctx.engine))) ∧
    ∀ (cfg : Pipeline) (c : Config cfg.engine) (n : String) (h : Nat) (batch : LlamaBatch),
      cfg.Reachable c → cfg.orchestrator.node n = some node →
      c.AtOp (.worker n) (.llamaDecode h batch) →
      (1 ≤ batch.nTokens ∧ batch.nTokens ≤ cfg.engine.llamaNBatch ↔
        node.BatchesFit cfg.engine) := by
  refine ⟨fun ctx => (node.execute_uses ctx).mono fun a ha => ha.respects, ?_⟩
  intro cfg c n h batch hc hn hop
  obtain ⟨tr, hr⟩ := Config.Reaches.exists_run hc
  exact hr.uses program_decodes hop node hn

/-- The prompt of the toy branch fits. -/
theorem respectsBatch_iff_toy : (Toy.star 1 false 1).engine.llamaNBatch = 4 ∧
    1 ≤ (fillBatch 1 [7] 1 true).nTokens ∧
      (fillBatch 1 [7] 1 true).nTokens ≤ (Toy.star 1 false 1).engine.llamaNBatch := by
  have hiff := (respectsBatch_iff (.analytical ⟨"prompt", 1⟩)).2 (Toy.star 1 false 1) _ "B" 2
    (fillBatch 1 [7] 1 true) (reachable_after _ Toy.forkAtOne) rfl (Config.atOp_iff.mpr rfl)
  refine ⟨rfl, hiff.mpr fun tokens htokens => ?_⟩
  obtain rfl := Option.some.inj htokens
  decide

/-- A prompt that passes the budget check need not fit. -/
theorem not_respectsBatch : ¬ ∀ c, Toy.longPrompt.Reachable c → ∀ n h batch,
    c.AtOp (.worker n) (.llamaDecode h batch) →
      1 ≤ batch.nTokens ∧ batch.nTokens ≤ Toy.longPrompt.engine.llamaNBatch := by
  intro hall
  have hle := hall _ (reachable_after _ (Toy.steps "B" 11)) "B" 0 (fillBatch 0 [7, 7] 0 true)
    (Config.atOp_iff.mpr rfl)
  exact absurd hle.2 (by decide)

end Pipeline

end SwarmKV

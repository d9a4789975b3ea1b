import SwarmKV.Spec.Fork

/-!
# A branch meets its outline

What follows the fork in `AnalyticalNode::execute`: the prompt, the decode behind
the fork, and the signal to the prefiller. When `execute` returns, the branch has
signalled its milestone.
-/

namespace SwarmKV.Pipeline

open Monitor.Outline AnalyticalNode

variable {cfg : Pipeline} {n : String} {H : Finset Lock} {w w' : World} {h : Nat} {fork : Fork}
  {branchBuf : Option Nat} {node : AnalyticalNode} {ctx : OrchestratorContext}

/-! ## The prompt -/

/-- A branch keeps its context when it runs out of memory. -/
theorem InContext.record (hw : cfg.InContext n h w) {e : Event} (he : ∀ r, e ≠ .executeEnd r) :
    cfg.InContext n h (w.record (.worker n) e) :=
  ⟨hw.body.record he, hw.ctx⟩

/-- The budget check, whose exceptions are wrapped. -/
private theorem checkBudget_triple {len : Int} {prompt : String} {nCtx : Nat} :
    cfg.outline.Triple (.worker n) guard (cfg.Restored n h len)
      (tryCatch (swarmkvValidateContextBudget cfg.engine len [prompt] nCtx) fun e => do
        perform (.llamaFree h)
        throw (.branchBudget e))
      (fun _ w => cfg.Restored n h len w ∧ 0 ≤ len) (cfg.Failing n guard) := by
  have hraises : Raises n (cfg.Restored n h len) fun _ => cfg.InContext n h := {
    failed := fun _ w hw _ => hw.inContext
    outOfMemory := fun w hw => hw.inContext.record (by simp) }
  refine Triple.catch' (validateContextBudget_triple Closed.restored
    (fun w hw => hw.body.running) hraises) fun e => ?_
  exact freeThrow_triple (by simp)

/-- The prompt is tokenized, and fits behind the fork. -/
theorem preparePrompt_triple (hnode : cfg.orchestrator.node n = some (.analytical node))
    (hE : ctx.engine = cfg.engine) :
    cfg.outline.Triple (.worker n) guard (cfg.Restored n h fork.prefixLen)
      (node.preparePrompt ctx h branchBuf fork)
      (fun tokens w => cfg.Restored n h fork.prefixLen w ∧ 0 ≤ fork.prefixLen ∧
        tokens = cfg.prompt n ∧ tokens ≠ [])
      (cfg.Failing n guard) := by
  have hclosed : cfg.Closed (.worker n) guard (cfg.Restored n h fork.prefixLen) := Closed.restored
  have hrun : ∀ w, cfg.Restored n h fork.prefixLen w → cfg.Running n w :=
    fun w hw => hw.body.running
  have hbind : cfg.outline.Triple (.worker n) guard (cfg.Restored n h fork.prefixLen)
      (bindTargetOf branchBuf) (fun _ => cfg.Restored n h fork.prefixLen)
      (cfg.Failing n guard) := by
    cases branchBuf with
    | some b => exact Triple.ret fun w _ hw => hw
    | none =>
      refine Triple.bind (quiet_op' rfl hclosed hrun fun _ _ _ => trivial) fun s => ?_
      exact Triple.ret fun w _ hw => hw
  unfold preparePrompt
  rw [hE]
  refine Triple.bind hbind fun target => ?_
  refine Triple.bind (bindContiguousCache_triple fun w hw => hw.body) fun _ =>
    Triple.assume fun _ => ?_
  refine Triple.bind (tokenizeWith_triple hclosed hrun (Raises.of_body fun w hw => hw.body)
    (by simp)) fun tokens => Triple.assume fun htokens => ?_
  have hprompt : tokens = cfg.prompt n := by
    simp only [prompt, hnode, htokens, Option.getD_some]
  refine Triple.ite (fun _ => ?_) (fun hne => ?_)
  · exact (freeThrow_triple (by simp)).conseq (fun w _ hw => hw.inContext) (fun _ _ _ h => h)
      fun _ _ _ h => h
  · refine Triple.bind checkBudget_triple fun _ => ?_
    refine Triple.ret fun w _ hw => ⟨hw.1, hw.2, hprompt, fun hnil => ?_⟩
    rw [hnil] at hne
    exact hne rfl

/-! ## The decode -/

/-- The diagnostic string. -/
private theorem publishOutput_triple {key : String} {nTok : Nat} :
    cfg.outline.Triple (.worker n) guard (cfg.InContext n h)
      (node.publishOutput key nTok fork) (fun _ => cfg.InContext n h) (cfg.Failing n guard) := by
  have hclosed : cfg.Closed (.worker n) guard (cfg.InContext n h) := Closed.inContext
  have hclosed' := hclosed.mono (Finset.subset_insert .outputLock guard)
  have hbody : ∀ w, cfg.InContext n h w → cfg.InBody n (insert .outputLock guard) w :=
    fun w hw => hw.body.mono (by simp)
  refine plainLock_triple (.inr (.inl rfl)) subset_rfl hclosed (fun w hw => hw.body) ?_
    (fun _ => hclosed') fun _ w hw => hw.body.running
  refine Triple.bind (alloc_body hclosed' hbody) fun _ => ?_
  exact quiet_op' rfl hclosed' (fun w hw => hw.body.running) fun _ _ _ => trivial

/-- What a branch knows when it decodes its prompt. -/
private theorem Restored.decodePre {id : Nat} {tokens : List LlamaToken} {len : Int}
    (hw : cfg.Restored n h len w) (hlen : 0 ≤ len) (hprompt : tokens = cfg.prompt n)
    (hne : tokens ≠ []) : cfg.DecodePre n h (fillBatch id tokens len true) w := by
  obtain ⟨cells, hctx, hcells⟩ := hw.ctx
  have hcast : ((len.toNat : Nat) : Int) = len := Int.toNat_of_nonneg hlen
  have hbranch : cfg.BranchPre n (len.toNat : Int) tokens w := by
    rw [hcast]
    exact ⟨hprompt, hw.milestone, hw.canonical, hw.restored⟩
  refine ⟨hw.body.running, id, len.toNat, tokens, true, ⟨.worker n, cells⟩, ?_, hctx, rfl,
    fun hgood => (hcells hgood).2, fun _ => ⟨?_, hne, hbranch⟩⟩
  all_goals rw [hcast]

/-- The prompt is decoded behind the fork. -/
theorem decodePrompt_triple {tokens : List LlamaToken} (hlen : 0 ≤ fork.prefixLen)
    (hprompt : tokens = cfg.prompt n) (hne : tokens ≠ []) :
    cfg.outline.Triple (.worker n) guard (cfg.Restored n h fork.prefixLen)
      (node.decodePrompt ctx h tokens fork) (fun _ => cfg.InBody n guard)
      (cfg.Failing n guard) := by
  have hclosed : cfg.Closed (.worker n) guard (cfg.Restored n h fork.prefixLen) := Closed.restored
  have hctx : cfg.Closed (.worker n) guard (cfg.InContext n h) := Closed.inContext
  have hrun : ∀ w, cfg.InContext n h w → cfg.Running n w := fun w hw => hw.body.running
  unfold decodePrompt
  refine Triple.bind (quiet_op' rfl hclosed (fun w hw => hw.body.running)
    fun _ _ _ => trivial) fun batch => ?_
  refine Triple.bind (Q := fun _ => cfg.InContext n h) ?_ fun ok => ?_
  · refine Triple.op hclosed.stable fun w _ hw => ?_
    refine ⟨⟨hw.body.running.live, n, rfl, hw.decodePre hlen hprompt hne⟩,
      fun x ok w' hx _ => ⟨rfl, ?_⟩⟩
    obtain ⟨rfl, rfl⟩ | ⟨c, hc, -, rfl, rfl⟩ := exec_llamaDecode hx
    · exact hw.inContext
    · obtain ⟨cells, hcells, -⟩ := hw.ctx
      obtain rfl := Option.some.inj (hcells.symm.trans hc)
      refine ⟨hw.body.setContexts _, ?_⟩
      simp only [World.setCells, hcells, Function.update_self, Option.map_some]
      exact ⟨_, rfl⟩
  · refine Triple.ite (fun _ => ?_) (fun _ => ?_)
    · refine Triple.bind publishOutput_triple fun _ => ?_
      refine Triple.bind (quiet_op' rfl hctx hrun fun _ _ _ => trivial) fun _ => ?_
      exact llamaFree_triple hctx hrun (fun w hw => hw.ctx) fun w hw => hw.body.setContexts _
    · refine Triple.bind (quiet_op' rfl hctx hrun fun _ _ _ => trivial) fun _ => ?_
      exact freeThrow_triple (by simp)

/-! ## The signal -/

theorem Closed.consumed {i : Thread} {t : Int} :
    cfg.Closed i H fun w => 0 < w.consumed n t := by
  intro w w' hw hq
  obtain ⟨new, hnew⟩ := hq.grows (.worker n)
  have hle : w.consumed n t ≤ w'.consumed n t := by
    unfold World.consumed
    rw [← hnew, List.count_append]
    omega
  omega

/-- The blackboard after `signal_milestone_consumed` has lowered the counts to `left`. -/
def consume (n : String) (t : Int) (left : Int → Option Int) (w : World) : World :=
  (w.update fun s => { s with milestoneConsumersRemaining := left }).record (.worker n)
    (.milestoneConsumed t)

theorem consumed_consume (t : Int) (left : Int → Option Int) :
    0 < (consume n t left w).consumed n t := by
  simp [consume, World.consumed, World.record, List.count_append]

/-- The count is not part of the canonical triple. -/
theorem InBody.consume (hw : cfg.InBody n H w) {t : Int} (left : Int → Option Int) :
    cfg.InBody n H (consume n t left w) := by
  have hb : cfg.InBody n H (w.update fun s => { s with milestoneConsumersRemaining := left }) :=
    ⟨hw.running.congr rfl rfl rfl, hw.stagingLive, fun hH hgood =>
      hw.triple hH (hgood.grows fun _ => List.prefix_rfl)⟩
  exact hb.record (by simp)

/-- `signal_milestone_consumed` of a branch that forks at `t`. -/
theorem signalMilestoneConsumed_triple {A : World → Prop} {t : Int} {X : Error → World → Prop}
    (hH : H ⊆ {.llamaApiMutex}) (hA : cfg.Closed (.worker n) H A)
    (hlive : ∀ w, A w → cfg.Live n w) (hm : cfg.orchestrator.HasConsumers t)
    (hmem : n ∈ cfg.orchestrator.branchesAt t)
    (hup : ∀ w left, A w → A (consume n t left w)) :
    cfg.outline.Triple (.worker n) H A (PipelineState.signalMilestoneConsumed t)
      (fun _ w => A w ∧ 0 < w.consumed n t) X := by
  have hlock : Lock.watermarkMutex ∈ insert Lock.watermarkMutex H := Finset.mem_insert_self _ _
  have hclosed : cfg.Closed (.worker n) (insert .watermarkMutex H) fun w =>
      A w ∧ cfg.MutexInv w :=
    (hA.mono (Finset.subset_insert _ _)).and (Closed.mutexInv hlock)
  have hclosed' : cfg.Closed (.worker n) (insert .watermarkMutex H) fun w =>
      (A w ∧ cfg.MutexInv w) ∧ 0 < w.consumed n t :=
    hclosed.and Closed.consumed
  unfold PipelineState.signalMilestoneConsumed
  have hpos := hm.1
  rw [if_neg (by omega)]
  refine Triple.critical (watermarkMutex_notMem hH) (rank_lt_watermarkMutex hH) hA.stable
    hlive fun w hw _ hL => ?_
  refine wp_op hclosed.stable ⟨hw, hL⟩ fun w₁ hI₁ hw₁ =>
    ⟨⟨hlive w₁ hw₁.1, hlock, n, rfl, hmem⟩, fun x r w₂ hx _ => ?_⟩
  -- the milestone has an entry, as it was registered for this branch
  have hcount := hI₁.consumers t
  rw [consumersLeft, if_pos hm] at hcount
  simp only [exec, hcount, Option.some.injEq, Prod.mk.injEq] at hx
  obtain ⟨rfl, rfl⟩ := hx
  have hw₂ : ∀ left, (A (consume n t left w₁) ∧ cfg.MutexInv (consume n t left w₁)) ∧
      0 < (consume n t left w₁).consumed n t := fun left =>
    ⟨⟨hup w₁ left hw₁.1, MutexInv.same (w₁.log_grows_record _ _) hw₁.2 rfl rfl⟩,
      consumed_consume t left⟩
  dsimp only
  split
  · -- the last consumer wakes the prefiller
    rename_i hleft
    refine wp_notifyAll hclosed'.stable (hw₂ _) (fun w hw => hlive w hw.1.1) ⟨rfl, fun w₃ hR hI => ?_⟩
    obtain ⟨⟨hA₃, hM₃⟩, hc₃⟩ := hclosed'.stable _ w₃ (hw₂ _) hR hI
    refine ⟨hlive w₃ hA₃, hM₃, .inl ?_, hA₃, hc₃⟩
    show (∅ ∪ (if _ then {Cv.prefillResumeCv} else ∅) : Finset Cv).erase .prefillResumeCv = ∅
    rw [if_pos hleft]
    decide
  · rename_i hleft
    refine ⟨rfl, fun w₃ hR hI => ?_⟩
    obtain ⟨⟨hA₃, hM₃⟩, hc₃⟩ := hclosed'.stable _ w₃ (hw₂ _) hR hI
    refine ⟨hlive w₃ hA₃, hM₃, .inl ?_, hA₃, hc₃⟩
    show (∅ ∪ (if _ then {Cv.prefillResumeCv} else ∅) : Finset Cv) = ∅
    rw [if_neg hleft]
    rfl

/-! ## execute -/

/-- The branch has signalled its milestone, if it has one. -/
def Signalled (cfg : Pipeline) (n : String) (w : World) : Prop :=
  0 < cfg.orchestrator.req n → 0 < w.consumed n (cfg.orchestrator.req n)

theorem Closed.signalled {i : Thread} : cfg.Closed i H (cfg.Signalled n) :=
  fun w w' hw hq hpos => Closed.consumed w w' (hw hpos) hq

/-- A branch with a milestone signals it under the guard. -/
private theorem signal_triple (hpos : 0 < cfg.orchestrator.req n) :
    cfg.outline.Triple (.worker n) guard (cfg.InBody n guard)
      (PipelineState.signalMilestoneConsumed (cfg.orchestrator.req n))
      (fun _ w => cfg.InBody n guard w ∧ cfg.Signalled n w) (cfg.Failing n guard) := by
  have hsignal : n ∈ cfg.orchestrator.names → cfg.outline.Triple (.worker n) guard
      (cfg.InBody n guard) (PipelineState.signalMilestoneConsumed (cfg.orchestrator.req n))
      (fun _ w => cfg.InBody n guard w ∧ 0 < w.consumed n (cfg.orchestrator.req n))
      (cfg.Failing n guard) := fun hn =>
    signalMilestoneConsumed_triple subset_rfl Closed.inBody (fun w hw => hw.running.live)
      (Orchestrator.hasConsumers_req hn hpos) (Orchestrator.mem_branchesAt.mpr ⟨hn, rfl⟩)
      fun w left hw => hw.consume left
  exact (Triple.assume hsignal).conseq (fun w _ hw => ⟨hw, hw.running.live.1⟩)
    (fun _ w _ hw => ⟨hw.1, fun _ => hw.2⟩) fun _ _ _ h => h

/-- `AnalyticalNode::execute`, under the guard. -/
private theorem forkAndDecode_triple (hnode : cfg.orchestrator.node n = some (.analytical node))
    (hE : ctx.engine = cfg.engine) :
    cfg.outline.Triple (.worker n) guard (cfg.InBody n guard) (node.forkAndDecode ctx)
      (fun _ w => cfg.InBody n guard w ∧ cfg.Signalled n w) (cfg.Failing n guard) := by
  have hreq : cfg.orchestrator.req n = node.requiredPrefixTokens := by
    simp [Orchestrator.req, hnode, Node.requiredPrefixTokens]
  unfold forkAndDecode
  refine Triple.bind (quiet_op' rfl Closed.inBody (fun w hw => hw.running)
    fun _ _ _ => trivial) fun t₀ => ?_
  refine Triple.ite (fun _ => Triple.throw fun w _ hw => hw.failing (by simp)) fun _ => ?_
  refine Triple.bind (chooseFork_triple hreq) fun fork => ?_
  refine Triple.of_exists (A := fun bytes w => cfg.Chosen n fork bytes w) (fun _ _ hw => hw)
    fun bytes => ?_
  refine Triple.bind (materializeFork_triple hreq) fun branchBuf => ?_
  refine Triple.bind noteFork_triple fun _ => ?_
  refine Triple.bind (init_triple Closed.noted fun w hw =>
    hw.materialized.body.running) fun r => ?_
  cases r with
  | none => exact Triple.throw fun w _ hw => hw.1.materialized.body.failing (by simp)
  | some lctx =>
    refine Triple.bind (restoreFork_triple.conseq (fun w _ hw => ⟨hw.1, hw.2 lctx rfl⟩)
      (fun _ _ _ h => h) fun _ _ _ h => h) fun _ => ?_
    refine Triple.bind (preparePrompt_triple hnode hE) fun tokens => ?_
    refine Triple.assume fun hok => ?_
    obtain ⟨hlen, hprompt, hne⟩ := hok
    refine Triple.bind (decodePrompt_triple hlen hprompt hne) fun _ => ?_
    dsimp only
    have hdone : cfg.Closed (.worker n) guard fun w => cfg.InBody n guard w ∧ cfg.Signalled n w :=
      Closed.inBody.and Closed.signalled
    rw [← hreq]
    refine Triple.ite (fun hpos => ?_) (fun hle => ?_)
    · refine Triple.bind (signal_triple hpos) fun _ => ?_
      exact recordTiming_triple subset_rfl hdone fun w hw => hw.1
    · exact (recordTiming_triple subset_rfl hdone fun w hw => hw.1).conseq
        (fun w _ hw => ⟨hw, fun hpos => absurd hpos hle⟩) (fun _ _ _ h => h) fun _ _ _ h => h

/-- `AnalyticalNode::execute`: when it returns, the branch has signalled its milestone. -/
theorem executeAnalytical_triple (hnode : cfg.orchestrator.node n = some (.analytical node))
    (hE : ctx.engine = cfg.engine) :
    cfg.outline.Triple (.worker n) ∅ (cfg.Running n) (node.execute ctx)
      (fun _ w => cfg.Running n w ∧ cfg.Signalled n w) (cfg.Failing n ∅) := by
  refine guard_triple Closed.running (fun w hw => hw) ?_
    fun _ => Closed.running.and Closed.signalled
  exact (forkAndDecode_triple hnode hE).conseq (fun w _ hw => hw.2)
    (fun _ w _ hw => ⟨⟨hw.1.running, hw.2⟩, hw.1⟩) fun _ _ _ h => h

end SwarmKV.Pipeline

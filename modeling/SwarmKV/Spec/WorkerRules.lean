import SwarmKV.Spec.PrefillRules

/-!
# Rules for branches and workers

How an observer goes through the code of a branch, of a worker around its node, and of the caller.
-/

namespace SwarmKV

open Monitor

variable {E : Engine}

/-! ## The branch -/

namespace AnalyticalNode

variable {node : AnalyticalNode} {ctx : OrchestratorContext} {within : Prop}

theorem materializeFork_uses (fork : Fork) :
    (node.materializeFork ctx fork).Uses ForkAction := by
  unfold materializeFork
  split
  · split
    · exact .throw _
    · refine .bind ((MemoryPool.allocateCache_uses _ ctx.nCtx).mono fun _ => .pool) fun b => ?_
      refine .bind (.perform (.copy .load)) fun s => .ite ?_ ?_
      · exact .bind ((KVHandoff.materializeBranchCache_uses _ _ _).mono fun _ => .copy)
          fun _ => .ret _
      · refine .bind (.perform (.copy (.bufferSize b))) fun size => .ite (.throw _) ?_
        exact .bind (.perform (.copy (.readBytes _ _))) fun _ =>
          .bind (.perform (.copy (.writeBytes b _))) fun _ => .ret _
  · exact .ret _

theorem restoreFork_uses (h : Nat) (fork : Fork) (branchBuf : Option Nat) :
    (restoreFork h fork branchBuf).Uses PromptAction := by
  cases branchBuf with
  | none => exact .ret ()
  | some b =>
    refine .bind (.perform (.llamaStateSeqSetData _ _ _ _)) fun n => .ite ?_ (.ret ())
    exact .bind (.perform (.llamaFree h)) fun _ => .throw _

theorem tokenizeText_spec {σ : Type} {A : Observer sig σ} {I : σ → Prop} {text : String}
    (h : A.Keeps I (.op .allocate)) :
    A.Spec I (tokenizeText E text) (fun tokens s => I s ∧ tokensOf E text = some tokens)
      fun _ => I :=
  tokenizeWith_spec h

/-- The prompt that passes the checks has tokens, and fits behind the fork as far as the wrapped
    sum tells. -/
theorem preparePrompt_fits_spec {σ : Type} {A : Observer sig σ} {I : σ → Prop} (h : Nat)
    (branchBuf : Option Nat) (fork : Fork)
    (hI : ∀ a, PromptAction a → A.Keeps I a) :
    A.Spec I (node.preparePrompt ctx h branchBuf fork)
      (fun tokens s => I s ∧ tokensOf ctx.engine node.branchPrompt = some tokens ∧ tokens ≠ [] ∧
        0 ≤ fork.prefixLen ∧ toInt32 (fork.prefixLen + tokens.length + 128) ≤ toInt32 ctx.nCtx)
      fun _ => I := by
  unfold preparePrompt
  refine .bind (.of_uses (bindTargetOf_uses branchBuf) fun a ha => hI a (.lookup ha))
    fun target => ?_
  refine .bind (.of_uses (KVHandoff.bindContiguousCache_uses _ _) hI) fun _ => ?_
  refine .bind (tokenizeText_spec (hI _ .allocate)) fun tokens => ?_
  refine .assume fun htokens => .ite (fun _ => ?_) fun hne => ?_
  · exact .bind (.of_uses (.perform (.llamaFree h)) hI) fun _ => .throw fun _ => id
  · refine .bind (.catch' (K := fun _ => I)
      (swarmkvValidateContextBudget_spec htokens (hI _ .allocate)) fun e => ?_) fun _ => ?_
    · exact .bind (.of_uses (.perform (.llamaFree h)) hI) fun _ => .throw fun _ => id
    · exact .ret fun s hs => ⟨hs.1, htokens, by simpa [List.isEmpty_iff] using hne, hs.2⟩

/-- The prompt that passes the checks has tokens. -/
theorem preparePrompt_spec {σ : Type} {A : Observer sig σ} {I : σ → Prop} (h : Nat)
    (branchBuf : Option Nat) (fork : Fork)
    (hI : ∀ a, ContextAction ctx.engine within a → A.Keeps I a) :
    A.Spec I (node.preparePrompt ctx h branchBuf fork)
      (fun tokens s => I s ∧ tokensOf ctx.engine node.branchPrompt = some tokens ∧ tokens ≠ [])
      fun _ => I :=
  .post (preparePrompt_fits_spec h branchBuf fork fun a ha => hI a ha.context)
    fun _ _ hs => ⟨hs.1, hs.2.1, hs.2.2.1⟩

theorem decodePrompt_uses (h : Nat) {tokens : List LlamaToken} (fork : Fork)
    (hb : ∀ id, RespectsBatch E within (fillBatch id tokens fork.prefixLen true)) :
    (node.decodePrompt ctx h tokens fork).Uses (ContextAction E within) := by
  unfold decodePrompt
  refine .bind (.perform (.decode .llamaBatchInit)) fun id => ?_
  refine .bind (.perform (.decode (.llamaDecode h _ (hb id)))) fun ok => .ite ?_ ?_
  · refine .bind ((publishOutput_uses _ _ _).mono fun _ => .host) fun _ => ?_
    exact .bind (.perform (.decode (.llamaBatchFree id))) fun _ => .perform (.llamaFree h)
  · exact .bind (.perform (.decode (.llamaBatchFree id))) fun _ =>
      .bind (.perform (.llamaFree h)) fun _ => .throw _

theorem forkAndDecode_uses (node : AnalyticalNode) (ctx : OrchestratorContext) :
    (node.forkAndDecode ctx).Uses (BodyAction ctx.engine
      ((Node.analytical node).BatchesFit ctx.engine) node.requiredPrefixTokens) := by
  unfold forkAndDecode
  refine .bind (.perform (.branch (.host .steadyClock))) fun t0 => .ite (.throw _) ?_
  refine .bind (chooseFork_uses.mono fun _ ha => .branch (.lookup ha)) fun fork => ?_
  refine .bind ((materializeFork_uses fork).mono fun _ ha => .branch ha.branch) fun branchBuf => ?_
  refine .bind (.perform (.branch (.noteFork _ _ _))) fun _ => ?_
  refine .bind (.perform (.branch .llamaInitFromModel)) fun r => ?_
  split
  · exact .throw _
  · rename_i h
    refine .bind ((restoreFork_uses h fork branchBuf).mono fun _ ha => .branch ha.context.branch)
      fun _ => ?_
    have hkeeps : ∀ a, BodyAction ctx.engine ((Node.analytical node).BatchesFit ctx.engine)
        node.requiredPrefixTokens a → (Observer.allows _).Keeps (fun _ => True) a :=
      fun a ha _ _ => ⟨ha, fun _ _ => trivial⟩
    refine Prog.uses_iff_spec.mpr (.bind (preparePrompt_spec h branchBuf fork fun a ha =>
      hkeeps a (.branch ha.branch)) fun tokens => .fix fun s hs => ?_)
    refine .conseq (Prog.uses_iff_spec.mp ?_) (fun _ _ => trivial) (fun _ _ _ => trivial)
      fun _ _ _ => trivial
    have hb : ∀ id, RespectsBatch ctx.engine ((Node.analytical node).BatchesFit ctx.engine)
        (fillBatch id tokens fork.prefixLen true) := by
      intro id
      refine (fillBatch_respectsBatch hs.2.2 id fork.prefixLen true).trans ⟨?_, ?_⟩
      · intro hle tokens' htokens'
        obtain rfl := Option.some.inj (hs.2.1.symm.trans htokens')
        exact hle
      · exact fun hall => hall _ hs.2.1
    refine .bind ((decodePrompt_uses h fork hb).mono fun _ ha => .branch ha.branch) fun _ => ?_
    have htiming : ∀ key, (PipelineState.recordTiming key t0).Uses (BodyAction ctx.engine
        ((Node.analytical node).BatchesFit ctx.engine) node.requiredPrefixTokens) :=
      fun key => (PipelineState.recordTiming_uses key t0).mono fun _ ha => .branch (.host ha)
    refine .ite ?_ (htiming _)
    exact .bind ((PipelineState.signalMilestoneConsumed_uses _).mono fun _ => .signal)
      fun _ => htiming _

/-- The body of a branch, around its prompt: `P` before it is decoded, `Q` then, and `R` once the
    time has been taken. -/
theorem forkAndDecode_spec {σ : Type} {A : Observer sig σ} {P Q R : σ → Prop}
    {X : Error → σ → Prop} (hbefore : ∀ a, OpeningAction a → A.Keeps P a)
    (hP : ∀ e s, P s → X e s)
    (hdecode : ∀ tokens h fork, tokensOf ctx.engine node.branchPrompt = some tokens → tokens ≠ [] →
      A.Spec P (node.decodePrompt ctx h tokens fork) (fun _ => Q) X)
    (hsignal : ∀ a, SignalAction node.requiredPrefixTokens a → A.Keeps Q a)
    (hQ : ∀ e s, Q s → X e s)
    (htiming : ∀ t₀, A.Spec Q (PipelineState.recordTiming ctx.nodeName t₀) (fun _ => R) X) :
    A.Spec P (node.forkAndDecode ctx) (fun _ => R) X := by
  have hpre : ∀ {α : Type} {q : Prog α}, q.Uses OpeningAction → A.Spec P q (fun _ => P) X :=
    fun hq => .err (.of_uses hq hbefore) hP
  unfold forkAndDecode
  refine .bind (hpre (.perform .steadyClock)) fun t₀ => .ite (fun _ => .throw fun s hs => hP _ s hs)
    fun _ => ?_
  refine .bind (hpre (chooseFork_uses.mono fun _ ha => .prompt (.lookup ha))) fun fork => ?_
  refine .bind (hpre ((materializeFork_uses fork).mono fun _ => .fork)) fun branchBuf => ?_
  refine .bind (hpre (.perform (.noteFork _ _ _))) fun _ =>
    .bind (hpre (.perform .llamaInitFromModel)) fun r => ?_
  cases r with
  | none => exact .throw fun s hs => hP _ s hs
  | some h =>
    refine .bind (hpre ((restoreFork_uses h fork branchBuf).mono fun _ => .prompt)) fun _ => ?_
    refine .bind (.err (preparePrompt_fits_spec h branchBuf fork
      fun a ha => hbefore a (.prompt ha)) hP)
      fun tokens => .assume fun hfits => ?_
    refine .bind (hdecode tokens h fork hfits.1 hfits.2.1) fun _ => .ite (fun _ => .bind ?_
      fun _ => htiming t₀) fun _ => htiming t₀
    exact .err (.of_uses (PipelineState.signalMilestoneConsumed_uses _) hsignal) hQ

end AnalyticalNode

/-! ## Nodes and workers -/

theorem Node.execute_uses (node : Node) (ctx : OrchestratorContext) :
    (node.execute ctx).Uses
      (NodeAction ctx.engine (node.BatchesFit ctx.engine) node.requiredPrefixTokens) := by
  cases node with
  | prefill node => exact (node.execute_uses ctx).mono fun _ ha => .prefill ha Iff.rfl
  | analytical node =>
    exact .withLock .lock .unlock ((node.forkAndDecode_uses ctx).mono fun _ => .body)

namespace Orchestrator

variable {o : Orchestrator}

theorem awaitDependencies_uses (req : Int) (deps : List String) :
    (o.awaitDependencies req deps).Uses GateAction := by
  induction deps with
  | nil => exact .ret ()
  | cons d deps ih =>
    refine .bind ?_ fun _ => ih
    unfold awaitDependency
    split
    · exact .throw _
    · refine .ite ?_ (.perform (.awaitCompletion d))
      exact .ite (.throw _) (.withLock .lock .unlock (.await (.wait req)))

/-- A worker whose gate ends with `I`, whose `execute()` starts there and takes `J` to `Q` of its
    outcome, which is recorded and leads to `K`, with all the rest of it keeping `K`. -/
theorem workerAt_outcome_spec {σ : Type} {A : Observer sig σ} {P I J K : σ → Prop}
    {Q : Outcome → σ → Prop} {n : String} {nCtx : Nat} (hP : ∀ s, P s → K s)
    (hgate : ∀ node, o.node n = some node → A.Spec P
      (o.awaitDependencies node.requiredPrefixTokens (o.getDependenciesForNode n))
      (fun _ => I) fun _ => K)
    (hstart : ∀ s, I s → A.ok s (.op (.note .executeStart)) ∧
      ∀ r, A.ans s (.op (.note .executeStart)) r → J (A.next s (.op (.note .executeStart)) r))
    (hend : ∀ q s, Q q s → A.ok s (.op (.note (.executeEnd q))) ∧
      ∀ r, A.ans s (.op (.note (.executeEnd q))) r → K (A.next s (.op (.note (.executeEnd q))) r))
    (hpromise : ∀ r, A.Keeps K (.op (.setPromise n r)))
    (htask : ∀ r, A.Keeps K (.op (.setTask n r)))
    (hsignal : ∀ t a, SignalAction t a → A.Keeps K a)
    (hnode : ∀ node ctx, o.node n = some node → ctx.engine = E → ctx.nCtx = nCtx →
      ctx.nodeName = n → A.Spec J (node.execute ctx) (fun _ => Q (.ok ())) fun e => Q (.error e)) :
    A.Spec P (o.workerAt E nCtx n) (fun _ => K) fun _ => K := by
  have hset : ∀ r, A.Spec K (perform (.setPromise n r)) (fun _ => K) fun _ => K :=
    fun r => .op (hpromise r)
  have hbody : A.Spec P (o.workerBodyAt E nCtx n) (fun _ => K) fun _ => K := by
    unfold workerBodyAt
    cases hn : o.node n with
    | none => exact .throw hP
    | some node =>
      refine .bind (hgate node hn) fun _ => .catch' (K := fun _ => K) ?_ fun e => ?_
      · refine .bind (Q := fun _ => K) (.bind (.op fun s hs => hstart s hs) fun _ =>
          .bind (.attempt (hnode node _ hn rfl rfl rfl)) fun r => ?_) fun _ => ?_
        · cases r with
          | ok a => exact .op (hend (.ok ()))
          | error e => exact .bind (.op (hend (.error e))) fun _ => .throw fun _ => id
        · exact .bind (hset _) fun _ => .ite (fun _ => .ret fun _ => id) fun _ => .throw fun _ => id
      · have hrest : A.Spec K (perform (.setPromise n (.error e)) >>= fun _ => throw e : Prog Unit)
            (fun _ => K) fun _ => K := .bind (hset _) fun _ => .throw fun _ => id
        refine .ite (fun _ => .bind ?_ fun _ => hrest) fun _ => hrest
        exact .of_uses (PipelineState.signalMilestoneConsumed_uses _) (hsignal _)
  unfold workerAt
  refine .bind (Q := fun _ => K) (.post (.attempt hbody) fun r s hs => ?_) fun r =>
    .bind (Q := fun _ => K) (.op (htask r)) fun _ => ?_
  · cases r <;> exact hs
  · cases r with
    | ok a => exact .ret fun _ hs => hs
    | error e => exact .throw fun _ hs => hs

/-- A worker whose gate ends with `I`, whose `execute()` starts there and takes `J` to `K`, with
    all the rest of it keeping `K`. -/
theorem workerAt_spec {σ : Type} {A : Observer sig σ} {P I J K : σ → Prop} {n : String}
    {nCtx : Nat} (hP : ∀ s, P s → K s)
    (hgate : ∀ node, o.node n = some node → A.Spec P
      (o.awaitDependencies node.requiredPrefixTokens (o.getDependenciesForNode n))
      (fun _ => I) fun _ => K)
    (hstart : ∀ s, I s → A.ok s (.op (.note .executeStart)) ∧
      ∀ r, A.ans s (.op (.note .executeStart)) r → J (A.next s (.op (.note .executeStart)) r))
    (hworker : ∀ a, WorkerAction n a → a ≠ .op (.note .executeStart) → A.Keeps K a)
    (hsignal : ∀ t a, SignalAction t a → A.Keeps K a)
    (hnode : ∀ node ctx, o.node n = some node → ctx.engine = E → ctx.nCtx = nCtx →
      ctx.nodeName = n → A.Spec J (node.execute ctx) (fun _ => K) fun _ => K) :
    A.Spec P (o.workerAt E nCtx n) (fun _ => K) fun _ => K :=
  workerAt_outcome_spec (Q := fun _ => K) hP hgate hstart
    (fun q => hworker _ (.finish q) (by simp)) (fun r => hworker _ (.setPromise r) (by simp))
    (fun r => hworker _ (.setTask r) (by simp)) hsignal hnode

theorem worker_spec {σ : Type} {A : Observer sig σ} {P I J K : σ → Prop} {n : String}
    (hP : ∀ s, P s → K s)
    (hgate : ∀ node, o.node n = some node → A.Spec P
      (o.awaitDependencies node.requiredPrefixTokens (o.getDependenciesForNode n))
      (fun _ => I) fun _ => K)
    (hstart : ∀ s, I s → A.ok s (.op (.note .executeStart)) ∧
      ∀ r, A.ans s (.op (.note .executeStart)) r → J (A.next s (.op (.note .executeStart)) r))
    (hworker : ∀ a, WorkerAction n a → a ≠ .op (.note .executeStart) → A.Keeps K a)
    (hsignal : ∀ t a, SignalAction t a → A.Keeps K a)
    (hnode : ∀ node ctx, o.node n = some node → ctx.engine = E → ctx.nodeName = n →
      A.Spec J (node.execute ctx) (fun _ => K) fun _ => K) :
    A.Spec P (o.worker E n) (fun _ => K) fun _ => K :=
  workerAt_spec hP hgate hstart hworker hsignal
    fun node ctx hn hE _ hname => hnode node ctx hn hE hname

/-- A worker does what its node does, between its gate and the end of its task. -/
theorem worker_uses {U : Action sig → Prop} {n : String} (hgate : ∀ a, GateAction a → U a)
    (hworker : ∀ a, WorkerAction n a → U a) (hsignal : ∀ t a, SignalAction t a → U a)
    (hnode : ∀ node ctx, o.node n = some node → ctx.engine = E → (node.execute ctx).Uses U) :
    (o.worker E n).Uses U := by
  have hkeep : ∀ a, U a → (Observer.allows U).Keeps (fun _ => True) a :=
    fun a ha _ _ => ⟨ha, fun _ _ => trivial⟩
  refine Prog.uses_iff_spec.mpr (worker_spec (I := fun _ => True) (J := fun _ => True)
    (fun _ _ => trivial)
    (fun node _ => .of_uses (awaitDependencies_uses _ _) fun a ha => hkeep a (hgate a ha))
    (fun _ _ => ⟨hworker _ .start, fun _ _ => trivial⟩) (fun a ha _ => hkeep a (hworker a ha))
    (fun t a ha => hkeep a (hsignal t a ha)) fun node ctx hn hE _ =>
      Prog.uses_iff_spec.mp (hnode node ctx hn hE))

theorem joinWorkers_uses (names : List String) : (joinWorkers names).Uses CallerAction := by
  induction names with
  | nil => exact .ret ()
  | cons n names ih => exact .bind (.perform (.awaitTask n)) fun _ => ih

theorem freeBuffers_uses (bs : List Nat) : (MemoryPool.freeBuffers bs).Uses CallerAction := by
  induction bs with
  | nil => exact .ret ()
  | cons b bs ih => exact .bind (.perform (.freeBuffer b)) fun _ => ih

theorem freeAll_uses : MemoryPool.freeAll.Uses CallerAction := by
  refine .withLock .lock .unlock (.bind (.perform .getActiveBuffers) fun bs => ?_)
  exact .bind (freeBuffers_uses bs) fun _ => .perform .clearActiveBuffers

theorem joinAll_uses : o.joinAll.Uses CallerAction :=
  .bind (joinWorkers_uses _) fun _ => freeAll_uses

end Orchestrator

/-- The programs of a pipeline do what their observers accept, if its workers and its caller do. -/
theorem Pipeline.programAt_meets {σ : Type} {A : Thread → Observer sig σ} (cfg : Pipeline)
    {nCtx : Nat} (hcaller : ∀ a, CallerAction a → (A .main).Keeps (fun _ => True) a)
    (hworker : ∀ n ∈ cfg.orchestrator.names, (A (.worker n)).Spec (· = (A (.worker n)).start)
      (cfg.orchestrator.workerAt cfg.engine nCtx n) (fun _ _ => True) fun _ _ => True)
    (i : Thread) : (A i).Meets (cfg.programAt nCtx i) (fun _ _ => True) (A i).start := by
  cases i with
  | main =>
    exact (Observer.Spec.of_uses Orchestrator.joinAll_uses hcaller _ trivial).mono
      fun _ _ _ => trivial
  | worker n =>
    show (A _).Meets (if n ∈ cfg.orchestrator.names then
      cfg.orchestrator.workerAt cfg.engine nCtx n else pure () : Prog Unit) _ _
    split
    · exact (hworker n ‹_› _ rfl).mono fun _ _ _ => trivial
    · trivial

theorem Pipeline.program_meets {σ : Type} {A : Thread → Observer sig σ} (cfg : Pipeline)
    (hcaller : ∀ a, CallerAction a → (A .main).Keeps (fun _ => True) a)
    (hworker : ∀ n ∈ cfg.orchestrator.names, (A (.worker n)).Spec (· = (A (.worker n)).start)
      (cfg.orchestrator.worker cfg.engine n) (fun _ _ => True) fun _ _ => True) (i : Thread) :
    (A i).Meets (cfg.program i) (fun _ _ => True) (A i).start :=
  cfg.programAt_meets hcaller hworker i

end SwarmKV

import SwarmKV.Spec.PoolEnd
import SwarmKV.Spec.FailureCorrect
import SwarmKV.Spec.Toy

/-!
# The buffers of the pool

The registry owns the buffers of the pool, for all clients that use it by its calls; and
`execute_pipeline` frees them when no worker can touch one any more.
-/

namespace SwarmKV

open Monitor

namespace MemoryPool

variable {E : Engine} {tr : Trace (machine E)} {c : Config E} {i : Thread}

/-- Running out of memory goes on record. -/
private theorem badAlloc_logged {c₀ : Config E} {later earlier : Trace (machine E)} {d : World}
    (hr : c₀.Run tr c) (htr : tr = later ++ ⟨i, .op .allocate, false, d⟩ :: earlier) :
    .badAlloc ∈ c.data.log i := by
  obtain ⟨c₁, c₂, -, hacts, hreach⟩ := hr.earlier htr
  cases hacts with
  | op ht hx =>
    obtain ⟨hok, -⟩ | ⟨-, rfl⟩ := exec_allocate hx
    · cases hok
    · exact (Pipeline.reaches_log_grows hreach i).subset (by simp [World.record])

end MemoryPool

/-! ## Pipelines -/

theorem HostAction.unpooled {a : Action sig} (h : HostAction a) : SwarmKV.unpooled a = true := by
  cases h <;> rfl

theorem LookupAction.unpooled {a : Action sig} (h : LookupAction a) :
    SwarmKV.unpooled a = true := by
  cases h <;> rfl

theorem DecodeAction.unpooled {E : Engine} {within : Prop} {a : Action sig}
    (h : DecodeAction E within a) : SwarmKV.unpooled a = true := by
  cases h <;> rfl

theorem ContextAction.unpooled {E : Engine} {within : Prop} {a : Action sig}
    (h : ContextAction E within a) : SwarmKV.unpooled a = true := by
  cases h with
  | host h => exact h.unpooled
  | lookup h => exact h.unpooled
  | decode h => exact h.unpooled
  | _ => rfl

theorem PrefillAction.unpooled {E : Engine} {a : Action sig} (h : PrefillAction E a) :
    SwarmKV.unpooled a = true := by
  cases h with
  | host h => exact h.unpooled
  | decode h => exact h.unpooled
  | commit h => cases h <;> rfl
  | restore h =>
    cases h with
    | lookup h => exact h.unpooled
    | llamaStateSeqSetData => rfl
  | _ => rfl

namespace Pipeline

open MemoryPool

variable {cfg : Pipeline} {n : String} {w : World}

/-- Code that has nothing to do with the pool. -/
private theorem stays_away {α : Type} {p : Prog α} {U : Action sig → Prop} (hp : p.Uses U)
    (hU : ∀ a, U a → unpooled a = true) :
    poolWatch.Spec (· = .away) p (fun _ => (· = .away)) fun _ => (· = .away) :=
  .of_uses hp fun a ha => keeps_away (hU a ha)

private theorem perform_away {o : Op} (ho : unpooled (.op o) = true) :
    poolWatch.Spec (· = .away) (perform o) (fun _ => (· = .away)) fun _ => (· = .away) :=
  stays_away (.perform rfl) fun _ ha => ha ▸ ho

private theorem materializeFork_poolWatch (node : AnalyticalNode) (ctx : OrchestratorContext)
    (fork : AnalyticalNode.Fork) : poolWatch.Spec (· = .away) (node.materializeFork ctx fork)
      (fun _ => (· = .away)) fun _ => (· = .away) := by
  unfold AnalyticalNode.materializeFork
  refine .ite (fun _ => ?_) fun _ => .ret fun _ hs => hs
  cases fork.data with
  | none => exact .throw fun _ hs => hs
  | some data =>
    refine .bind (allocateCache_poolWatch .branchAllocationFailed ctx.nCtx) fun b => ?_
    refine .bind (perform_away rfl) fun s => .ite (fun _ => ?_) fun _ => ?_
    · refine .bind (stays_away (KVHandoff.materializeBranchCache_uses _ _ _) fun a ha => ?_)
        fun _ => .ret fun _ hs => hs
      cases ha <;> rfl
    · refine .bind (perform_away rfl) fun size => .ite (fun _ => .throw fun _ hs => hs) fun _ => ?_
      exact .bind (perform_away rfl) fun _ => .bind (perform_away rfl) fun _ => .ret fun _ hs => hs

private theorem forkAndDecode_poolWatch (node : AnalyticalNode) (ctx : OrchestratorContext) :
    poolWatch.Spec (· = .away) (node.forkAndDecode ctx) (fun _ => (· = .away))
      fun _ => (· = .away) := by
  unfold AnalyticalNode.forkAndDecode
  refine .bind (perform_away rfl) fun t₀ => .ite (fun _ => .throw fun _ hs => hs) fun _ => ?_
  refine .bind (stays_away AnalyticalNode.chooseFork_uses fun _ ha => ha.unpooled) fun fork => ?_
  refine .bind (materializeFork_poolWatch node ctx fork) fun branchBuf => ?_
  refine .bind (perform_away rfl) fun _ => .bind (perform_away rfl) fun r => ?_
  cases r with
  | none => exact .throw fun _ hs => hs
  | some h =>
    refine .bind (stays_away (AnalyticalNode.restoreFork_uses h fork branchBuf) fun a ha => by
      have hctx : ContextAction ctx.engine True a := ha.context
      exact hctx.unpooled) fun _ => ?_
    have hprompt := @AnalyticalNode.preparePrompt_spec node _ _ _ poolWatch (· = .away) h branchBuf fork
      fun a (ha : ContextAction ctx.engine True a) => keeps_away ha.unpooled
    refine .bind hprompt fun tokens => .assume fun htokens => ?_
    have hb : ∀ id, RespectsBatch ctx.engine (tokens.length ≤ ctx.engine.llamaNBatch)
        (fillBatch id tokens fork.prefixLen true) :=
      fun id => fillBatch_respectsBatch htokens.2 id fork.prefixLen true
    refine .bind (stays_away (AnalyticalNode.decodePrompt_uses h fork hb) fun _ ha => ha.unpooled)
      fun _ => ?_
    have htiming := stays_away (PipelineState.recordTiming_uses ctx.nodeName t₀)
      fun _ ha => ha.unpooled
    refine .ite (fun _ => .bind ?_ fun _ => htiming) fun _ => htiming
    exact stays_away (PipelineState.signalMilestoneConsumed_uses _) fun a ha => by cases ha <;> rfl

/-- Every thread of a pipeline uses the pool by its calls only. -/
private theorem program_poolWatch (i : Thread) :
    poolWatch.Meets (cfg.program i) (fun _ s => s = .away) .away := by
  have hmeets : ∀ {p : Prog Unit}, poolWatch.Spec (· = .away) p (fun _ => (· = .away))
      (fun _ => (· = .away)) → poolWatch.Meets p (fun _ s => s = .away) .away := by
    intro p hp
    refine (hp .away rfl).mono fun r s hs => ?_
    cases r <;> exact hs
  cases i with
  | main =>
    have hjoin : ∀ names, poolWatch.Spec (· = .away) (Orchestrator.joinWorkers names)
        (fun _ => (· = .away)) fun _ => (· = .away) := by
      intro names
      induction names with
      | nil => exact .ret fun _ hs => hs
      | cons n names ih => exact .bind (perform_away rfl) fun _ => ih
    exact hmeets (.bind (hjoin _) fun _ => .conseq freeAll_poolWatch (fun _ hs => hs)
      (fun _ _ hs => hs) fun _ _ hs => hs.elim)
  | worker n =>
    show poolWatch.Meets (if n ∈ cfg.orchestrator.names then
      cfg.orchestrator.worker cfg.engine n else pure () : Prog Unit) _ _
    split
    case isFalse => exact rfl
    refine hmeets (Orchestrator.worker_spec (I := (· = PoolPhase.away))
      (J := (· = PoolPhase.away)) (fun _ hs => hs) (fun node _ => ?_) (fun s hs => ?_) (fun a ha _ => ?_)
      (fun t a ha => ?_) fun node ctx hn _ _ => ?_)
    · exact stays_away (Orchestrator.awaitDependencies_uses _ _) fun a ha => by cases ha <;> rfl
    · exact keeps_away rfl s hs
    · exact keeps_away (by cases ha <;> rfl)
    · exact keeps_away (by cases ha <;> rfl)
    · cases node with
      | prefill node => exact stays_away (node.execute_uses ctx) fun _ ha => ha.unpooled
      | analytical node =>
        exact .withLock (fun s hs => keeps_away rfl s hs |>.imp id fun h hr => h () hr)
          (forkAndDecode_poolWatch node ctx)
          (fun _ s hs => keeps_away rfl s hs |>.imp id fun h hr => h () hr)
          fun _ s hs => keeps_away rfl s hs |>.imp id fun h hr => h () hr

/-- A pool that `execute_pipeline` can find: the staging buffer is in it, and other buffers may
    be. -/
structure PoolStart (cfg : Pipeline) where
  buffers : Nat → Option Buffer
  nextBuffer : Nat
  activeBuffers : List Nat
  live : ∀ b, (buffers b).isSome ↔ b ∈ activeBuffers
  nodup : activeBuffers.Nodup
  old : ∀ b ∈ activeBuffers, b < nextBuffer
  staging : ∀ b, cfg.stagingBuffer = some b → b ∈ activeBuffers

namespace PoolStart

variable (P : PoolStart cfg)

/-- Shared memory when the workers are spawned. -/
def world : World :=
  { cfg.initialWorld with
    buffers := P.buffers
    nextBuffer := P.nextBuffer
    activeBuffers := P.activeBuffers }

/-- `execute_pipeline` once the workers have been spawned. -/
def initial : Config cfg.engine := { cfg.initial with data := P.world }

theorem registered : Registered P.world := ⟨P.live, P.nodup, P.old⟩

theorem inv : cfg.Inv P.world :=
  { @initial_inv cfg with
    freshBuffer := fun b hb => by
      have hnot : b ∉ P.activeBuffers := fun hmem => absurd (P.old b hmem) (Nat.not_lt.mpr hb)
      show P.buffers b = none
      rw [← P.live] at hnot
      simpa using hnot
    stagingOld := fun b hb => P.old b (P.staging b hb)
    stagingLive := .inr fun b hb => (P.live b).mpr (P.staging b hb)
    started := fun _ h => by cases h
    ended := fun _ _ h => by cases h
    forked := fun _ _ _ h => by cases h
    snapshots := fun t snap h => by
      have hnone : P.world.state.prefixSnapshots t = none := registeredState_prefixSnapshots t
      rw [hnone] at h
      cases h }

theorem atGate (hn : n ∈ cfg.orchestrator.names) : cfg.AtGate n [] P.world where
  waiting := ⟨⟨hn, rfl⟩, rfl, rfl⟩
  fresh _ := ⟨registeredState_watermark, registeredState_prefixSeqLen⟩
  completion _ h := by cases h
  watermark _ _ h := by cases h

variable {P} {c c' : Config cfg.engine} {tr : Trace (machine cfg.engine)}

theorem holds (hr : P.initial.Reaches c) : cfg.outline.Holds c :=
  (start_holds P.inv (start_lockInv rfl) fun _ hn => P.atGate hn).reaches hr

/-- The pool that the runs of `cfg.initial` find. -/
def ofStaging (cfg : Pipeline) : PoolStart cfg where
  buffers := cfg.initialWorld.buffers
  nextBuffer := 1
  activeBuffers := cfg.stagingBuffer.toList
  live b := by
    simp only [initialWorld, stagingBuffer]
    by_cases hb : b = 0 <;> cases cfg.staging <;> simp [hb]
  nodup := by cases cfg.stagingBuffer <;> simp
  old b hb := by
    simp only [stagingBuffer] at hb
    cases hs : cfg.staging <;> simp_all
  staging b hb := by simp [hb]

theorem initial_ofStaging : (ofStaging cfg).initial = cfg.initial := rfl

/-- Once all tasks are done, only the caller moves. -/
private theorem acts_main (hr : P.initial.Reaches c) (hdone : cfg.AllDone c.data)
    {e : Entry (machine cfg.engine)} (he : c.Acts e c') : e.thread = .main := by
  obtain ⟨i, a, r, d⟩ := e
  cases i with
  | main => rfl
  | worker n =>
    have hmoves : ¬ Finished c n := by
      intro hf
      obtain ht | ⟨e, ht⟩ := Monitor.TState.eq_of_finished hf <;> cases he <;> simp_all
    have hlive := live_of_holds (holds hr) hmoves
    have hsome := hdone n hlive.1
    rw [hlive.2] at hsome
    cases hsome

private theorem allDone_mono (h : c.Reaches c') (hdone : cfg.AllDone c.data) :
    cfg.AllDone c'.data := by
  induction h with
  | refl => exact hdone
  | tail _ hs ih =>
    obtain heq | ⟨i, o, x, r, -, hx⟩ := hs.data
    · rwa [heq]
    · intro n hn
      obtain heq | ⟨m, q, -, heq⟩ := exec_tasks hx
      · rw [heq]
        exact ih n hn
      · rw [heq]
        by_cases hm : n = m
        · simp [hm]
        · rw [Function.update_of_ne hm]
          exact ih n hn

/-- Behind the first buffer that is freed, only the caller moves. -/
private theorem freed_last (hr : P.initial.Run tr c) {later earlier : Trace (machine cfg.engine)}
    {i : Thread} {b : Nat} {r : Unit} {d : World}
    (htr : tr = later ++ ⟨i, .op (.freeBuffer b), r, d⟩ :: earlier) {e : Entry (machine cfg.engine)}
    (he : e ∈ later) : e.thread = .main := by
  obtain ⟨l₁, l₂, rfl⟩ := List.append_of_mem he
  obtain ⟨c₁, c₂, hr₁, hacts, -⟩ := hr.earlier (show _ = l₁ ++ e ::
    (l₂ ++ ⟨i, .op (.freeBuffer b), r, d⟩ :: earlier) by rw [htr]; simp)
  obtain ⟨c₃, c₄, hr₃, hfree, hreach⟩ := hr₁.earlier rfl
  have hdone : cfg.AllDone c₃.data := by
    cases hfree with
    | op ht hx =>
      have hpre : cfg.Pre i _ (.freeBuffer b) c₃.data := (holds hr₃.reaches).pre ⟨_, ht⟩
      exact hpre.2.2
  have hreach : c₃.Reaches c₁ :=
    .head (Monitor.Config.step_iff.mpr (.inl ⟨_, hfree⟩)) hreach
  exact acts_main hr₁.reaches (allDone_mono hreach hdone) hacts

private theorem start_poolWatch (i : Thread) :
    poolWatch.Meets (P.initial.threads i).prog (fun _ s => s = .away) .away :=
  program_poolWatch i

private theorem owned (hr : P.initial.Run tr c) (hv : VectorGrows tr) : Owned P.world tr c :=
  owned_of_run P.registered rfl start_poolWatch hr hv

/-- Nobody is left in the pool when `execute_pipeline` has returned. -/
private theorem pool_left (hr : P.initial.Run tr c) (hv : VectorGrows tr) (hret : Returned c) :
    c.holder .poolMutex = none := by
  have hfollows := (kept_of_run P.registered rfl start_poolWatch hr hv).2
  have hdone : (.ok () : Outcome) = .ok () ∧ cfg.AllDone c.data ∧ c.data.activeBuffers = [] :=
    (holds hr.reaches).done_of_ret hret
  cases hholder : c.holder .poolMutex with
  | none => rfl
  | some i =>
    exfalso
    cases i with
    | main =>
      have haway : phase tr .main = .away := hfollows.of_ret hret
      rw [phase_away_iff] at haway
      have hholding := (hr.holding_iff (fun _ => by simp) rfl .main).mpr hholder
      rw [haway] at hholding
      cases hholding
    | worker n =>
      have hheld : .poolMutex ∈ c.held (.worker n) := Monitor.Config.mem_held.mpr hholder
      have hlive : cfg.Live n c.data := (holds hr.reaches).active_of_held ⟨_, hheld⟩
      have hsome := hdone.2.1 n hlive.1
      rw [hlive.2] at hsome
      cases hsome

/-- At the end of `execute_pipeline` every buffer has been freed once. -/
private theorem freed_at_end (hr : P.initial.Run tr c) (hv : VectorGrows tr) (hret : Returned c)
    {b : Nat} (hb : Allocated P.world tr b) : frees tr b = 1 ∧ c.data.buffers b = none := by
  have hdone : (.ok () : Outcome) = .ok () ∧ cfg.AllDone c.data ∧ c.data.activeBuffers = [] :=
    (holds hr.reaches).done_of_ret hret
  have howned := owned hr hv
  have hfree := pool_left hr hv hret
  constructor
  · have hcount := howned.freed hfree b hb
    rw [hdone.2.2] at hcount
    simpa using hcount
  · have hlive := howned.live hfree b
    rw [hdone.2.2] at hlive
    simpa using hlive

/-- If no worker has run out of memory, no call on the pool has. -/
private theorem vectorGrows (hr : P.initial.Run tr c)
    (hmem : ∀ n ∈ cfg.orchestrator.names, ¬ c.data.OutOfMemory n) : VectorGrows tr := by
  intro later earlier i d htr
  exfalso
  obtain ⟨c₁, c₂, hr₁, hacts, -⟩ := hr.earlier htr
  cases hacts with
  | op ht hx =>
    have hpre : cfg.Pre i _ .allocate c₁.data := (holds hr₁.reaches).pre ⟨_, ht⟩
    obtain ⟨n, rfl, hrun⟩ := hpre.2
    exact hmem n hrun.live.1 (badAlloc_logged hr htr)

end PoolStart

/-- A buffer of a pool is freed once, by a call of `free_all`, and `execute_pipeline` makes that
    call when no worker can touch a buffer any more. -/
theorem buffer_lifetime :
    (∀ (E : Engine) (names : List String) (calls : String → List PoolCall)
      (tr : Trace (machine E)) (c : Config E),
      (clients E names calls).Run tr c → VectorGrows tr →
      Owned (clients E names calls).data tr c ∧
      (∀ i b, Given tr i b → Obtained tr i b) ∧ (∀ b, handouts tr b ≤ 1) ∧
      (c.threads .main = .run (.ret ()) →
        (∀ b, c.data.buffers b = none) ∧ ∀ i b, Obtained tr i b ∨ Given tr i b → frees tr b = 1)) ∧
    ∀ (cfg : Pipeline) (P : PoolStart cfg) (tr : Trace (machine cfg.engine))
      (c : Config cfg.engine), P.initial.Run tr c →
      (∀ (later earlier : Trace (machine cfg.engine)) (i : Thread) (b : Nat) (d : World),
        tr = later ++ ⟨i, .op (.freeBuffer b), (), d⟩ :: earlier → ∀ e ∈ later, e.thread = .main) ∧
      (VectorGrows tr → Owned P.world tr c ∧ (Returned c → ∀ b, Allocated P.world tr b →
        frees tr b = 1 ∧ c.data.buffers b = none)) := by
  refine ⟨fun E names calls tr c hr hv => ?_, fun cfg P tr c hr => ⟨?_, fun hv => ⟨?_, ?_⟩⟩⟩
  · have howned := owned_of_run clients_registered rfl clients_poolWatch hr hv
    have hhandles := handles_of_run hr
    refine ⟨howned, hhandles.given, hhandles.once, fun hret => ?_⟩
    -- the destructor was the last to free, and nobody has allocated since
    obtain ⟨hnone, hfreed⟩ := howned.emptied (emptied_of_returned hr hret)
    refine ⟨hnone, fun i b hb => hfreed b (.inr ?_)⟩
    obtain hb | hb := hb
    · exact ⟨i, hb⟩
    · exact ⟨i, hhandles.given i b hb⟩
  · exact fun later earlier i b d htr e he => PoolStart.freed_last hr htr he
  · exact PoolStart.owned hr hv
  · exact fun hret b hb => PoolStart.freed_at_end hr hv hret hb

/-- One client frees all, the other one leaves its buffer to the destructor. -/
private def twoClients : String → List PoolCall
  | "A" => [.allocatePrefixCache 16, .freeAll]
  | _ => [.allocateBranchCache 16]

/-- Both clients run to their end, and the pool is destroyed. -/
private def untilDestroyed : List (Thread × Choice) :=
  Toy.steps "A" 15 ++ Toy.steps "B" 10 ++ List.replicate 7 (.main, .ok)

theorem buffer_lifetime_toy :
    (∃ (tr : Trace (machine (Toy.engine 1 false))) (c : Config (Toy.engine 1 false)),
      (clients (Toy.engine 1 false) ["A", "B"] twoClients).Run tr c ∧
      handouts tr 0 = 1 ∧ handouts tr 1 = 1 ∧ ∀ i b, Given tr i b → frees tr b = 1) ∧
    ∃ (tr : Trace (machine (Toy.star 1 false (-1)).engine)),
      (Toy.star 1 false (-1)).initial.Run tr
        ((Toy.star 1 false (-1)).after Toy.joinAfterFailure) ∧ frees tr 0 = 1 := by
  constructor
  · have hr := Monitor.Config.run_after (c := clients (Toy.engine 1 false) ["A", "B"] twoClients)
      (s := untilDestroyed) (by decide +kernel)
    refine ⟨_, _, hr, by decide +kernel, by decide +kernel, fun i b hb => ?_⟩
    have hpool := buffer_lifetime.1 _ _ _ _ _ hr fun later earlier i d htr => ?_
    · exact (hpool.2.2.2 rfl).2 i b (.inr hb)
    · have hlogged := badAlloc_logged hr htr
      cases hlogged
  · obtain ⟨tr, hr⟩ := Config.Reaches.exists_run (reachable_after _ Toy.joinAfterFailure)
    have hret : Returned ((Toy.star 1 false (-1)).after Toy.joinAfterFailure) := rfl
    have hr' : (PoolStart.ofStaging (Toy.star 1 false (-1))).initial.Run tr _ := hr
    have hmem : ∀ n ∈ (Toy.star 1 false (-1)).orchestrator.names,
        ¬ ((Toy.star 1 false (-1)).after Toy.joinAfterFailure).data.OutOfMemory n := by
      decide +kernel
    refine ⟨tr, hr, (((buffer_lifetime.2 _ _ tr _ hr').2 (PoolStart.vectorGrows hr' hmem)).2 hret 0
      (.inl ?_)).1⟩
    rfl

end Pipeline

end SwarmKV

import SwarmKV.Spec.WorkerRules
import SwarmKV.Spec.Stuck

/-!
# The life of a worker

A worker owes its promise one value, and its milestone one release. The observer of this
module counts what it has given, and notes what entitles it to a release: a decoded prompt,
or an exception.
-/

namespace SwarmKV

open Monitor

/-- What a worker has done so far. -/
structure Life where
  /-- A batch has been decoded. -/
  decoded : Bool := false
  /-- `execute()` has thrown. -/
  failed : Bool := false
  /-- How often a milestone has been released. -/
  released : Nat := 0
  /-- How often the promise has been given a value. -/
  settled : Nat := 0
  /-- An allocation has failed. -/
  starved : Bool := false
  /-- An allocation has failed after a release. -/
  late : Bool := false

namespace Life

/-- An allocation fails. -/
def starve (s : Life) : Life :=
  { s with starved := true, late := s.late || decide (0 < s.released) }

/-- A milestone is released. -/
def release (s : Life) : Life := { s with released := s.released + 1 }

/-- The life of a worker after an action. -/
def next (s : Life) : (a : Action sig) → a.Res → Life
  | .op (.llamaDecode _ _), r => { s with decoded := s.decoded || r }
  | .op (.note (.executeEnd (.error _))), _ => { s with failed := true }
  | .op (.consumeMilestone _), _ => s.release
  | .op (.setPromise _ _), _ => { s with settled := s.settled + 1 }
  | .op .allocate, r => if r then s else s.starve
  | _, _ => s

/-- What the worker of node `n` may do. -/
def accepts (o : Orchestrator) (n : String) (s : Life) : Action sig → Prop
  | .op (.consumeMilestone t) =>
    t = o.req n ∧ 0 < t ∧ (s.starved ∨ s.released = 0) ∧ (s.decoded ∨ s.failed)
  | .op (.setPromise m _) => m = n ∧ s.settled = 0
  | .op (.setTask m _) => m = n
  | _ => True

/-- What it expects of the answers: its registration and its promise are there. -/
def expects : (a : Action sig) → a.Res → Prop
  | .op (.consumeMilestone _), r => Option.isSome r
  | .op (.setPromise _ _), r => r = true
  | _, _ => True

/-- The actions by which a worker gives something. -/
def gives : Action sig → Bool
  | .op (.consumeMilestone _) => true
  | .op (.setPromise _ _) => true
  | .op (.setTask _ _) => true
  | _ => false

/-- Nothing has been given yet. -/
structure Idle (s : Life) : Prop where
  released : s.released = 0
  settled : s.settled = 0
  late : s.late = false

/-- `execute()` of a node that forks at `t` has returned. -/
structure Returned (t : Int) (s : Life) : Prop where
  released : s.released = if 0 < t then 1 else 0
  settled : s.settled = 0
  late : s.late = false

/-- `execute()` of a node that forks at `t` has thrown: before the release, or after it for
    lack of memory. -/
structure Thrown (t : Int) (s : Life) : Prop where
  settled : s.settled = 0
  released : s.released = 0 ∧ s.late = false ∨
    0 < t ∧ s.released = 1 ∧ s.late = true ∧ s.starved = true

/-- The worker of node `n` has ended. -/
def Ended (o : Orchestrator) (n : String) (s : Life) : Prop :=
  o.DepsRegistered n ∧ s.settled = 1 ∧
      (s.released = if 0 < o.req n then (if s.late then 2 else 1) else 0) ∨
    ¬ o.DepsRegistered n ∧ s.settled = 0

end Life

/-- The observer of a worker's life. -/
def lifeWatch (cfg : Pipeline) (i : Thread) : Observer sig Life where
  start := {}
  next := Life.next
  ok s a := match i with
    | .main => CallerAction a
    | .worker n => s.accepts cfg.orchestrator n a
  ans _ := Life.expects

/-! ## Footprints that give nothing -/

theorem HostAction.not_gives {a : Action sig} (h : HostAction a) : Life.gives a = false := by
  cases h <;> rfl

theorem LookupAction.not_gives {a : Action sig} (h : LookupAction a) : Life.gives a = false := by
  cases h <;> rfl

theorem CommitAction.not_gives {a : Action sig} (h : CommitAction a) : Life.gives a = false := by
  cases h <;> rfl

theorem GateAction.not_gives {a : Action sig} (h : GateAction a) : Life.gives a = false := by
  cases h <;> rfl

theorem DecodeAction.not_gives {E : Engine} {within : Prop} {a : Action sig}
    (h : DecodeAction E within a) : Life.gives a = false := by
  cases h <;> rfl

theorem BranchAction.not_gives {E : Engine} {within : Prop} {a : Action sig}
    (h : BranchAction E within a) : Life.gives a = false := by
  cases h with
  | host h => exact h.not_gives
  | lookup h => exact h.not_gives
  | copy h => cases h <;> rfl
  | pool h => cases h <;> rfl
  | decode h => exact h.not_gives
  | _ => rfl

theorem PrefillAction.not_gives {E : Engine} {a : Action sig} (h : PrefillAction E a) :
    Life.gives a = false := by
  cases h with
  | host h => exact h.not_gives
  | decode h => exact h.not_gives
  | commit h => exact h.not_gives
  | restore h =>
    cases h with
    | lookup h => exact h.not_gives
    | llamaStateSeqSetData => rfl
  | _ => rfl

namespace Pipeline

variable {cfg : Pipeline} {n : String}

/-! ## Parts that give nothing -/

/-- An action that gives nothing keeps the worker idle. -/
private theorem keeps_idle {a : Action sig} (ha : Life.gives a = false) :
    (lifeWatch cfg (.worker n)).Keeps Life.Idle a := by
  intro s hs
  cases a with
  | op o =>
    cases o with
    | consumeMilestone t => cases ha
    | setPromise m r => cases ha
    | setTask m r => cases ha
    | allocate =>
      refine ⟨trivial, fun r _ => ?_⟩
      show Life.Idle (if r then s else s.starve)
      split
      · exact hs
      · exact ⟨hs.released, hs.settled, by simp [Life.starve, hs.late, hs.released]⟩
    | note e =>
      cases e with
      | executeEnd r =>
        cases r with
        | ok a => exact ⟨trivial, fun _ _ => hs⟩
        | error e => exact ⟨trivial, fun _ _ => ⟨hs.released, hs.settled, hs.late⟩⟩
      | _ => exact ⟨trivial, fun _ _ => hs⟩
    | llamaDecode h batch => exact ⟨trivial, fun _ _ => ⟨hs.released, hs.settled, hs.late⟩⟩
    | _ => exact ⟨trivial, fun _ _ => hs⟩
  | _ => exact ⟨trivial, fun _ _ => hs⟩

/-- What has been decoded stays decoded. -/
private theorem keeps_decoded {a : Action sig} (ha : Life.gives a = false) :
    (lifeWatch cfg (.worker n)).Keeps (fun s => s.Idle ∧ s.decoded = true) a := by
  intro s hs
  obtain ⟨hok, hnext⟩ := @keeps_idle cfg n a ha s hs.1
  refine ⟨hok, fun r hr => ⟨hnext r hr, ?_⟩⟩
  show (s.next a r).decoded = true
  unfold Life.next
  split
  · simp [hs.2]
  · exact hs.2
  · exact hs.2
  · exact hs.2
  · split <;> exact hs.2
  · exact hs.2

/-! ## Parts that give something -/

variable {s₀ : Life}

/-- An action that the observer does not see. -/
private theorem unseen_op {o : Op} {X : Error → Life → Prop}
    (hok : (lifeWatch cfg (.worker n)).ok s₀ (.op o))
    (hnext : ∀ r, s₀.next (.op o) r = s₀) :
    (lifeWatch cfg (.worker n)).Spec (· = s₀) (perform o) (fun _ s => s = s₀) X := by
  refine .op fun s hs => ?_
  subst hs
  exact ⟨hok, fun r _ => hnext r⟩

/-- A block under a mutex. -/
private theorem withLock_life {α : Type} {l : Lock} {p : Prog α} {Q : α → Life → Prop}
    {X : Error → Life → Prop} {P : Life → Prop} (hp : (lifeWatch cfg (.worker n)).Spec P p Q X) :
    (lifeWatch cfg (.worker n)).Spec P (withLock l p) Q X :=
  .withLock (fun _ hs => ⟨trivial, fun _ => hs⟩) hp (fun _ _ hs => ⟨trivial, fun _ => hs⟩)
    fun _ _ hs => ⟨trivial, fun _ => hs⟩

private theorem alloc_life : (lifeWatch cfg (.worker n)).Spec (· = s₀) alloc
    (fun _ s => s = s₀) fun _ s => s = s₀.starve := by
  refine .bind (Q := fun r s => s = if r then s₀ else s₀.starve) (.op fun s hs => ?_) fun r => ?_
  · subst hs
    exact ⟨trivial, fun r _ => rfl⟩
  · cases r with
    | true => exact .ret fun _ => id
    | false => exact .throw fun _ => id

private theorem recordTiming_life (key : String) (t0 : Int) :
    (lifeWatch cfg (.worker n)).Spec (· = s₀) (PipelineState.recordTiming key t0)
      (fun _ s => s = s₀) fun _ s => s = s₀.starve := by
  unfold PipelineState.recordTiming
  refine .bind (unseen_op trivial fun _ => rfl) fun _ => withLock_life ?_
  exact .bind alloc_life fun _ => unseen_op trivial fun _ => rfl

/-- The release of the milestone of a node. -/
private theorem signal_life {X : Error → Life → Prop} (hpos : 0 < cfg.orchestrator.req n)
    (hfirst : s₀.starved ∨ s₀.released = 0) (hdone : s₀.decoded ∨ s₀.failed) :
    (lifeWatch cfg (.worker n)).Spec (· = s₀)
      (PipelineState.signalMilestoneConsumed (cfg.orchestrator.req n))
      (fun _ s => s = s₀.release) X := by
  unfold PipelineState.signalMilestoneConsumed
  refine .ite (fun hle => absurd hle (by omega)) fun _ => withLock_life ?_
  refine .bind (Q := fun _ s => s = s₀.release) (.op fun s hs => ?_) fun left => ?_
  · subst hs
    exact ⟨⟨rfl, hpos, hfirst, hdone⟩, fun _ _ => rfl⟩
  · cases left with
    | none => exact .ret fun _ => id
    | some left =>
      refine .ite (fun _ => .notifyAll fun s hs => ⟨trivial, fun _ => hs⟩) fun _ => .ret fun _ => id

/-! ## execute -/

/-- A prefiller gives nothing. -/
private theorem prefill_life (node : PrefillNode) (ctx : OrchestratorContext) :
    (lifeWatch cfg (.worker n)).Spec Life.Idle (node.execute ctx) (fun _ => Life.Idle)
      fun _ => Life.Idle :=
  .of_uses (node.execute_uses ctx) fun _ ha => keeps_idle ha.not_gives

private theorem decodePrompt_life {node : AnalyticalNode} {ctx : OrchestratorContext} (h : Nat)
    (tokens : List LlamaToken) (fork : AnalyticalNode.Fork) :
    (lifeWatch cfg (.worker n)).Spec Life.Idle (node.decodePrompt ctx h tokens fork)
      (fun _ s => s.Idle ∧ s.decoded = true) fun _ => Life.Idle := by
  have hidle : ∀ {o : Op}, Life.gives (.op o) = false →
      (lifeWatch cfg (.worker n)).Spec Life.Idle (perform o) (fun _ => Life.Idle)
        fun _ => Life.Idle := fun ho => .of_uses (.perform rfl) fun _ ha => ha ▸ keeps_idle ho
  have hdecoded : ∀ {o : Op}, Life.gives (.op o) = false →
      (lifeWatch cfg (.worker n)).Spec (fun s => s.Idle ∧ s.decoded = true) (perform o)
        (fun _ s => s.Idle ∧ s.decoded = true) fun _ s => s.Idle ∧ s.decoded = true :=
    fun ho => .of_uses (.perform rfl) fun _ ha => ha ▸ keeps_decoded ho
  have hend : ∀ {P : Prog Unit}, (lifeWatch cfg (.worker n)).Spec
      (fun s => s.Idle ∧ s.decoded = true) P (fun _ s => s.Idle ∧ s.decoded = true)
        (fun _ s => s.Idle ∧ s.decoded = true) →
      (lifeWatch cfg (.worker n)).Spec (fun s => s.Idle ∧ s.decoded = true) P
        (fun _ s => s.Idle ∧ s.decoded = true) fun _ => Life.Idle :=
    fun hP => hP.conseq (fun _ => id) (fun _ _ => id) fun _ _ hs => hs.1
  unfold AnalyticalNode.decodePrompt
  refine .bind (hidle rfl) fun b => ?_
  refine .bind (Q := fun r s => s.Idle ∧ (r = true → s.decoded = true)) (.op fun s hs => ?_)
    fun r => .ite (fun hr => ?_) fun _ => ?_
  · refine ⟨trivial, fun r _ => ⟨⟨hs.released, hs.settled, hs.late⟩, fun hr => ?_⟩⟩
    show (s.decoded || r) = true
    simp [hr]
  · refine .pre (hend ?_) fun s hs => ⟨hs.1, hs.2 hr⟩
    refine .bind (.of_uses (AnalyticalNode.publishOutput_uses _ _ _) fun a ha =>
      keeps_decoded ha.not_gives) fun _ => ?_
    exact .bind (hdecoded rfl) fun _ => hdecoded rfl
  · refine .bind (.pre (hidle rfl) fun _ hs => hs.1) fun _ => ?_
    exact .bind (hidle rfl) fun _ => .throw fun _ hs => hs

/-- A branch releases its milestone once its prompt is decoded. -/
private theorem forkAndDecode_life (node : AnalyticalNode) (ctx : OrchestratorContext)
    (hreq : cfg.orchestrator.req n = node.requiredPrefixTokens) :
    (lifeWatch cfg (.worker n)).Spec Life.Idle (node.forkAndDecode ctx)
      (fun _ => Life.Returned (cfg.orchestrator.req n))
      fun _ => Life.Thrown (cfg.orchestrator.req n) := by
  -- before the prompt is decoded nothing has been released
  have hthrown : ∀ s : Life, s.Idle → s.Thrown (cfg.orchestrator.req n) :=
    fun s hs => ⟨hs.settled, .inl ⟨hs.released, hs.late⟩⟩
  have hbranch : ∀ {α : Type} {p : Prog α}, p.Uses (BranchAction ctx.engine True) →
      (lifeWatch cfg (.worker n)).Spec Life.Idle p (fun _ => Life.Idle)
        fun _ => Life.Thrown (cfg.orchestrator.req n) := fun hp =>
    .err (.of_uses hp fun _ ha => keeps_idle ha.not_gives) fun _ => hthrown
  unfold AnalyticalNode.forkAndDecode
  refine .bind (hbranch (.perform (.host .steadyClock))) fun t0 => .ite (fun _ => ?_) fun _ => ?_
  · exact .throw fun s hs => hthrown s hs
  refine .bind (hbranch (AnalyticalNode.chooseFork_uses.mono fun _ => .lookup)) fun fork => ?_
  refine .bind (hbranch ((AnalyticalNode.materializeFork_uses fork).mono fun _ ha => ha.branch))
    fun branchBuf => ?_
  refine .bind (hbranch (.perform (.noteFork _ _ _))) fun _ => ?_
  refine .bind (hbranch (.perform .llamaInitFromModel)) fun r => ?_
  cases r with
  | none => exact .throw fun s hs => hthrown s hs
  | some h =>
    refine .bind (hbranch ((AnalyticalNode.restoreFork_uses h fork branchBuf).mono
      fun _ ha => ha.context.branch)) fun _ => ?_
    have hprompt := @AnalyticalNode.preparePrompt_spec node _ _ _ (lifeWatch cfg (.worker n)) Life.Idle
      h branchBuf fork
      fun a (ha : ContextAction ctx.engine True a) => keeps_idle ha.branch.not_gives
    refine .bind (Q := fun _ => Life.Idle) (.conseq hprompt (fun _ hs => hs) (fun _ _ hs => hs.1)
      fun _ => hthrown) fun tokens => ?_
    refine .bind (.err (decodePrompt_life h tokens fork) fun _ => hthrown) fun _ =>
      .fix fun s₀ hs₀ => ?_
    rw [← hreq]
    refine .ite (fun hpos => ?_) fun hneg => ?_
    · -- the release, and behind it an allocation that may fail
      refine .bind (signal_life hpos (.inr hs₀.1.released) (.inl hs₀.2)) fun _ => ?_
      refine .conseq (recordTiming_life _ t0) (fun _ hs => hs) (fun _ s hs => ?_) fun _ s hs => ?_
      · subst hs
        exact ⟨by simp [Life.release, hs₀.1.released, hpos], hs₀.1.settled, hs₀.1.late⟩
      · subst hs
        exact ⟨hs₀.1.settled, .inr ⟨hpos, by simp [Life.starve, Life.release, hs₀.1.released],
          by simp [Life.starve, Life.release], rfl⟩⟩
    · -- without a milestone there is nothing to release
      refine .conseq (recordTiming_life _ t0) (fun _ hs => hs) (fun _ s hs => ?_) fun _ s hs => ?_
      · subst hs
        exact ⟨by simp [hs₀.1.released, hneg], hs₀.1.settled, hs₀.1.late⟩
      · subst hs
        exact ⟨hs₀.1.settled, .inl ⟨hs₀.1.released, by
          simp [Life.starve, hs₀.1.late, hs₀.1.released]⟩⟩

private theorem execute_life {node : Node} (hn : cfg.orchestrator.node n = some node)
    (ctx : OrchestratorContext) :
    (lifeWatch cfg (.worker n)).Spec Life.Idle (node.execute ctx)
      (fun _ => Life.Returned (cfg.orchestrator.req n))
      fun _ => Life.Thrown (cfg.orchestrator.req n) := by
  have hreq : cfg.orchestrator.req n = node.requiredPrefixTokens := by
    simp [Orchestrator.req, hn]
  cases node with
  | prefill node =>
    have hneg : ¬ 0 < cfg.orchestrator.req n := by
      rw [hreq]
      show ¬ (0 : Int) < -1
      decide
    exact .conseq (prefill_life node ctx) (fun _ hs => hs)
      (fun _ s hs => ⟨by simp [hs.released, hneg], hs.settled, hs.late⟩)
      fun _ s hs => ⟨hs.settled, .inl ⟨hs.released, hs.late⟩⟩
  | analytical node => exact withLock_life (forkAndDecode_life node ctx hreq)

/-! ## Workers -/

/-- The gate passes if all upstream nodes are registered, and throws otherwise. -/
private theorem awaitDependencies_life (req : Int) (deps : List String) :
    (lifeWatch cfg (.worker n)).Spec Life.Idle (cfg.orchestrator.awaitDependencies req deps)
      (fun _ s => s.Idle ∧ ∀ d ∈ deps, d ∈ cfg.orchestrator.names)
      fun _ s => s.Idle ∧ ¬ ∀ d ∈ deps, d ∈ cfg.orchestrator.names := by
  induction deps with
  | nil => exact .ret fun s hs => ⟨hs, fun d hd => by cases hd⟩
  | cons d deps ih =>
    refine .bind (Q := fun _ s => s.Idle ∧ d ∈ cfg.orchestrator.names) ?_ fun _ => ?_
    · unfold Orchestrator.awaitDependency
      cases hd : cfg.orchestrator.node d with
      | none =>
        refine .throw fun s hs => ⟨hs, fun hall => ?_⟩
        obtain ⟨dep, hdep⟩ := Orchestrator.mem_names.mp (hall d List.mem_cons_self)
        cases hd.symm.trans hdep
      | some dep =>
        have hmem : d ∈ cfg.orchestrator.names := Orchestrator.mem_names.mpr ⟨dep, hd⟩
        refine .ite (fun hw => .ite (fun hneg => absurd hw.2 (by omega)) fun _ => ?_) fun _ => ?_
        · refine withLock_life (.await fun s hs => ⟨trivial, fun _ => ⟨hs, hmem⟩⟩)
        · exact .op fun s hs => ⟨trivial, fun _ _ => ⟨hs, hmem⟩⟩
    · refine .assume fun hmem => .conseq ih (fun _ hs => hs) (fun _ s hs => ⟨hs.1, ?_⟩)
        fun _ s hs => ⟨hs.1, fun hall => hs.2 fun d' hd' => hall d' (List.mem_cons_of_mem _ hd')⟩
      intro d' hd'
      obtain rfl | hd' := List.mem_cons.mp hd'
      · exact hmem
      · exact hs.2 d' hd'

/-- `execute()` with its start and its end on record. -/
private theorem executeNode_life {node : Node} (hn : cfg.orchestrator.node n = some node)
    (ctx : OrchestratorContext) :
    (lifeWatch cfg (.worker n)).Spec Life.Idle (Orchestrator.executeNode node ctx)
      (fun _ => Life.Returned (cfg.orchestrator.req n))
      fun _ s => s.Thrown (cfg.orchestrator.req n) ∧ s.failed = true := by
  unfold Orchestrator.executeNode
  refine .bind (Q := fun _ => Life.Idle) (.op fun s hs => ⟨trivial, fun _ _ => hs⟩) fun _ => ?_
  refine .bind (.attempt (execute_life hn ctx)) fun r => ?_
  cases r with
  | ok a => exact .op fun s hs => ⟨trivial, fun _ _ => hs⟩
  | error e =>
    refine .bind (Q := fun _ s => s.Thrown (cfg.orchestrator.req n) ∧ s.failed = true)
      (.op fun s hs => ⟨trivial, fun _ _ => ?_⟩) fun _ => .throw fun _ => id
    exact ⟨⟨hs.settled, hs.released⟩, rfl⟩

/-- The `catch` block of a worker. -/
private theorem failNode_life (e : Error) (hreg : cfg.orchestrator.DepsRegistered n)
    {X : Unit → Life → Prop} :
    (lifeWatch cfg (.worker n)).Spec
      (fun s => s.Thrown (cfg.orchestrator.req n) ∧ s.failed = true)
      (Orchestrator.failNode (cfg.orchestrator.req n) n e) X
      fun _ => Life.Ended cfg.orchestrator n := by
  refine .fix fun s₀ hs₀ => ?_
  obtain ⟨hthrown, hfailed⟩ := hs₀
  have hend : ∀ s : Life, s.settled = 0 → (s.released = if 0 < cfg.orchestrator.req n then
      (if s.late then 2 else 1) else 0) → (lifeWatch cfg (.worker n)).Spec (· = s)
        (perform (.setPromise n (.error e)) >>= fun _ => throw e : Prog Unit) X
          fun _ => Life.Ended cfg.orchestrator n := by
    intro s hs hreleased
    refine .bind (Q := fun _ => Life.Ended cfg.orchestrator n) (.op fun s' hs' => ?_) fun _ =>
      .throw fun _ => id
    subst hs'
    exact ⟨⟨rfl, hs⟩, fun _ _ => .inl ⟨hreg, congrArg (· + 1) hs, hreleased⟩⟩
  unfold Orchestrator.failNode
  refine .ite (fun hpos => .bind (signal_life hpos ?_ (.inr hfailed)) fun _ => ?_) fun hneg => ?_
  · exact hthrown.released.imp (fun h => h.1) (fun h => h.2.2.2) |>.symm
  · refine hend s₀.release hthrown.settled ?_
    rw [if_pos hpos]
    obtain ⟨hzero, hlate⟩ | ⟨-, hone, hlate, -⟩ := hthrown.released
    · simp [Life.release, hzero, hlate]
    · simp [Life.release, hone, hlate]
  · refine hend s₀ hthrown.settled ?_
    rw [if_neg hneg]
    obtain ⟨hzero, -⟩ | ⟨hpos, -⟩ := hthrown.released
    · exact hzero
    · exact absurd hpos hneg

/-- A worker ends with its obligations met, unless its gate throws. -/
theorem workerBody_life (hn : n ∈ cfg.orchestrator.names) :
    (lifeWatch cfg (.worker n)).Spec Life.Idle (cfg.orchestrator.workerBody cfg.engine n)
      (fun _ => Life.Ended cfg.orchestrator n) fun _ => Life.Ended cfg.orchestrator n := by
  obtain ⟨node, hnode⟩ := Orchestrator.mem_names.mp hn
  have hreq : node.requiredPrefixTokens = cfg.orchestrator.req n := by
    simp [Orchestrator.req, hnode]
  unfold Orchestrator.workerBody Orchestrator.workerBodyAt
  rw [hnode]
  dsimp only
  rw [hreq]
  refine .bind (.err (awaitDependencies_life _ _) fun _ s hs => .inr ⟨hs.2, hs.1.settled⟩) fun _ =>
    .assume fun hreg => ?_
  refine .catch' (.bind (executeNode_life hnode _) fun _ => ?_) fun e => failNode_life e hreg
  refine .bind (Q := fun r s => r = true ∧ s.Ended cfg.orchestrator n) (.op fun s hs => ?_)
    fun r => ?_
  · refine ⟨⟨rfl, hs.settled⟩, fun r hr => ⟨hr, .inl ⟨hreg, congrArg (· + 1) hs.settled, ?_⟩⟩⟩
    show s.released = if 0 < cfg.orchestrator.req n then (if s.late then 2 else 1) else 0
    rw [hs.released, hs.late]
    rfl
  · refine .ite (fun _ => .ret fun _ hs => hs.2) fun hr => .fix fun s hs => absurd hs.1 hr

/-- So does the thread of the worker. -/
theorem worker_life (hn : n ∈ cfg.orchestrator.names) :
    (lifeWatch cfg (.worker n)).Spec Life.Idle (cfg.orchestrator.worker cfg.engine n)
      (fun _ => Life.Ended cfg.orchestrator n) fun _ => Life.Ended cfg.orchestrator n := by
  unfold Orchestrator.worker Orchestrator.workerAt
  refine .bind (Q := fun _ => Life.Ended cfg.orchestrator n)
    (.post (.attempt (workerBody_life hn)) fun r s hs => ?_) fun r => ?_
  · cases r <;> exact hs
  · refine .bind (Q := fun _ => Life.Ended cfg.orchestrator n)
      (.op fun s hs => ⟨rfl, fun _ _ => hs⟩) fun _ => ?_
    cases r with
    | ok a => exact .ret fun _ => id
    | error e => exact .throw fun _ => id

/-! ## Runs -/

/-- The action gives the promise of node `n` a value. -/
def settles (n : String) : Action sig → Bool
  | .op (.setPromise m _) => m = n
  | _ => false

/-- How often the promise of node `n` has been given a value. -/
def settlements (tr : Trace (machine cfg.engine)) (n : String) : Nat :=
  tr.countP fun e => settles n e.action

/-- The worker of node `n` has run out of memory after it released its milestone. -/
def StarvedAfterRelease (cfg : Pipeline) (n : String) (w : World) : Prop :=
  [.milestoneConsumed (cfg.orchestrator.req n), .badAlloc].Sublist (w.log (.worker n))

/-- What the observer has seen is what has happened. -/
structure LifeOk (cfg : Pipeline) (n : String) (tr : Trace (machine cfg.engine)) (w : World)
    (s : Life) : Prop where
  consumed : ∀ t, w.consumed n t = if t = cfg.orchestrator.req n then s.released else 0
  promise : s.settled = 0 → w.promises n = none
  settled : settlements tr n = s.settled
  starved : s.starved = true → w.OutOfMemory n
  failed : s.failed = true → w.Failed n
  decoded : s.decoded = true → ∃ h batch, tr.Did (.worker n) (.llamaDecode h batch) true
  late : s.late = true ↔ cfg.StarvedAfterRelease n w
  once : s.starved = true ∨ s.released ≤ 1
  earned : 0 < s.released → s.decoded = true ∨ s.failed = true

variable {tr : Trace (machine cfg.engine)} {w w' : World} {s : Life}

private theorem pair_sublist_append {α : Type} {a b e : α} {l : List α} :
    [a, b].Sublist (l ++ [e]) ↔ [a, b].Sublist l ∨ b = e ∧ a ∈ l := by
  rw [← List.reverse_sublist, List.reverse_append]
  show (b :: [a]).Sublist (e :: l.reverse) ↔ _
  rw [List.cons_sublist_cons', List.singleton_sublist, List.mem_reverse]
  have hrev : [b, a].Sublist l.reverse ↔ [a, b].Sublist l := by
    rw [← List.reverse_sublist, List.reverse_reverse]
    rfl
  rw [hrev]

/-- The records the observer does not count. -/
private def plain : Event → Bool
  | .milestoneConsumed _ => false
  | .badAlloc => false
  | _ => true

/-- A plain record, or none, leaves everything as the observer has it. -/
private theorem LifeOk.plain (h : cfg.LifeOk n tr w s) {e : Entry (machine cfg.engine)}
    (hlog : w'.log (.worker n) = w.log (.worker n) ∨ ∃ ev, Pipeline.plain ev ∧
      w'.log (.worker n) = w.log (.worker n) ++ [ev])
    (hp : w'.promises n = w.promises n) (he : settles n e.action = false) :
    cfg.LifeOk n (e :: tr) w' s := by
  have hgrow : ∀ ev, ev ∈ w.log (.worker n) → ev ∈ w'.log (.worker n) := by
    intro ev hev
    obtain hsame | ⟨ev', -, happend⟩ := hlog
    · rwa [hsame]
    · rw [happend]
      exact List.mem_append_left _ hev
  refine ⟨fun t => ?_, fun hs => hp.trans (h.promise hs), ?_, fun hs => hgrow _ (h.starved hs),
    fun hs => ?_, fun hs => ?_, ?_, h.once, h.earned⟩
  · rw [← h.consumed t]
    obtain hsame | ⟨ev, hev, happend⟩ := hlog
    · rw [World.consumed, hsame, World.consumed]
    · rw [World.consumed, happend, List.count_append, World.consumed]
      have hne : ev ≠ .milestoneConsumed t := by
        rintro rfl
        cases hev
      simp [hne]
  · rw [settlements, List.countP_cons_of_neg (by simp [he])]
    exact h.settled
  · obtain ⟨err, herr⟩ := h.failed hs
    exact ⟨err, hgrow _ herr⟩
  · obtain ⟨hd, batch, d, hmem⟩ := h.decoded hs
    exact ⟨hd, batch, d, List.mem_cons_of_mem _ hmem⟩
  · rw [h.late, StarvedAfterRelease, StarvedAfterRelease]
    obtain hsame | ⟨ev, hev, happend⟩ := hlog
    · rw [hsame]
    · rw [happend, pair_sublist_append]
      refine ⟨.inl, fun hor => hor.resolve_right fun hlast => ?_⟩
      rw [← hlast.1] at hev
      cases hev

/-- An action of another thread. -/
private theorem LifeOk.other (h : cfg.LifeOk n tr w s) {i : Thread} {o : Op} {x : Choice}
    {r : o.Res} (hx : exec cfg.engine i o x w = some (r, w')) (hi : i ≠ .worker n)
    (ho : settles n (.op o) = false) : cfg.LifeOk n (⟨i, .op o, r, w⟩ :: tr) w' s := by
  refine h.plain (.inl (exec_log_other hx (Ne.symm hi))) ?_ ho
  obtain heq | ⟨m, q, rfl, -, heq⟩ := exec_promises hx
  · rw [heq]
  · have hne : n ≠ m := by
      rintro rfl
      simp [settles] at ho
    rw [heq, Function.update_of_ne hne]

/-- An action of the worker itself is answered as expected, and leaves the observer right. -/
private theorem LifeOk.own (hinv : cfg.Inv w) (h : cfg.LifeOk n tr w s) {H : Finset Lock} {o : Op}
    {x : Choice} {r : o.Res} (hpre : cfg.Pre (.worker n) H o w)
    (hx : exec cfg.engine (.worker n) o x w = some (r, w'))
    (hok : s.accepts cfg.orchestrator n (.op o)) :
    Life.expects (.op o) r ∧
      cfg.LifeOk n (⟨.worker n, .op o, r, w⟩ :: tr) w' (s.next (.op o) r) := by
  cases o with
  | consumeMilestone t =>
    obtain ⟨rfl, hpos, hfirst, hdone⟩ := hok
    obtain ⟨-, m, hm, hmem⟩ := hpre.2
    obtain rfl := Thread.worker.inj hm
    -- the entry is there since the registration
    have hcount := hinv.consumers (cfg.orchestrator.req n)
    rw [consumersLeft, if_pos ⟨hpos, List.ne_nil_of_mem hmem⟩] at hcount
    simp only [exec, hcount, Option.some.injEq, Prod.mk.injEq] at hx
    obtain ⟨rfl, rfl⟩ := hx
    have hlog : ∀ u : World, (u.record (.worker n) (.milestoneConsumed (cfg.orchestrator.req n))).log
        (.worker n) = u.log (.worker n) ++ [.milestoneConsumed (cfg.orchestrator.req n)] :=
      fun u => Function.update_self _ _ _
    refine ⟨rfl, fun t => ?_, h.promise, ?_, fun hs => ?_, fun hs => ?_, fun hs => ?_, ?_,
      hfirst.imp_right fun hzero => (congrArg (· + 1) hzero).le, fun _ => hdone⟩
    · have hold := h.consumed t
      rw [World.consumed, hlog, List.count_append]
      show w.consumed n t + _ = if t = cfg.orchestrator.req n then s.released + 1 else 0
      rw [hold, List.count_singleton]
      by_cases ht : t = cfg.orchestrator.req n
      · simp [ht]
      · simp [ht, Ne.symm ht]
    · rw [settlements, List.countP_cons_of_neg (by simp [settles])]
      exact h.settled
    · rw [World.OutOfMemory, hlog]
      exact List.mem_append_left _ (h.starved hs)
    · obtain ⟨e, he⟩ := h.failed hs
      refine ⟨e, ?_⟩
      rw [World.Ended, hlog]
      exact List.mem_append_left _ he
    · obtain ⟨hd, batch, d, hmem⟩ := h.decoded hs
      exact ⟨hd, batch, d, List.mem_cons_of_mem _ hmem⟩
    · rw [StarvedAfterRelease, hlog, pair_sublist_append]
      exact h.late.trans ⟨.inl, fun hor => hor.resolve_right fun hlast => by cases hlast.1⟩
  | setPromise m q =>
    obtain ⟨rfl, hs⟩ := hok
    simp only [exec, h.promise hs, Option.some.injEq, Prod.mk.injEq] at hx
    obtain ⟨rfl, rfl⟩ := hx
    refine ⟨rfl, h.consumed, fun hs => absurd hs (Nat.succ_ne_zero _), ?_, h.starved, h.failed,
      fun hs => ?_, h.late, h.once, h.earned⟩
    · rw [settlements, List.countP_cons_of_pos (by simp [settles])]
      exact congrArg (· + 1) h.settled
    · obtain ⟨hd, batch, d, hmem⟩ := h.decoded hs
      exact ⟨hd, batch, d, List.mem_cons_of_mem _ hmem⟩
  | allocate =>
    obtain ⟨rfl, rfl⟩ | ⟨rfl, rfl⟩ := exec_allocate hx
    · exact ⟨trivial, h.plain (.inl rfl) rfl rfl⟩
    · have hlog : (w.record (.worker n) .badAlloc).log (.worker n) =
          w.log (.worker n) ++ [.badAlloc] := Function.update_self _ _ _
      have hreleased : 0 < s.released ↔
          .milestoneConsumed (cfg.orchestrator.req n) ∈ w.log (.worker n) := by
        have hold := h.consumed (cfg.orchestrator.req n)
        rw [if_pos rfl] at hold
        rw [← hold]
        exact List.count_pos_iff
      refine ⟨trivial, fun t => ?_, h.promise, ?_, fun _ => ?_, fun hs => ?_, fun hs => ?_, ?_,
        .inl rfl, h.earned⟩
      · rw [World.consumed, hlog, List.count_append, ← World.consumed, h.consumed t]
        simp [Life.next, Life.starve]
      · rw [settlements, List.countP_cons_of_neg (by simp [settles])]
        exact h.settled
      · rw [World.OutOfMemory, hlog]
        exact List.mem_append_right _ List.mem_cons_self
      · obtain ⟨e, he⟩ := h.failed hs
        refine ⟨e, ?_⟩
        rw [World.Ended, hlog]
        exact List.mem_append_left _ he
      · obtain ⟨hd, batch, d, hmem⟩ := h.decoded hs
        exact ⟨hd, batch, d, List.mem_cons_of_mem _ hmem⟩
      · rw [StarvedAfterRelease, hlog, pair_sublist_append, ← StarvedAfterRelease, ← h.late,
          ← hreleased]
        simp [Life.next, Life.starve]
  | note e =>
    obtain rfl : w.record (.worker n) e = w' := by
      simp only [exec, Option.some.injEq, Prod.mk.injEq] at hx
      exact hx.2
    have hlog : (w.record (.worker n) e).log (.worker n) = w.log (.worker n) ++ [e] :=
      Function.update_self _ _ _
    cases e with
    | milestoneConsumed t => exact hpre.2.elim
    | badAlloc => exact hpre.2.elim
    | executeEnd q =>
      have hplain : cfg.LifeOk n (⟨.worker n, .op (.note (.executeEnd q)), r, w⟩ :: tr)
          (w.record (.worker n) (.executeEnd q)) s := h.plain (.inr ⟨_, rfl, hlog⟩) rfl rfl
      cases q with
      | ok a => exact ⟨trivial, hplain⟩
      | error err =>
        refine ⟨trivial, hplain.consumed, hplain.promise, hplain.settled, hplain.starved,
          fun _ => ⟨err, ?_⟩, hplain.decoded, hplain.late, hplain.once, fun _ => .inr rfl⟩
        rw [World.Ended, hlog]
        exact List.mem_append_right _ List.mem_cons_self
    | _ => exact ⟨trivial, h.plain (.inr ⟨_, rfl, hlog⟩) rfl rfl⟩
  | llamaDecode hd batch =>
    have hplain : cfg.LifeOk n (⟨.worker n, .op (.llamaDecode hd batch), r, w⟩ :: tr) w' s := by
      obtain ⟨-, rfl⟩ | ⟨ctx, -, -, -, rfl⟩ := exec_llamaDecode hx <;>
        exact h.plain (.inl rfl) rfl rfl
    refine ⟨trivial, hplain.consumed, hplain.promise, hplain.settled, hplain.starved,
      hplain.failed, fun hs => ?_, hplain.late, hplain.once, fun hs => ?_⟩
    · have hor : s.decoded = true ∨ r = true := by
        have hs : (s.decoded || r) = true := hs
        simpa using hs
      obtain hold | rfl := hor
      · exact hplain.decoded hold
      · exact ⟨hd, batch, w, List.mem_cons_self⟩
    · refine (hplain.earned hs).imp_left fun hold => ?_
      show (s.decoded || r) = true
      rw [hold, Bool.true_or]
  | _ =>
    refine ⟨trivial, h.plain ?_ ?_ rfl⟩
    · obtain hl | ⟨e, hemit, hl⟩ := exec_log hx
      · exact .inl (by rw [hl])
      · exact .inr ⟨e, by cases hemit <;> rfl, by rw [hl, Function.update_self]⟩
    · obtain heq | ⟨m, q, ho, -⟩ := exec_promises hx
      · rw [heq]
      · cases ho

/-- How the worker of a node ends. -/
def LifeEnd (cfg : Pipeline) (i : Thread) (_ : Outcome) (s : Life) : Prop :=
  ∀ n, i = .worker n → n ∈ cfg.orchestrator.names → s.Ended cfg.orchestrator n

/-- The threads do what their observers accept. -/
theorem program_life (i : Thread) :
    (lifeWatch cfg i).Meets (cfg.program i) (cfg.LifeEnd i) {} := by
  cases i with
  | main =>
    have hkeeps : ∀ a, CallerAction a → (lifeWatch cfg .main).Keeps (fun _ => True) a :=
      fun a ha _ _ => ⟨ha, fun _ _ => trivial⟩
    have hspec := Observer.Spec.of_uses (cfg.orchestrator.joinAll_uses) hkeeps
    exact (hspec {} trivial).mono fun _ _ _ n hn => by cases hn
  | worker n =>
    show (lifeWatch cfg _).Meets (if n ∈ cfg.orchestrator.names then
      cfg.orchestrator.worker cfg.engine n else pure () : Prog Unit) _ _
    split
    · rename_i hn
      refine (worker_life hn {} ⟨rfl, rfl, rfl⟩).mono fun r s hs m hm _ => ?_
      obtain rfl := Thread.worker.inj hm
      cases r <;> exact hs
    · rename_i hn
      intro m hm hm'
      obtain rfl := Thread.worker.inj hm
      exact absurd hm' hn

/-- In every run the observers see what happens. -/
theorem lives (hr : cfg.initial.Run tr c) :
    (∀ n, cfg.LifeOk n tr c.data (Observer.state (lifeWatch cfg) tr (.worker n))) ∧
      Observer.Follows (lifeWatch cfg) cfg.LifeEnd tr c := by
  refine hr.observe (R := fun tr c =>
    ∀ n, cfg.LifeOk n tr c.data (Observer.state (lifeWatch cfg) tr (.worker n)))
    program_life (fun n => ?_) ?_ fun _ hR hs n => by rw [hs.data]; exact hR n
  · -- nothing has happened yet
    have hcount : ∀ t, cfg.initialWorld.consumed n t = 0 := fun t => rfl
    refine ⟨fun t => ?_, fun _ => rfl, rfl, fun h => absurd h Bool.false_ne_true,
      fun h => absurd h Bool.false_ne_true, fun h => absurd h Bool.false_ne_true, ?_,
      .inr (Nat.zero_le 1), fun h => absurd h (Nat.lt_irrefl 0)⟩
    · exact (hcount t).trans (ite_self 0).symm
    · refine ⟨fun h => absurd h Bool.false_ne_true, fun h => ?_⟩
      have hnil : [Event.milestoneConsumed (cfg.orchestrator.req n), .badAlloc].Sublist [] := h
      cases hnil
  · intro tr c e c' hrun hR he hok
    -- an action that is no operation leaves the data and the observers alone
    have hquiet : ∀ {i : Thread} {a : Action sig} {r : a.Res}, e = ⟨i, a, r, c.data⟩ →
        c'.data = c.data → (∀ s : Life, s.next a r = s) → (∀ n, settles n a = false) →
        Life.expects a r → Life.expects e.action e.answer ∧ ∀ n, cfg.LifeOk n (e :: tr) c'.data
          (Observer.state (lifeWatch cfg) (e :: tr) (.worker n)) := by
      intro i a r heq hdata hnext hsettle hexpect
      subst heq
      refine ⟨hexpect, fun n => ?_⟩
      have hstate : Observer.state (lifeWatch cfg) (⟨i, a, r, c.data⟩ :: tr) (.worker n) =
          Observer.state (lifeWatch cfg) tr (.worker n) := by
        by_cases hi : Thread.worker n = i
        · subst hi
          rw [Observer.state_act]
          exact hnext _
        · rw [Observer.state_other hi]
      rw [hstate, hdata]
      exact (hR n).plain (.inl rfl) rfl (hsettle n)
    cases he with
    | @op i o k x r d ht hx =>
      have hpre := (reachable_holds hrun.reaches).pre ⟨k, ht⟩
      have hinv := (reachable_holds hrun.reaches).inv
      have hother : ∀ n, Thread.worker n ≠ i → settles n (.op o) = false →
          cfg.LifeOk n (⟨i, .op o, r, c.data⟩ :: tr) d
            (Observer.state (lifeWatch cfg) (⟨i, .op o, r, c.data⟩ :: tr) (.worker n)) := by
        intro n hn hsettle
        rw [Observer.state_other hn]
        exact (hR n).other hx (Ne.symm hn) hsettle
      cases i with
      | main =>
        have hcaller : CallerAction (.op o) := hok
        refine ⟨?_, fun n => hother n (by simp) ?_⟩
        · show Life.expects _ _
          cases hcaller <;> trivial
        · cases hcaller <;> rfl
      | worker m =>
        have haccepts : (Observer.state (lifeWatch cfg) tr (.worker m)).accepts
            cfg.orchestrator m (.op o) := hok
        obtain ⟨hexpect, hown⟩ := (hR m).own hinv hpre hx haccepts
        refine ⟨hexpect, fun n => ?_⟩
        by_cases hn : n = m
        · subst hn
          rw [Observer.state_act]
          exact hown
        · refine hother n (by simpa using hn) ?_
          cases o with
          | setPromise q r =>
            obtain ⟨rfl, -⟩ := haccepts
            simpa [settles] using Ne.symm hn
          | _ => rfl
    | _ => exact hquiet rfl rfl (fun _ => rfl) (fun _ => rfl) trivial

end Pipeline

end SwarmKV

import SwarmKV.Native.AnalyticalNode
import SwarmKV.Native.PrefillNode
import Mathlib.Data.List.Nodup

/-!
# The orchestrator

The graph of nodes, its cycle check, and `execute_pipeline`: one worker for each
node, gated on its upstream nodes, and the caller that joins them.
-/

namespace SwarmKV

/-- An `ExecutionNode`. -/
inductive Node where
  | prefill (node : PrefillNode)
  | analytical (node : AnalyticalNode)
  deriving DecidableEq, Repr

namespace Node

/-- `required_prefix_tokens`. -/
def requiredPrefixTokens : Node → Int
  | prefill _ => kSwarmkvWaitForPrefillComplete
  | analytical node => node.requiredPrefixTokens

/-- `is_prefill_provider`. -/
def isPrefillProvider : Node → Bool
  | prefill _ => true
  | analytical _ => false

/-- `execute`. -/
def execute (ctx : OrchestratorContext) : Node → Prog Unit
  | prefill node => node.execute ctx
  | analytical node => node.execute ctx

end Node

/-- `Orchestrator`. The maps `adj` and `rev_adj` are total here, with the empty list
    for an absent key; `adjKeys` are the keys of `adj` in iteration order. -/
structure Orchestrator where
  nodes : List (String × Node)
  adj : String → List String
  adjKeys : List String
  revAdj : String → List String
  /-- Names are unique. -/
  nodup : (nodes.map Prod.fst).Nodup
  /-- `rev_adj` is the transpose of `adj`. -/
  transpose : ∀ u v, v ∈ adj u ↔ u ∈ revAdj v
  /-- Both ends of an edge are keys of `adj`. -/
  keys : ∀ u v, v ∈ adj u → u ∈ adjKeys ∧ v ∈ adjKeys

namespace Orchestrator

/-- The orchestrator as constructed. -/
def empty : Orchestrator where
  nodes := []
  adj := fun _ => []
  adjKeys := []
  revAdj := fun _ => []
  nodup := List.nodup_nil
  transpose := fun _ _ => by simp
  keys := fun _ _ h => nomatch h

/-- `add_node`. -/
def addNode (o : Orchestrator) (name : String) (node : Node) : Except Error Orchestrator :=
  if h : name ∈ o.nodes.map Prod.fst then .error (.duplicateNode name)
  else .ok { o with
    nodes := o.nodes ++ [(name, node)]
    nodup := by
      rw [List.map_append, List.nodup_append]
      refine ⟨o.nodup, by simp, fun a ha b hb => ?_⟩
      obtain rfl : b = name := by simpa using hb
      rintro rfl
      exact h ha }

/-- `add_dependency`. -/
def addDependency (o : Orchestrator) (fromNode toNode : String) : Orchestrator where
  nodes := o.nodes
  adj := Function.update o.adj fromNode (o.adj fromNode ++ [toNode])
  adjKeys := (o.adjKeys.insert fromNode).insert toNode
  revAdj := Function.update o.revAdj toNode (o.revAdj toNode ++ [fromNode])
  nodup := o.nodup
  transpose := by
    intro u v
    have h := o.transpose u v
    by_cases hu : u = fromNode <;> by_cases hv : v = toNode <;> simp_all
  keys := by
    intro u v h
    have hk := o.keys u v
    by_cases hu : u = fromNode
    · subst hu
      simp only [Function.update_self, List.mem_append, List.mem_singleton] at h
      rcases h with h | rfl
      · simp [hk h]
      · simp
    · rw [Function.update_of_ne hu] at h
      simp [hk h]

/-- The registered names. -/
def names (o : Orchestrator) : List String := o.nodes.map Prod.fst

/-- `nodes.find`. -/
def node (o : Orchestrator) (name : String) : Option Node := o.nodes.lookup name

/-- `get_dependencies_for_node`. -/
def getDependenciesForNode (o : Orchestrator) (name : String) : List String := o.revAdj name

/-! ## Cycle check -/

/-- The colours of `validate_acyclic`: 0, 1 and 2. -/
inductive Color where
  | unvisited
  | visiting
  | visited
  deriving DecidableEq, Repr

/-- The loop over the outgoing edges of `u`, with `dfs` for the recursive call. -/
def visitEdges (dfs : String → (String → Color) → Option (Except Error (String → Color)))
    (u : String) : List String → (String → Color) → Option (Except Error (String → Color))
  | [], state => some (.ok state)
  | v :: rest, state =>
    match state v with
    | .visiting => some (.error (.cycle u v))
    | .visited => visitEdges dfs u rest state
    | .unvisited =>
      match dfs v state with
      | some (.ok state) => visitEdges dfs u rest state
      | r => r

/-- The recursive `dfs`; the fuel bounds its depth. -/
def dfs (o : Orchestrator) : Nat → String → (String → Color) →
    Option (Except Error (String → Color))
  | 0, _, _ => none
  | fuel + 1, u, state =>
    match visitEdges (o.dfs fuel) u (o.adj u) (Function.update state u .visiting) with
    | some (.ok state) => some (.ok (Function.update state u .visited))
    | r => r

/-- The loop of `validate_acyclic` over the keys of `adj`. -/
def visitKeys (o : Orchestrator) (fuel : Nat) : List String → (String → Color) →
    Option (Except Error (String → Color))
  | [], state => some (.ok state)
  | u :: rest, state =>
    match state u with
    | .unvisited =>
      match o.dfs fuel u state with
      | some (.ok state) => o.visitKeys fuel rest state
      | r => r
    | _ => o.visitKeys fuel rest state

/-- `validate_acyclic`. A path of the search has no vertex twice, so the number of
    keys bounds its length. -/
def validateAcyclic (o : Orchestrator) : Option (Except Error Unit) :=
  (o.visitKeys (o.adjKeys.length + 1) o.adjKeys fun _ => .unvisited).map fun r => r.map fun _ => ()

/-! ## Execution -/

/-- The registration loop of `execute_pipeline`. -/
def registerBranches : List (String × Node) → PipelineState → Except Error PipelineState
  | [], s => .ok s
  | (_, node) :: rest, s =>
    let w := node.requiredPrefixTokens
    if w > 0 then
      match s.registerSnapshotMilestone w with
      | .ok s => registerBranches rest (s.registerMilestoneConsumer w)
      | .error e => .error e
    else registerBranches rest s

/-- The gate of a worker for one upstream node. -/
def awaitDependency (o : Orchestrator) (req : Int) (depName : String) : Prog Unit :=
  match o.node depName with
  | none => throw .outOfRange
  | some dep =>
    if dep.isPrefillProvider ∧ req ≥ 0 then PipelineState.waitForWatermark req
    else perform (.awaitCompletion depName)

/-- The loop of a worker over its upstream nodes. -/
def awaitDependencies (o : Orchestrator) (req : Int) : List String → Prog Unit
  | [] => pure ()
  | depName :: rest => do
    o.awaitDependency req depName
    o.awaitDependencies req rest

/-- `nodes.at(name)->execute(state, &ctx)`, with its start and its end on record. -/
def executeNode (node : Node) (ctx : OrchestratorContext) : Prog Unit := do
  perform (.note .executeStart)
  match ← (node.execute ctx).attempt with
  | .ok () => perform (.note (.executeEnd (.ok ())))
  | .error e => do
    perform (.note (.executeEnd (.error e)))
    throw e

/-- The `catch` block of a worker. -/
def failNode (req : Int) (name : String) (e : Error) : Prog Unit := do
  if req > 0 then PipelineState.signalMilestoneConsumed req else pure ()
  let _ ← perform (.setPromise name (.error e))
  throw e

/-- The worker lambda of `execute_pipeline`, with `params.n_ctx` as a parameter. -/
def workerBodyAt (o : Orchestrator) (E : Engine) (nCtx : Nat) (name : String) : Prog Unit :=
  match o.node name with
  | none => throw .outOfRange
  | some node => do
    let req := node.requiredPrefixTokens
    o.awaitDependencies req (o.getDependenciesForNode name)
    let ctx : OrchestratorContext := {
      engine := E, nCtx := nCtx, memoryPool := true, nodeName := name }
    tryCatch
      (do
        executeNode node ctx
        if ← perform (.setPromise name (.ok ())) then pure ()
        else throw .promiseAlreadySatisfied)
      (failNode req name)

/-- A worker thread: `std::async` keeps how the lambda ended for `worker_tasks`. -/
def workerAt (o : Orchestrator) (E : Engine) (nCtx : Nat) (name : String) : Prog Unit := do
  let r ← (o.workerBodyAt E nCtx name).attempt
  perform (.setTask name r)
  match r with
  | .ok () => pure ()
  | .error e => throw e

/-- The worker lambda of `execute_pipeline`. -/
def workerBody (o : Orchestrator) (E : Engine) (name : String) : Prog Unit :=
  o.workerBodyAt E kSwarmkvDefaultPipelineCtx name

/-- A worker thread. -/
def worker (o : Orchestrator) (E : Engine) (name : String) : Prog Unit :=
  o.workerAt E kSwarmkvDefaultPipelineCtx name

/-- The join loop of `execute_pipeline`: `task.wait()` for each worker. -/
def joinWorkers : List String → Prog Unit
  | [] => pure ()
  | name :: rest => do
    let _ ← perform (.awaitTask name)
    joinWorkers rest

/-- The rest of `execute_pipeline` once the workers have been spawned. -/
def joinAll (o : Orchestrator) : Prog Unit := do
  joinWorkers o.names
  MemoryPool.freeAll

end Orchestrator

/-- A pipeline: the engine, the graph, and what the caller of `execute_pipeline` has
    done to the state before: the capacity of the canonical buffer if there is one,
    and the milestones registered with `register_snapshot_milestone`. -/
structure Pipeline where
  engine : Engine
  orchestrator : Orchestrator
  staging : Option Nat
  milestones : List Int
  /-- `register_snapshot_milestone` throws otherwise. -/
  milestones_pos : ∀ t ∈ milestones, 0 < t

namespace Pipeline

/-- The handle of the canonical buffer. -/
def stagingBuffer (cfg : Pipeline) : Option Nat := cfg.staging.map fun _ => 0

/-- The `PipelineState` that the caller passes to `execute_pipeline`. -/
def freshState (cfg : Pipeline) : PipelineState where
  materializedBranchBuffer := cfg.stagingBuffer
  snapshotMilestones := cfg.milestones

/-- The blackboard after the registration loop, which cannot fail. -/
def registeredState (cfg : Pipeline) : PipelineState :=
  match Orchestrator.registerBranches cfg.orchestrator.nodes cfg.freshState with
  | .ok s => s
  | .error _ => cfg.freshState

/-- Shared memory when the workers are spawned. -/
def initialWorld (cfg : Pipeline) : World where
  state := cfg.registeredState
  buffers := fun b => if b = 0 then cfg.staging.map fun size => { size := size } else none
  nextBuffer := 1
  activeBuffers := cfg.stagingBuffer.toList

/-- The program of each thread, with `params.n_ctx` as a parameter; a name that is not
    registered has no worker. -/
def programAt (cfg : Pipeline) (nCtx : Nat) : Thread → Prog Unit
  | .main => cfg.orchestrator.joinAll
  | .worker name =>
    if name ∈ cfg.orchestrator.names then cfg.orchestrator.workerAt cfg.engine nCtx name
    else pure ()

/-- `execute_pipeline` once the workers have been spawned, with `params.n_ctx` as a
    parameter. -/
def initialAt (cfg : Pipeline) (nCtx : Nat) : Config cfg.engine where
  data := cfg.initialWorld
  holder := fun _ => none
  threads := fun i => .run (cfg.programAt nCtx i)

/-- The program of each thread. -/
def program (cfg : Pipeline) : Thread → Prog Unit := cfg.programAt kSwarmkvDefaultPipelineCtx

/-- `execute_pipeline` once the workers have been spawned. -/
def initial (cfg : Pipeline) : Config cfg.engine := cfg.initialAt kSwarmkvDefaultPipelineCtx

/-- The states of all runs of `execute_pipeline`. -/
def Reachable (cfg : Pipeline) (c : Config cfg.engine) : Prop := cfg.initial.Reaches c

end Pipeline

end SwarmKV

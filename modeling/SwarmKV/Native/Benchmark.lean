import SwarmKV.Native.Orchestrator

/-!
# The benchmark

`run_swarm_v2_heterogeneous`: a thread for the prefiller, and two branches one after the other on
the caller's thread. The clocks and the metrics are left out.
-/

namespace SwarmKV.Benchmark

/-- `kBranchPromptA`. -/
def kBranchPromptA : String := "Summarize security posture."

/-- `kBranchPromptB`. -/
def kBranchPromptB : String := "Note license obligations."

/-- `kSwarmkvAgentAWatermark`. -/
def kSwarmkvAgentAWatermark : Int := 512

/-- `kSwarmkvAgentBWatermark`. -/
def kSwarmkvAgentBWatermark : Int := 3000

/-- The context that is made for each node. -/
def nodeContext (E : Engine) (nCtx : Nat) (nodeName : String) : OrchestratorContext where
  engine := E
  nCtx := nCtx
  memoryPool := true
  nodeName := nodeName

/-- The lambda of `prefill_thread`; how it ends is kept for `prefill_ex`. -/
def prefillThread (E : Engine) (nCtx : Nat) (baseDocPath : String) : Prog Unit := do
  let prefill : PrefillNode := ⟨baseDocPath⟩
  let prefillEx ← (prefill.execute (nodeContext E nCtx "Prefiller")).attempt
  perform (.setTask "Prefiller" prefillEx)

/-- A branch on the caller's thread. -/
def runAgent (E : Engine) (nCtx : Nat) (branchPrompt : String) (watermark : Int) (name : String) :
    Prog Unit := do
  PipelineState.waitForWatermark watermark
  let agent : AnalyticalNode := ⟨branchPrompt, watermark⟩
  agent.execute (nodeContext E nCtx name)

/-- The caller, from where `prefill_thread` has been spawned to where it has been joined, and
    `prefill_ex` rethrown. An exception before that ends the process, because the thread is
    still joinable. -/
def runAgents (E : Engine) (nCtx : Nat) : Prog Unit := do
  runAgent E nCtx kBranchPromptA kSwarmkvAgentAWatermark "AgentA"
  runAgent E nCtx kBranchPromptB kSwarmkvAgentBWatermark "AgentB"
  match ← perform (.awaitTask "Prefiller") with
  | .ok () => pure ()
  | .error prefillEx => throw prefillEx

/-- The registrations that precede it. -/
def registerAgents (s : PipelineState) : Except Error PipelineState := do
  let s ← s.registerSnapshotMilestone kSwarmkvAgentAWatermark
  let s ← s.registerSnapshotMilestone kSwarmkvAgentBWatermark
  pure ((s.registerMilestoneConsumer kSwarmkvAgentAWatermark).registerMilestoneConsumer
    kSwarmkvAgentBWatermark)

/-- The blackboard when `prefill_thread` is spawned. -/
def registeredState : PipelineState :=
  match registerAgents { materializedBranchBuffer := some 0 } with
  | .ok s => s
  | .error _ => {}

/-- The size of the canonical buffer, from `allocate_prefix_cache`. -/
def prefixCacheSize (E : Engine) (nCtx : Nat) : Nat :=
  if E.llamaStateGetSize nCtx = 0 then 2 ^ 20 else E.llamaStateGetSize nCtx

/-- Shared memory when `prefill_thread` is spawned. -/
def initialWorld (E : Engine) (nCtx : Nat) : World where
  state := registeredState
  buffers := fun b => if b = 0 then some { size := prefixCacheSize E nCtx } else none
  nextBuffer := 1
  activeBuffers := [0]

/-- The program of each thread. -/
def program (E : Engine) (nCtx : Nat) (baseDocPath : String) : Thread → Prog Unit
  | .main => runAgents E nCtx
  | .worker name => if name = "Prefiller" then prefillThread E nCtx baseDocPath else pure ()

/-- `run_swarm_v2_heterogeneous` once `prefill_thread` has been spawned. -/
def initial (E : Engine) (nCtx : Nat) (baseDocPath : String) : Config E where
  data := initialWorld E nCtx
  holder := fun _ => none
  threads := fun i => .run (program E nCtx baseDocPath i)

end SwarmKV.Benchmark

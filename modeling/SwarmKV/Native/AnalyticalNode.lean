import SwarmKV.Native.ContextBudget
import SwarmKV.Native.MemoryPool

/-!
# AnalyticalNode

A branch: forks the prefix KV at its watermark, or at the end of the prefill, and
decodes its prompt behind it. The whole of `execute` runs under the guard; it is
cut here into the steps its comments name.
-/

namespace SwarmKV

/-- `AnalyticalNode`. -/
structure AnalyticalNode where
  branchPrompt : String
  requiredPrefixTokens : Int
  deriving DecidableEq, Repr

namespace AnalyticalNode

/-- `tokenize_text`. -/
def tokenizeText (E : Engine) (text : String) : Prog (List LlamaToken) :=
  tokenizeWith .branchTokenizeFailed E text

/-- What a branch forks: `fork_prefix_len`, `fork_kv_bytes` and `fork_data`. -/
structure Fork where
  prefixLen : Int
  kvBytes : Nat
  data : Option DataPtr

/-- Choose the snapshot source: the milestone snapshot for a watermark branch, the
    latest canonical export for a full-prefill branch. -/
def chooseFork (node : AnalyticalNode) : Prog Fork := do
  if node.requiredPrefixTokens ≥ 0 then do
    match ← PipelineState.tryGetPrefixSnapshot node.requiredPrefixTokens with
    | none => throw (.missingPrefixSnapshot node.requiredPrefixTokens)
    | some (data, bytes, seqLen) => pure ⟨seqLen, bytes, data⟩
  else do
    let s₁ ← perform .load
    let s₂ ← perform .load
    if s₂.prefixKvSerialBytes > 0 then do
      let s₃ ← perform .load
      match s₃.materializedBranchBuffer with
      | none => throw .noCanonicalBuffer
      | some buffer => pure ⟨s₁.prefixSeqLen, s₂.prefixKvSerialBytes, some (.buffer buffer)⟩
    else pure ⟨s₁.prefixSeqLen, s₂.prefixKvSerialBytes, none⟩

/-- Copy the fork into a branch buffer, when it has any bytes. -/
def materializeFork (node : AnalyticalNode) (ctx : OrchestratorContext) (fork : Fork) :
    Prog (Option Nat) := do
  if fork.kvBytes > 0 then do
    match fork.data with
    | none => throw .forkDataNull
    | some data => do
      let branchBuf ← MemoryPool.allocateBranchCache ctx.nCtx
      let s ← perform .load
      if s.materializedBranchBuffer.isSome ∧ node.requiredPrefixTokens < 0 then do
        KVHandoff.materializeBranchCache s.materializedBranchBuffer (some branchBuf) fork.kvBytes
        pure (some branchBuf)
      else do
        let size ← perform (.bufferSize branchBuf)
        if size < fork.kvBytes then throw .branchBufferTooSmall
        else do
          let bytes ← perform (.readBytes data fork.kvBytes)
          perform (.writeBytes branchBuf bytes)
          pure (some branchBuf)
  else pure none

/-- Restore the fork into the branch context, when it has any bytes. -/
def restoreFork (lctx : Nat) (fork : Fork) : Option Nat → Prog Unit
  | none => pure ()
  | some branchBuf => do
    let n ← perform (.llamaStateSeqSetData lctx (.buffer branchBuf) fork.kvBytes kSwarmkvPrefixSeqId)
    if n ≠ fork.kvBytes then do
      perform (.llamaFree lctx)
      throw .branchSizeMismatch
    else pure ()

/-- `branch_buf ? branch_buf : state->materialized_branch_buffer`. -/
def bindTargetOf : Option Nat → Prog (Option Nat)
  | some branchBuf => pure (some branchBuf)
  | none => do
    let s ← perform .load
    pure s.materializedBranchBuffer

/-- Tokenize the prompt and check that it fits behind the fork. -/
def preparePrompt (node : AnalyticalNode) (ctx : OrchestratorContext) (lctx : Nat)
    (branchBuf : Option Nat) (fork : Fork) : Prog (List LlamaToken) := do
  let bindTarget ← bindTargetOf branchBuf
  KVHandoff.bindContiguousCache (some lctx) bindTarget
  let tokens ← tokenizeText ctx.engine node.branchPrompt
  if tokens.isEmpty then do
    perform (.llamaFree lctx)
    throw .emptyPrompt
  else do
    tryCatch (swarmkvValidateContextBudget ctx.engine fork.prefixLen [node.branchPrompt] ctx.nCtx)
      fun e => do
        perform (.llamaFree lctx)
        throw (.branchBudget e)
    pure tokens

/-- The diagnostic string of a finished branch, under `output_lock`. -/
def publishOutput (node : AnalyticalNode) (key : String) (nTok : Nat) (fork : Fork) : Prog Unit :=
  withLock .outputLock do
    alloc
    perform (.putOutput key (s!"branch_ok n_tok={nTok} prefix={fork.prefixLen}" ++
      s!" watermark={node.requiredPrefixTokens}"))

/-- Decode the prompt behind the fork in one batch. -/
def decodePrompt (node : AnalyticalNode) (ctx : OrchestratorContext) (lctx : Nat)
    (tokens : List LlamaToken) (fork : Fork) : Prog Unit := do
  let batch ← perform .llamaBatchInit
  if ← perform (.llamaDecode lctx (fillBatch batch tokens fork.prefixLen true)) then do
    node.publishOutput ctx.nodeName tokens.length fork
    perform (.llamaBatchFree batch)
    perform (.llamaFree lctx)
  else do
    perform (.llamaBatchFree batch)
    perform (.llamaFree lctx)
    throw .branchDecodeFailed

/-- The body of `execute`, under the guard. -/
def forkAndDecode (node : AnalyticalNode) (ctx : OrchestratorContext) : Prog Unit := do
  let t0 ← perform .steadyClock
  if !ctx.memoryPool then throw .nullMemoryPool
  else do
    let fork ← node.chooseFork
    let branchBuf ← node.materializeFork ctx fork
    perform (.noteFork fork.prefixLen branchBuf fork.kvBytes)
    match ← perform .llamaInitFromModel with
    | none => throw .branchInitNull
    | some lctx => do
      restoreFork lctx fork branchBuf
      let tokens ← node.preparePrompt ctx lctx branchBuf fork
      node.decodePrompt ctx lctx tokens fork
      if node.requiredPrefixTokens > 0 then
        PipelineState.signalMilestoneConsumed node.requiredPrefixTokens
      else pure ()
      PipelineState.recordTiming ctx.nodeName t0

/-- `execute`. -/
def execute (node : AnalyticalNode) (ctx : OrchestratorContext) : Prog Unit :=
  withLock .llamaApiMutex (node.forkAndDecode ctx)

end AnalyticalNode

end SwarmKV

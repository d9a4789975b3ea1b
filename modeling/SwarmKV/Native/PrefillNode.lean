import SwarmKV.Native.ContextBudget
import SwarmKV.Native.MemoryPool

/-!
# PrefillNode

The root node: decodes the document in slices of 128 tokens, publishes the
watermark after each slice, and at a milestone gives its context up until the
branches that fork there have done so.

Loops carry fuel. `decodeTokenRange` gets one unit for each token of its slice
and `prefillLoop` one for each token of the document, which is enough because
every round takes at least one token.
-/

namespace SwarmKV

/-- `PrefillNode`. -/
structure PrefillNode where
  sourceDocumentPath : String
  deriving DecidableEq, Repr

namespace PrefillNode

/-- `tokenize_text`. -/
def tokenizeText (E : Engine) (text : String) : Prog (List LlamaToken) :=
  tokenizeWith .prefillTokenizeFailed E text

/-- `load_document_text`. -/
def loadDocumentText (E : Engine) (path : String) : Prog String :=
  match E.readFile path with
  | .contents text => pure text
  | .unreadable => throw .documentUnreadable
  | .missing => pure ("SwarmKV demo document body for path: " ++ path)

/-- The loop of `decode_token_range`. From 2^31 on, `llama_n_batch` is negative as an
    `int32_t`, and so is the chunk. Such a batch is never decoded, so what follows the
    decode has a positive chunk. -/
def decodeLoop (E : Engine) (lctx : Nat) (tokens : List LlamaToken) :
    (fuel cur remaining : Nat) → Prog Unit
  | 0, _, _ => pure ()
  | fuel + 1, cur, remaining =>
    if remaining > 0 then do
      let chunk := min (toInt32 E.llamaNBatch) remaining
      let batch ← perform .llamaBatchInit
      let filled := fillBatch batch ((tokens.drop cur).take chunk.toNat) cur false
      if ← perform (.llamaDecode lctx { filled with nTokens := chunk }) then do
        perform (.llamaBatchFree batch)
        decodeLoop E lctx tokens fuel (cur + chunk.toNat) (remaining - chunk.toNat)
      else do
        perform (.llamaBatchFree batch)
        throw .prefillDecodeFailed
    else pure ()

/-- `decode_token_range`. -/
def decodeTokenRange (E : Engine) (lctx : Nat) (tokens : List LlamaToken) (offset count : Nat) :
    Prog Unit :=
  decodeLoop E lctx tokens count offset count

/-- `restore_prefix_snapshot`. -/
def restorePrefixSnapshot (lctx : Nat) (watermark : Int) : Prog Unit := do
  match ← PipelineState.tryGetPrefixSnapshot watermark with
  | none => throw (.resumeMissingSnapshot watermark)
  | some (data, nbytes, _) =>
    match data with
    | none => pure ()
    | some data => do
      let nr ← perform (.llamaStateSeqSetData lctx data nbytes kSwarmkvPrefixSeqId)
      if nr ≠ nbytes then throw .resumeSizeMismatch else pure ()

/-- The pause at a milestone: free the context, let the branches fork, and resume
    in a fresh context. -/
def pauseAtMilestone (lctx : Nat) (prefilled : Int) : Prog Nat := do
  withLock .llamaApiMutex (perform (.llamaFree lctx))
  PipelineState.waitForMilestoneConsumers prefilled
  withLock .llamaApiMutex do
    match ← perform .llamaInitFromModel with
    | none => throw .resumeInitNull
    | some lctx => do
      let s ← perform .load
      KVHandoff.bindContiguousCache (some lctx) s.materializedBranchBuffer
      restorePrefixSnapshot lctx prefilled
      pure lctx

/-- One slice of the V2 loop, under the guard. -/
def prefillSlice (E : Engine) (lctx : Nat) (tokens : List LlamaToken) (prefilled chunk : Nat) :
    Prog Unit :=
  withLock .llamaApiMutex do
    decodeTokenRange E lctx tokens prefilled chunk
    PipelineState.commitWatermark (some lctx) (prefilled + chunk : Nat)

/-- The V2 loop; the answer is the context that is live after it. -/
def prefillLoop (E : Engine) (tokens : List LlamaToken) (total : Nat) :
    (fuel lctx prefilled : Nat) → Prog Nat
  | 0, lctx, _ => pure lctx
  | fuel + 1, lctx, prefilled =>
    if prefilled < total then do
      let chunk := min kSwarmkvPrefillChunkTokens (total - prefilled)
      prefillSlice E lctx tokens prefilled chunk
      if ← PipelineState.isSnapshotMilestone (prefilled + chunk : Nat) then do
        let lctx ← pauseAtMilestone lctx (prefilled + chunk : Nat)
        prefillLoop E tokens total fuel lctx (prefilled + chunk)
      else prefillLoop E tokens total fuel lctx (prefilled + chunk)
    else pure lctx

/-- `execute`. -/
def execute (node : PrefillNode) (ctx : OrchestratorContext) : Prog Unit := do
  let t0 ← perform .steadyClock
  match ← perform .llamaInitFromModel with
  | none => throw .prefillInitNull
  | some lctx => do
    let s ← perform .load
    KVHandoff.bindContiguousCache (some lctx) s.materializedBranchBuffer
    let fileContent ← loadDocumentText ctx.engine node.sourceDocumentPath
    let tokens ← tokenizeText ctx.engine fileContent
    if toInt32 tokens.length ≥ toInt32 ctx.nCtx then do
      perform (.llamaFree lctx)
      throw (.documentTooLarge tokens.length ctx.nCtx)
    else do
      let total := (toInt32 tokens.length).toNat
      let lctx ← prefillLoop ctx.engine tokens total total lctx 0
      perform (.note (.markPrefillComplete lctx))
      PipelineState.markPrefillComplete
      perform (.llamaFree lctx)
      PipelineState.recordTiming ctx.nodeName t0

end PrefillNode

end SwarmKV

import SwarmKV.Native.World

/-!
# The blackboard

`PipelineState`: registration of milestones before the threads start, and the
watermark protocol between the prefiller and the branches while they run.
-/

namespace SwarmKV

/-- An allocation by the standard library. -/
def alloc : Prog Unit := do
  if ← perform .allocate then pure () else throw .badAlloc

namespace PipelineState

/-- `register_snapshot_milestone`. -/
def registerSnapshotMilestone (s : PipelineState) (tokenCount : Int) :
    Except Error PipelineState :=
  if tokenCount ≤ 0 then .error .milestoneNotPositive
  else .ok { s with snapshotMilestones := s.snapshotMilestones.insert tokenCount }

/-- `register_milestone_consumer`. -/
def registerMilestoneConsumer (s : PipelineState) (tokenCount : Int) : PipelineState :=
  if tokenCount ≤ 0 then s
  else
    let remaining := (s.milestoneConsumersRemaining tokenCount).getD 0 + 1
    { s with milestoneConsumersRemaining :=
        Function.update s.milestoneConsumersRemaining tokenCount (some remaining) }

/-- The first critical section of `commit_watermark`: a value that is no milestone
    is published at once. The answer is `export_kv`. -/
def publishUnexported (tokensReady : Int) : Prog Bool := do
  let s ← perform .load
  if s.snapshotMilestones.contains tokensReady then pure true
  else do
    perform (.setWatermark tokensReady)
    notifyAll .watermarkCv
    pure false

/-- The export in the middle of `commit_watermark`, outside the mutex: `nw` and
    `export_buf`. -/
def exportPrefix (ctx : Nat) : Prog (Nat × List UInt8) := do
  let s ← perform .load
  match s.materializedBranchBuffer with
  | none => pure (0, [])
  | some buffer => do
    let need ← perform (.llamaStateSeqGetSize ctx kSwarmkvPrefixSeqId)
    let cap ← perform (.bufferSize buffer)
    if cap < need then throw .commitBufferTooSmall
    else do
      let nw ← perform (.llamaStateSeqGetData ctx buffer cap kSwarmkvPrefixSeqId)
      if nw > 0 then do
        alloc
        let exportBuf ← perform (.readBytes (.buffer buffer) nw)
        pure (nw, exportBuf)
      else pure (0, [])

/-- The last critical section of `commit_watermark`. Only `prefix_snapshots[…]`
    can throw in it, when it has to make a new entry. -/
def publishExported (tokensReady : Int) (nw : Nat) (exportBuf : List UInt8) : Prog Unit := do
  perform (.setWatermark tokensReady)
  perform (.setPrefixSeqLen tokensReady)
  perform (.setPrefixKvSerialBytes nw)
  let s ← perform .load
  if (s.prefixSnapshots tokensReady).isNone then alloc else pure ()
  if nw > 0 then perform (.putSnapshot tokensReady exportBuf)
  else perform (.putSnapshot tokensReady [])
  notifyAll .watermarkCv

/-- `commit_watermark`. -/
def commitWatermark (ctx : Option Nat) (tokensReady : Int) : Prog Unit := do
  perform (.note (.commitWatermark ctx tokensReady))
  match ctx with
  | none => throw .commitNullContext
  | some ctx =>
    if tokensReady < 0 then throw .commitNegativeTokens
    else do
      let exportKv ← withLock .watermarkMutex (publishUnexported tokensReady)
      if exportKv then do
        let (nw, exportBuf) ← exportPrefix ctx
        withLock .watermarkMutex (publishExported tokensReady nw exportBuf)
      else pure ()

/-- `wait_for_watermark`. -/
def waitForWatermark (requiredTokens : Int) : Prog Unit :=
  if requiredTokens < 0 then throw .waitNegativeTokens
  else withLock .watermarkMutex (await (.watermark requiredTokens))

/-- `mark_prefill_complete`. -/
def markPrefillComplete : Prog Unit :=
  withLock .watermarkMutex do
    perform .setPrefillComplete
    notifyAll .watermarkCv

/-- `wait_for_prefill_complete`. -/
def waitForPrefillComplete : Prog Unit :=
  withLock .watermarkMutex (await .prefillComplete)

/-- `try_get_prefix_snapshot`: the data pointer, the byte count and `seq_len`. -/
def tryGetPrefixSnapshot (watermark : Int) : Prog (Option (Option DataPtr × Nat × Int)) :=
  withLock .watermarkMutex do
    let s ← perform .load
    match s.prefixSnapshots watermark with
    | none => pure none
    | some snap =>
      pure (some (if snap.data.isEmpty then none else some (.snapshot watermark),
        snap.data.length, snap.seqLen))

/-- `signal_milestone_consumed`. -/
def signalMilestoneConsumed (tokenCount : Int) : Prog Unit :=
  if tokenCount ≤ 0 then pure ()
  else withLock .watermarkMutex do
    match ← perform (.consumeMilestone tokenCount) with
    | none => pure ()
    | some left => if left ≤ 0 then notifyAll .prefillResumeCv else pure ()

/-- `is_snapshot_milestone`. -/
def isSnapshotMilestone (tokenCount : Int) : Prog Bool :=
  withLock .watermarkMutex do
    let s ← perform .load
    pure (s.snapshotMilestones.contains tokenCount)

/-- `wait_for_milestone_consumers`. -/
def waitForMilestoneConsumers (tokenCount : Int) : Prog Unit :=
  if tokenCount ≤ 0 then pure ()
  else withLock .watermarkMutex (await (.milestoneConsumers tokenCount))

/-- The last step of both `execute` bodies: `timings_ms[key]`, under `timing_lock`. -/
def recordTiming (key : String) (t0 : Int) : Prog Unit := do
  let t1 ← perform .steadyClock
  withLock .timingLock do
    alloc
    perform (.putTiming key (t1 - t0))

end PipelineState

end SwarmKV

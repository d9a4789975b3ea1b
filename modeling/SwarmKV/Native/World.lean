import SwarmKV.Monitor.Semantics
import SwarmKV.Native.Error

/-!
# Shared memory and the atomic actions on it

The world is everything the threads of one pipeline run share: the
`PipelineState` blackboard, the live llama contexts and batches, the ggml
buffers with the `MemoryPool` registry, and the promises and futures of the
orchestrator. It also keeps a log for each thread, which no code reads: the log
records the calls and outcomes that properties of a run speak about.

`Op` lists the atomic actions. Every plain read or write of a shared field is an
action of its own, so that nothing is atomic here that is not in the source;
mutexes and condition variables are those of `Monitor.Prog`.
-/

namespace SwarmKV

/-- The threads of a run: the caller of `execute_pipeline` and one worker for
    each node. -/
inductive Thread where
  | main
  | worker (name : String)
  deriving DecidableEq, Repr

/-- The mutexes. -/
inductive Lock where
  | llamaApiMutex
  | watermarkMutex
  | poolMutex
  | outputLock
  | timingLock
  deriving DecidableEq, Repr

instance : Fintype Lock :=
  ⟨{.llamaApiMutex, .watermarkMutex, .poolMutex, .outputLock, .timingLock},
    fun l => by cases l <;> decide⟩

/-- The condition variables of `PipelineState`. -/
inductive Cv where
  | watermarkCv
  | prefillResumeCv
  deriving DecidableEq, Repr

/-- The conditions threads wait for, all under `watermark_mutex`. -/
inductive Cond where
  /-- `watermark >= required_tokens`. -/
  | watermark (requiredTokens : Int)
  /-- `prefill_complete`. -/
  | prefillComplete
  /-- `milestone_consumers_remaining[token_count] <= 0`, or no entry. -/
  | milestoneConsumers (tokenCount : Int)
  deriving DecidableEq, Repr

/-- A `const uint8_t *` into memory that somebody else owns. -/
inductive DataPtr where
  /-- The storage of `prefix_snapshots[watermark].data`. -/
  | snapshot (watermark : Int)
  /-- The base of a ggml buffer. -/
  | buffer (handle : Nat)
  deriving DecidableEq, Repr

/-- What a thread's log records. -/
inductive Event where
  /-- `execute()` of the thread's node starts, or ends. -/
  | executeStart
  | executeEnd (r : Outcome)
  /-- `commit_watermark(ctx, tokens_ready)` is called. -/
  | commitWatermark (ctx : Option Nat) (tokensReady : Int)
  /-- `mark_prefill_complete()` is called; the local `lctx` is `ctx`. -/
  | markPrefillComplete (ctx : Nat)
  /-- `signal_milestone_consumed(token_count)` has lowered a count. -/
  | milestoneConsumed (tokenCount : Int)
  /-- `llama_state_seq_get_data` has exported a sequence as these bytes. -/
  | exported (seq : SeqState) (bytes : List UInt8)
  /-- `llama_state_seq_set_data` has restored these bytes. -/
  | restored (bytes : List UInt8)
  /-- A branch has copied `bytes` and will continue at `forkPrefixLen`. -/
  | forked (forkPrefixLen : Int) (bytes : List UInt8)
  /-- An allocation threw `std::bad_alloc`. -/
  | badAlloc
  deriving DecidableEq

/-- `PrefixKvSnapshot`. -/
structure PrefixKvSnapshot where
  data : List UInt8 := []
  seqLen : Int := 0
  deriving DecidableEq, Repr

/-- `PipelineState`, without its mutexes and condition variables. -/
structure PipelineState where
  materializedBranchBuffer : Option Nat := none
  prefixKvSerialBytes : Nat := 0
  prefixSeqLen : Int := 0
  watermark : Int := 0
  prefillComplete : Bool := false
  nodeOutputs : String → Option String := fun _ => none
  timingsMs : String → Option Int := fun _ => none
  snapshotMilestones : List Int := []
  prefixSnapshots : Int → Option PrefixKvSnapshot := fun _ => none
  milestoneConsumersRemaining : Int → Option Int := fun _ => none

/-- A live `llama_context`, with the thread that created it. -/
structure LlamaContext where
  owner : Thread
  cells : List KvCell := []

/-- A ggml buffer: its capacity, and its contents as far as they were written. -/
structure Buffer where
  size : Nat
  bytes : List UInt8 := []

/-- Everything the threads of a run share. -/
structure World where
  state : PipelineState
  contexts : Nat → Option LlamaContext := fun _ => none
  nextContext : Nat := 0
  batches : Nat → Bool := fun _ => false
  nextBatch : Nat := 0
  buffers : Nat → Option Buffer := fun _ => none
  nextBuffer : Nat := 0
  /-- `MemoryPool::active_buffers`. -/
  activeBuffers : List Nat := []
  /-- `completion_promises`: what they were fulfilled with. -/
  promises : String → Option Outcome := fun _ => none
  /-- `worker_tasks`: how the finished workers ended. -/
  tasks : String → Option Outcome := fun _ => none
  log : Thread → List Event := fun _ => []

/-- The atomic actions. -/
inductive Op where
  /-- Record an event. -/
  | note (e : Event)
  /-- Record what a branch has in its fork buffer. -/
  | noteFork (forkPrefixLen : Int) (branchBuf : Option Nat) (forkKvBytes : Nat)
  -- fields of PipelineState
  | load
  | setWatermark (tokens : Int)
  | setPrefixSeqLen (tokens : Int)
  | setPrefixKvSerialBytes (n : Nat)
  | putSnapshot (tokens : Int) (data : List UInt8)
  | setPrefillComplete
  | consumeMilestone (tokenCount : Int)
  | putOutput (key : String) (value : String)
  | putTiming (key : String) (ms : Int)
  -- host
  | allocate
  | steadyClock
  -- llama.cpp
  | llamaInitFromModel
  | llamaFree (ctx : Nat)
  | llamaBatchInit
  | llamaBatchFree (batch : Nat)
  | llamaDecode (ctx : Nat) (batch : LlamaBatch)
  | llamaStateGetSize (ctx : Nat) (nCtx : Nat)
  | llamaStateSeqGetSize (ctx : Nat) (seq : Int)
  | llamaStateSeqGetData (ctx : Nat) (buffer : Nat) (cap : Nat) (seq : Int)
  | llamaStateSeqSetData (ctx : Nat) (data : DataPtr) (n : Nat) (seq : Int)
  -- ggml buffers
  | allocBuffer (size : Nat)
  | freeBuffer (handle : Nat)
  | bufferSize (handle : Nat)
  | readBytes (data : DataPtr) (n : Nat)
  | writeBytes (handle : Nat) (bytes : List UInt8)
  -- MemoryPool registry
  | pushActiveBuffer (handle : Nat)
  | getActiveBuffers
  | clearActiveBuffers
  -- promises and futures
  | setPromise (name : String) (r : Outcome)
  | awaitCompletion (name : String)
  | setTask (name : String) (r : Outcome)
  | awaitTask (name : String)

/-- The answer of an action. -/
@[reducible] def Op.Res : Op → Type
  | load => PipelineState
  | consumeMilestone _ => Option Int
  | allocate => Bool
  | steadyClock => Int
  | llamaInitFromModel => Option Nat
  | llamaBatchInit => Nat
  | llamaDecode _ _ => Bool
  | llamaStateGetSize _ _ => Nat
  | llamaStateSeqGetSize _ _ => Nat
  | llamaStateSeqGetData _ _ _ _ => Nat
  | llamaStateSeqSetData _ _ _ _ => Nat
  | allocBuffer _ => Option Nat
  | bufferSize _ => Nat
  | readBytes _ _ => List UInt8
  | getActiveBuffers => List Nat
  | setPromise _ _ => Bool
  | awaitTask _ => Outcome
  | _ => Unit

/-- What the environment decides about an action. -/
inductive Choice where
  /-- The call succeeds. -/
  | ok
  /-- The call fails. -/
  | fail
  /-- The call exports these bytes. -/
  | data (bytes : List UInt8)
  /-- The clock shows this time. -/
  | time (ms : Int)
  deriving DecidableEq

/-- The signature of the pipeline's programs. -/
abbrev sig : Monitor.Sig where
  Op := Op
  Res := Op.Res
  Lock := Lock
  Cv := Cv
  Cond := Cond

/-- A program of the pipeline. -/
abbrev Prog (α : Type) := Monitor.Prog sig Error α

/-- Perform one action. -/
abbrev perform (o : Op) : Prog o.Res := @Monitor.Prog.perform sig Error o

/-- Run a block under a scoped guard. -/
abbrev withLock {α : Type} (l : Lock) (p : Prog α) : Prog α :=
  @Monitor.Prog.withLock sig Error α l p

/-- `cv.wait(lock, pred)`. -/
abbrev await (w : Cond) : Prog Unit := @Monitor.Prog.await sig Error w

/-- `cv.notify_all()`. -/
abbrev notifyAll (v : Cv) : Prog Unit := @Monitor.Prog.notifyAll sig Error v

namespace World

/-- Append to the log of thread `i`. -/
def record (w : World) (i : Thread) (e : Event) : World :=
  { w with log := Function.update w.log i (w.log i ++ [e]) }

/-- The first `n` bytes behind a pointer. -/
def bytesAt (w : World) : DataPtr → Nat → List UInt8
  | .snapshot t, n => (((w.state.prefixSnapshots t).map (·.data)).getD []).take n
  | .buffer b, n => (((w.buffers b).map (·.bytes)).getD []).take n

/-- Overwrite the start of a buffer. -/
def overwrite (w : World) (b : Nat) (bytes : List UInt8) : World :=
  let write (buf : Buffer) : Buffer := { buf with bytes := bytes ++ buf.bytes.drop bytes.length }
  { w with buffers := Function.update w.buffers b ((w.buffers b).map write) }

/-- Replace the KV cache of a context. -/
def setCells (w : World) (h : Nat) (cells : List KvCell) : World :=
  let replace (ctx : LlamaContext) : LlamaContext := { ctx with cells := cells }
  { w with contexts := Function.update w.contexts h ((w.contexts h).map replace) }

/-- Change the blackboard. -/
def update (w : World) (f : PipelineState → PipelineState) : World :=
  { w with state := f w.state }

end World

/-- What `llama_state_seq_get_data` writes into `cap` bytes: nothing if it does not fit. -/
def fitting (cap : Nat) (bytes : List UInt8) : List UInt8 :=
  if bytes.length ≤ cap then bytes else []

/-- One atomic action of thread `i`. Calls on a handle that is not live have no
    effect and fail. -/
def exec (E : Engine) (i : Thread) : (o : Op) → Choice → World → Option (o.Res × World)
  | .note e, _, w => some ((), w.record i e)
  | .noteFork len buf n, _, w =>
    some ((), w.record i (.forked len (buf.elim [] fun b => w.bytesAt (.buffer b) n)))
  | .load, _, w => some (w.state, w)
  | .setWatermark t, _, w => some ((), w.update fun s => { s with watermark := t })
  | .setPrefixSeqLen t, _, w => some ((), w.update fun s => { s with prefixSeqLen := t })
  | .setPrefixKvSerialBytes n, _, w =>
    some ((), w.update fun s => { s with prefixKvSerialBytes := n })
  | .putSnapshot t data, _, w =>
    some ((), w.update fun s => { s with
      prefixSnapshots := Function.update s.prefixSnapshots t (some ⟨data, t⟩) })
  | .setPrefillComplete, _, w => some ((), w.update fun s => { s with prefillComplete := true })
  | .consumeMilestone t, _, w =>
    match w.state.milestoneConsumersRemaining t with
    | none => some (none, w)
    | some n =>
      some (some (n - 1), (w.update fun s => { s with
        milestoneConsumersRemaining :=
          Function.update s.milestoneConsumersRemaining t (some (n - 1)) }).record i
        (.milestoneConsumed t))
  | .putOutput key value, _, w =>
    some ((), w.update fun s => { s with
      nodeOutputs := Function.update s.nodeOutputs key (some value) })
  | .putTiming key ms, _, w =>
    some ((), w.update fun s => { s with timingsMs := Function.update s.timingsMs key (some ms) })
  | .allocate, .fail, w => some (false, w.record i .badAlloc)
  | .allocate, _, w => some (true, w)
  | .steadyClock, .time ms, w => some (ms, w)
  | .steadyClock, _, w => some (0, w)
  | .llamaInitFromModel, .fail, w => some (none, w)
  | .llamaInitFromModel, _, w =>
    some (some w.nextContext, { w with
      contexts := Function.update w.contexts w.nextContext (some { owner := i })
      nextContext := w.nextContext + 1 })
  | .llamaFree h, _, w => some ((), { w with contexts := Function.update w.contexts h none })
  | .llamaBatchInit, _, w =>
    some (w.nextBatch, { w with
      batches := Function.update w.batches w.nextBatch true
      nextBatch := w.nextBatch + 1 })
  | .llamaBatchFree b, _, w => some ((), { w with batches := Function.update w.batches b false })
  | .llamaDecode _ _, .fail, w => some (false, w)
  | .llamaDecode h batch, _, w =>
    match w.contexts h with
    | some ctx =>
      -- a batch without tokens is invalid: `llama_decode` returns -1
      if 0 < batch.nTokens then some (true, w.setCells h (ctx.cells ++ batch.cells))
      else some (false, w)
    | none => some (false, w)
  | .llamaStateGetSize _ nCtx, _, w => some (E.llamaStateGetSize nCtx, w)
  | .llamaStateSeqGetSize h seq, _, w =>
    some (((w.contexts h).map fun ctx => E.llamaStateSeqGetSize (seqState seq ctx.cells)).getD 0, w)
  | .llamaStateSeqGetData h b cap seq, .data bytes, w =>
    match w.contexts h with
    | some ctx =>
      if E.exports (seqState seq ctx.cells) bytes then
        some ((fitting cap bytes).length, (w.overwrite b (fitting cap bytes)).record i
          (.exported (seqState seq ctx.cells) (fitting cap bytes)))
      else none
    | none => some (0, w)
  | .llamaStateSeqGetData h _ _ _, _, w =>
    match w.contexts h with
    | some _ => none
    | none => some (0, w)
  | .llamaStateSeqSetData _ _ _ _, .fail, w => some (0, w)
  | .llamaStateSeqSetData h p n seq, _, w =>
    match w.contexts h, E.restore (w.bytesAt p n) with
    | some ctx, some s =>
      some ((w.bytesAt p n).length,
        (w.setCells h (restoreSeq seq s ctx.cells)).record i (.restored (w.bytesAt p n)))
    | _, _ => some (0, w)
  | .allocBuffer _, .fail, w => some (none, w)
  | .allocBuffer size, _, w =>
    some (some w.nextBuffer, { w with
      buffers := Function.update w.buffers w.nextBuffer (some { size := size })
      nextBuffer := w.nextBuffer + 1 })
  | .freeBuffer b, _, w => some ((), { w with buffers := Function.update w.buffers b none })
  | .bufferSize b, _, w => some (((w.buffers b).map (·.size)).getD 0, w)
  | .readBytes p n, _, w => some (w.bytesAt p n, w)
  | .writeBytes b bytes, _, w => some ((), w.overwrite b bytes)
  | .pushActiveBuffer b, _, w => some ((), { w with activeBuffers := w.activeBuffers ++ [b] })
  | .getActiveBuffers, _, w => some (w.activeBuffers, w)
  | .clearActiveBuffers, _, w => some ((), { w with activeBuffers := [] })
  | .setPromise n r, _, w =>
    match w.promises n with
    | none => some (true, { w with promises := Function.update w.promises n (some r) })
    | some _ => some (false, w)
  | .awaitCompletion n, _, w => if (w.promises n).isSome then some ((), w) else none
  | .setTask n r, _, w => some ((), { w with tasks := Function.update w.tasks n (some r) })
  | .awaitTask n, _, w =>
    match w.tasks n with
    | some r => some (r, w)
    | none => none

/-- When a wait condition holds. -/
def Cond.holds : Cond → World → Bool
  | .watermark t, w => t ≤ w.state.watermark
  | .prefillComplete, w => w.state.prefillComplete
  | .milestoneConsumers t, w =>
    match w.state.milestoneConsumersRemaining t with
    | none => true
    | some n => n ≤ 0

/-- The condition variable of a wait. -/
def Cond.cv : Cond → Cv
  | .watermark _ => .watermarkCv
  | .prefillComplete => .watermarkCv
  | .milestoneConsumers _ => .prefillResumeCv

instance : Nonempty Choice := ⟨.ok⟩

/-- The machine that runs the pipeline's threads. -/
abbrev machine (E : Engine) : Monitor.Machine sig where
  Thread := Thread
  Data := World
  Choice := Choice
  exec := exec E
  mutex := fun _ => .watermarkMutex
  cv := Cond.cv
  holds := Cond.holds

/-- A state of a run. -/
abbrev Config (E : Engine) := Monitor.Config (machine E) Error

end SwarmKV

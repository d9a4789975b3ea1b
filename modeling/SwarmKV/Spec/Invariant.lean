import SwarmKV.Spec.Graph
import SwarmKV.Spec.Effects
import SwarmKV.Monitor.Logic
import Mathlib.Data.List.GetD

/-!
# The proof outline of `execute_pipeline`: its assertions

What holds of the shared world at every moment (`Inv`), while a mutex is free
(`LockInv`), what a thread may rely on while others move (`Rely`), and what it has
to know when it acts (`Pre`). That these assertions form an outline is the subject
of `SwarmKV.Spec.Outline`; that the programs meet it, of the modules after it.

Facts about the bytes of an export are stated under `Good`: the engine round-trips,
no export of the run so far was empty, and no prefill provider ran out of memory.
-/

namespace SwarmKV

/-- The value an event passes to `commit_watermark`. -/
def Event.committed : Event → Option Int
  | .commitWatermark _ t => some t
  | _ => none

/-- The event says that `execute()` has thrown. -/
def Event.failure : Event → Bool
  | .executeEnd (.error _) => true
  | _ => false

namespace World

variable (w : World)

/-- `execute()` of the node has started. -/
def Started (name : String) : Prop := .executeStart ∈ w.log (.worker name)

/-- `execute()` of the node has ended with `r`. -/
def Ended (name : String) (r : Outcome) : Prop := .executeEnd r ∈ w.log (.worker name)

/-- `execute()` of the node has thrown. -/
def Failed (name : String) : Prop := ∃ e, w.Ended name (.error e)

/-- A thread of the node ran out of memory. -/
def OutOfMemory (name : String) : Prop := .badAlloc ∈ w.log (.worker name)

instance (name : String) : Decidable (w.Started name) :=
  inferInstanceAs (Decidable (_ ∈ w.log _))

instance (name : String) (r : Outcome) : Decidable (w.Ended name r) :=
  inferInstanceAs (Decidable (_ ∈ w.log _))

instance (name : String) : Decidable (w.Failed name) :=
  decidable_of_iff ((w.log (.worker name)).any Event.failure) <| by
    rw [List.any_eq_true]
    constructor
    · intro h
      obtain ⟨ev, hev, hfail⟩ := h
      cases ev with
      | executeEnd r =>
        cases r with
        | error e => exact ⟨e, hev⟩
        | ok a => cases hfail
      | _ => cases hfail
    · intro h
      obtain ⟨e, he⟩ := h
      exact ⟨_, he, rfl⟩

instance (name : String) : Decidable (w.OutOfMemory name) :=
  inferInstanceAs (Decidable (_ ∈ w.log _))

/-- Some call has exported `s` as `bytes`. -/
def Exported (s : SeqState) (bytes : List UInt8) : Prop := ∃ i, .exported s bytes ∈ w.log i

/-- The values a thread has passed to `commit_watermark`, in order. -/
def commits (i : Thread) : List Int := (w.log i).filterMap Event.committed

/-- How often the node has lowered the consumer count of `t`. -/
def consumed (name : String) (t : Int) : Nat :=
  (w.log (.worker name)).count (.milestoneConsumed t)

/-- What a thread that owns its contexts may do to handle `h`. -/
def Owns (i : Thread) (h : Nat) : Prop := ∀ ctx, w.contexts h = some ctx → ctx.owner = i

end World

namespace Pipeline

variable (cfg : Pipeline)

/-! ## Exports -/

/-- So far, whatever was exported can be restored. -/
structure Good (w : World) : Prop where
  roundTrips : cfg.engine.RoundTrips
  inMemory : ∀ n, cfg.orchestrator.isPrefill n → ¬ w.OutOfMemory n
  nonempty : ∀ s bytes, w.Exported s bytes → bytes ≠ []

/-- `s` holds the first `n` tokens of a document, of the only document if there is
    one prefill provider. -/
def IsPrefix (n : Nat) (s : SeqState) : Prop :=
  Covers n s ∧ ∀ p, cfg.orchestrator.Sole p → s = docSeq (cfg.doc p) n

/-- A fork at `len` with `bytes`: nothing, or an export of the first `len` tokens. -/
def ForkOk (w : World) (len : Int) (bytes : List UInt8) : Prop :=
  len = 0 ∧ bytes = [] ∨
    ∃ (n : Nat) (s : SeqState), 0 < n ∧ len = n ∧ cfg.IsPrefix n s ∧ w.Exported s bytes

/-- The canonical buffer, `prefix_seq_len` and `prefix_kv_serial_bytes` belong
    together. -/
def TripleOk (w : World) : Prop :=
  cfg.ForkOk w w.state.prefixSeqLen
      (w.branchBytes cfg.stagingBuffer w.state.prefixKvSerialBytes) ∧
    (w.branchBytes cfg.stagingBuffer w.state.prefixKvSerialBytes).length =
      w.state.prefixKvSerialBytes

/-- A milestone snapshot is an export taken at its milestone. -/
structure SnapshotOk (w : World) (t : Int) (snap : PrefixKvSnapshot) : Prop where
  seqLen : snap.seqLen = t
  milestone : cfg.IsMilestone t
  exported : ∃ s, w.Exported s snap.data ∧ (cfg.Good w → cfg.IsPrefix t.toNat s)
  commitValue : ∀ p, cfg.orchestrator.Sole p → CommitValue (cfg.doc p).length t

/-! ## Threads -/

/-- Every worker has ended. -/
def AllDone (w : World) : Prop := ∀ n ∈ cfg.orchestrator.names, (w.tasks n).isSome

/-- The worker of the node has not ended. -/
def Live (n : String) (w : World) : Prop := n ∈ cfg.orchestrator.names ∧ w.tasks n = none

/-- The worker of the node has done nothing yet but wait. -/
structure Waiting (n : String) (w : World) : Prop where
  live : cfg.Live n w
  promise : w.promises n = none
  log : w.log (.worker n) = []

/-- The worker of the node is inside `execute()`. -/
structure Running (n : String) (w : World) : Prop where
  live : cfg.Live n w
  promise : w.promises n = none
  started : w.Started n
  notEnded : ∀ r, ¬ w.Ended n r

/-- The upstream nodes of a started node are where its gate wants them. -/
structure GatesPassed (n : String) (w : World) : Prop where
  registered : n ∈ cfg.orchestrator.names
  completion : ∀ d ∈ cfg.orchestrator.completionDeps n, (w.promises d).isSome
  watermark : ∀ p, cfg.orchestrator.Sole p → p ∈ cfg.orchestrator.getDependenciesForNode n →
    0 ≤ cfg.orchestrator.req n → cfg.orchestrator.req n ≤ w.state.watermark

/-- The prefill of the whole document is published. -/
structure PrefillDone (n : String) (w : World) : Prop where
  inMemory : ¬ w.OutOfMemory n
  commits : 0 < (cfg.doc n).length → (w.commits (.worker n)).getLast? = some (cfg.doc n).length
  nBatch : 0 < (cfg.doc n).length → cfg.engine.llamaNBatch < 2 ^ 31
  watermark : cfg.orchestrator.Sole n → w.state.watermark = (cfg.doc n).length
  prefixSeqLen : cfg.orchestrator.Sole n → 0 < (cfg.doc n).length →
    (w.state.prefixSeqLen = (cfg.doc n).length ↔
      cfg.IsMilestone (cfg.doc n).length)

/-- What the end of `execute()` says. -/
structure EndOk (n : String) (r : Outcome) (w : World) : Prop where
  prefill : cfg.orchestrator.isPrefill n → r = .ok () → cfg.PrefillDone n w
  missing : ∀ t, r = .error (.missingPrefixSnapshot t) → ∀ p, cfg.orchestrator.Sole p →
    p ∈ cfg.orchestrator.getDependenciesForNode n → ¬ w.OutOfMemory p →
    ¬ CommitValue (cfg.doc p).length t

/-- How many branches have still to fork at `t`, as the blackboard counts them. -/
def consumersLeft (w : World) (t : Int) : Option Int :=
  if cfg.orchestrator.HasConsumers t then
    some ((cfg.orchestrator.branchesAt t).map fun n => (1 : Int) - w.consumed n t).sum
  else none

/-! ## Invariants -/

/-- Each milestone up to `c` at which the prefiller stops has its snapshot. -/
def FiledUpTo (c : Int) (w : World) : Prop :=
  ∀ p, cfg.orchestrator.Sole p → ¬ w.OutOfMemory p → ∀ t, CommitValue (cfg.doc p).length t →
    t ≤ c → cfg.IsMilestone t → (w.state.prefixSnapshots t).isSome

/-- What holds of the world at every moment. -/
structure Inv (w : World) : Prop where
  staging : w.state.materializedBranchBuffer = cfg.stagingBuffer
  milestones : ∀ t, t ∈ w.state.snapshotMilestones ↔ cfg.IsMilestone t
  consumers : ∀ t, w.state.milestoneConsumersRemaining t = cfg.consumersLeft w t
  freshContext : ∀ h, w.nextContext ≤ h → w.contexts h = none
  freshBuffer : ∀ b, w.nextBuffer ≤ b → w.buffers b = none
  stagingOld : ∀ b, cfg.stagingBuffer = some b → b < w.nextBuffer
  stagingLive : cfg.AllDone w ∨ ∀ b, cfg.stagingBuffer = some b → (w.buffers b).isSome
  promise : ∀ n r, w.promises n = some r → w.Ended n r
  started : ∀ n, w.Started n → cfg.GatesPassed n w
  ended : ∀ n r, w.Ended n r → w.Started n ∧ cfg.EndOk n r w
  endedOnce : ∀ n r r', w.Ended n r → w.Ended n r' → r = r'
  exported : ∀ s bytes, w.Exported s bytes → s ≠ [] ∧ cfg.engine.exports s bytes
  forked : ∀ i len bytes, .forked len bytes ∈ w.log i → cfg.Good w → cfg.ForkOk w len bytes
  commits : ∀ i, (w.commits i).Pairwise (· < ·)
  snapshots : ∀ t snap, w.state.prefixSnapshots t = some snap → cfg.SnapshotOk w t snap
  watermark : ∀ p, cfg.orchestrator.Sole p →
    w.state.watermark = 0 ∨ CommitValue (cfg.doc p).length w.state.watermark
  filed : cfg.FiledUpTo (w.state.watermark - 1) w

/-- What the guard protects: the canonical triple. -/
def GuardInv (w : World) : Prop := cfg.Good w → cfg.AllDone w ∨ cfg.TripleOk w

/-- What `watermark_mutex` protects: each committed milestone has its snapshot. -/
def MutexInv (w : World) : Prop := cfg.FiledUpTo w.state.watermark w

/-- What holds while a mutex is free. -/
def LockInv : Lock → World → Prop
  | .llamaApiMutex => cfg.GuardInv
  | .watermarkMutex => cfg.MutexInv
  | _ => fun _ => True

/-- What a worker under the guard relies on. -/
structure Guarded (w w' : World) : Prop where
  prefixSeqLen : w'.state.prefixSeqLen = w.state.prefixSeqLen
  prefixKvSerialBytes : w'.state.prefixKvSerialBytes = w.state.prefixKvSerialBytes
  prefixSnapshots : w'.state.prefixSnapshots = w.state.prefixSnapshots
  buffers : w'.buffers = w.buffers

/-- What the steps of others leave of the world, for thread `i` with the mutexes `H`. -/
structure Rely (i : Thread) (H : Finset Lock) (w w' : World) : Prop where
  log : w'.log i = w.log i
  grows : ∀ j, w.log j <+: w'.log j
  contexts : ∀ h ctx, w.contexts h = some ctx → ctx.owner = i → w'.contexts h = some ctx
  promises : ∀ n r, w.promises n = some r → w'.promises n = some r
  tasks : ∀ n r, w.tasks n = some r → w'.tasks n = some r
  ownPromise : ∀ n, i = .worker n → w'.promises n = w.promises n
  ownTask : ∀ n, i = .worker n → w'.tasks n = w.tasks n
  activeBuffers : i = .main → cfg.AllDone w → w'.activeBuffers = w.activeBuffers
  guarded : .llamaApiMutex ∈ H → ∀ n, i = .worker n → cfg.Live n w → Guarded w w'
  mutex : .watermarkMutex ∈ H → w'.state.watermark = w.state.watermark ∧
    w'.state.prefixSnapshots = w.state.prefixSnapshots
  watermark : ∀ p, cfg.orchestrator.Sole p → w.state.watermark ≤ w'.state.watermark
  sole : ∀ p, cfg.orchestrator.Sole p → i = .worker p →
    w'.state.watermark = w.state.watermark ∧ w'.state.prefixSeqLen = w.state.prefixSeqLen

/-! ## Actions -/

/-- What holds of a thread that has not ended: a worker's task is open, and the
    caller takes mutexes only after the last worker. -/
def Active : Thread → Finset Lock → World → Prop
  | .main, H, w => H = ∅ ∨ cfg.AllDone w
  | .worker n, _, w => cfg.Live n w

/-- Thread `i` is a prefill provider that commits under both mutexes. -/
structure Committing (i : Thread) (H : Finset Lock) (n : String) (w : World) : Prop where
  thread : i = .worker n
  prefill : cfg.orchestrator.isPrefill n
  running : cfg.Running n w
  guard : .llamaApiMutex ∈ H
  mutex : .watermarkMutex ∈ H

/-- What a prefill provider knows when it calls `commit_watermark`. -/
structure CommitPre (n : String) (ctx : Option Nat) (t : Int) (w : World) : Prop where
  prefill : cfg.orchestrator.isPrefill n
  inMemory : ¬ w.OutOfMemory n
  value : CommitValue (cfg.doc n).length t
  increasing : ∀ t' ∈ w.commits (.worker n), t' < t
  nBatch : cfg.engine.llamaNBatch < 2 ^ 31
  ctx : ∃ h c, ctx = some h ∧ w.contexts h = some c ∧ (cfg.Good w →
    ∃ s, cfg.IsPrefix t.toNat s ∧ c.cells = toCells s)

/-- What a prefill provider knows when it calls `mark_prefill_complete`. -/
structure CompletePre (n : String) (h : Nat) (w : World) : Prop where
  prefill : cfg.orchestrator.isPrefill n
  done : cfg.PrefillDone n w
  ctx : ∃ c, w.contexts h = some c ∧ (cfg.Good w →
    ∃ s, cfg.IsPrefix (cfg.doc n).length s ∧ c.cells = toCells s)

/-- What a branch knows about the position its prompt starts at. -/
structure BranchPre (n : String) (start : Int) (tokens : List LlamaToken) (w : World) : Prop where
  tokens : tokens = cfg.prompt n
  milestone : 0 ≤ cfg.orchestrator.req n → start = cfg.orchestrator.req n
  canonical : cfg.orchestrator.req n < 0 → start = w.state.prefixSeqLen
  restored : cfg.Good w → 0 < start → ∃ s bytes, .forked start bytes ∈ w.log (.worker n) ∧
    .restored bytes ∈ w.log (.worker n) ∧ w.Exported s bytes ∧ cfg.IsPrefix start.toNat s

/-- What a node knows when it calls `llama_decode`: the context holds the positions
    before the batch, and nothing else. Only the batch of a prefiller can be invalid. -/
structure DecodePre (n : String) (h : Nat) (batch : LlamaBatch) (w : World) : Prop where
  running : cfg.Running n w
  batch : ∃ (id start : Nat) (tokens : List LlamaToken) (lastLogits : Bool) (c : LlamaContext),
    batch.slots = (fillBatch id tokens start lastLogits).slots ∧
    w.contexts h = some c ∧ c.owner = .worker n ∧
    (cfg.Good w → ∃ s, cfg.IsPrefix start s ∧ c.cells = toCells s) ∧
    (cfg.orchestrator.isPrefill n = false → batch = fillBatch id tokens start lastLogits ∧
      tokens ≠ [] ∧ cfg.BranchPre n start tokens w)

/-- What a thread has to know when it performs an action. -/
def ActionPre (i : Thread) (H : Finset Lock) : Op → World → Prop
  | .note .executeStart, w => ∃ n, i = .worker n ∧ cfg.Waiting n w ∧ cfg.GatesPassed n w
  | .note (.executeEnd r), w => ∃ n, i = .worker n ∧ cfg.Running n w ∧ cfg.EndOk n r w
  | .note (.commitWatermark ctx t), w =>
    ∃ n, i = .worker n ∧ cfg.Running n w ∧ cfg.CommitPre n ctx t w
  | .note (.markPrefillComplete h), w =>
    ∃ n, i = .worker n ∧ cfg.Running n w ∧ cfg.CompletePre n h w
  | .note _, _ => False
  | .noteFork len buffer n, w => cfg.Good w → cfg.ForkOk w len (w.branchBytes buffer n)
  | .setWatermark t, w => (∃ n, cfg.Committing i H n w) ∧ cfg.FiledUpTo (t - 1) w ∧
    ∀ p, cfg.orchestrator.Sole p → CommitValue (cfg.doc p).length t ∧ w.state.watermark ≤ t
  | .setPrefixSeqLen _, w => ∃ n, cfg.Committing i H n w
  | .setPrefixKvSerialBytes _, w => ∃ n, cfg.Committing i H n w
  | .putSnapshot t data, w => (∃ n, cfg.Committing i H n w) ∧ cfg.SnapshotOk w t ⟨data, t⟩ ∧
    w.state.watermark = t
  | .setPrefillComplete, _ => .watermarkMutex ∈ H
  | .consumeMilestone t, _ => .watermarkMutex ∈ H ∧
    ∃ n, i = .worker n ∧ n ∈ cfg.orchestrator.branchesAt t
  | .allocate, w => ∃ n, i = .worker n ∧ cfg.Running n w
  | .llamaFree h, w => w.Owns i h
  | .llamaDecode h batch, w => ∃ n, i = .worker n ∧ cfg.DecodePre n h batch w
  | .llamaStateSeqGetData h b cap seq, w => .llamaApiMutex ∈ H ∧ (∃ n, i = .worker n) ∧
    cfg.stagingBuffer = some b ∧ ∃ ctx, w.contexts h = some ctx ∧ seqState seq ctx.cells ≠ [] ∧
      cfg.engine.llamaStateSeqGetSize (seqState seq ctx.cells) ≤ cap
  | .llamaStateSeqSetData h _ _ _, w => w.Owns i h
  | .allocBuffer _, _ => .llamaApiMutex ∈ H ∧ ∃ n, i = .worker n
  | .freeBuffer _, w => i = .main ∧ cfg.AllDone w
  | .writeBytes b _, _ => .llamaApiMutex ∈ H ∧ (∃ n, i = .worker n) ∧ cfg.stagingBuffer ≠ some b
  | .pushActiveBuffer _, _ => ∃ n, i = .worker n
  | .clearActiveBuffers, _ => i = .main
  | .setPromise n r, w => i = .worker n ∧ w.Ended n r
  | .awaitCompletion d, w => H = ∅ ∧ ∃ n, i = .worker n ∧ cfg.Waiting n w ∧
    d ∈ cfg.orchestrator.completionDeps n ∧ d ∈ cfg.orchestrator.names
  | .setTask n _, _ => i = .worker n
  | .awaitTask n, _ => H = ∅ ∧ i = .main ∧ n ∈ cfg.orchestrator.names
  | _, _ => True

/-- What a thread has to know when it performs an action. -/
def Pre (i : Thread) (H : Finset Lock) (o : Op) (w : World) : Prop :=
  cfg.Active i H w ∧ cfg.ActionPre i H o w

/-- The condition variables whose conditions an action can make true. -/
def touches : (o : Op) → o.Res → Finset Cv
  | .setWatermark _, _ => {.watermarkCv}
  | .setPrefillComplete, _ => {.watermarkCv}
  | .consumeMilestone _, some left => if left ≤ 0 then {.prefillResumeCv} else ∅
  | _, _ => ∅

/-- The actions that can make a condition true. -/
def Publishes : Op → Prop
  | .setWatermark _ | .setPrefillComplete | .consumeMilestone _ => True
  | _ => False

/-- What holds as long as a thread waits for a condition. -/
def Waits : Thread → Cond → World → Prop
  | .worker n, .watermark t, w => cfg.Waiting n w ∧ t = cfg.orchestrator.req n ∧ 0 ≤ t ∧
    ∃ p ∈ cfg.orchestrator.getDependenciesForNode n, cfg.orchestrator.isPrefill p
  | .worker n, .milestoneConsumers t, w => cfg.Running n w ∧ cfg.orchestrator.isPrefill n ∧
    cfg.IsMilestone t ∧ ¬ w.OutOfMemory n ∧
    (cfg.orchestrator.Sole n → w.state.watermark = t)
  | _, _, _ => False

/-- What holds after a thread has ended. -/
def Done : Thread → Outcome → World → Prop
  | .main, r, w => r = .ok () ∧ cfg.AllDone w ∧ w.activeBuffers = []
  | .worker n, _, w => n ∈ cfg.orchestrator.names → (w.tasks n).isSome ∧
    (cfg.orchestrator.DepsRegistered n → (w.promises n).isSome ∧
      (0 < cfg.orchestrator.req n → 0 < w.consumed n (cfg.orchestrator.req n)))

/-- A notification is dropped when a prefill provider runs out of memory between
    publishing the watermark and `notify_all`. -/
def Lossy (w : World) : Prop := ∃ n, cfg.orchestrator.isPrefill n ∧ w.OutOfMemory n

/-- The guard is taken before the other mutexes. -/
def rank : Lock → Nat
  | .llamaApiMutex => 0
  | _ => 1

end Pipeline

end SwarmKV

import SwarmKV.Monitor.Observer
import SwarmKV.Native.Orchestrator
import SwarmKV.Spec.Effects
import SwarmKV.Spec.Prefix

/-!
# Footprints

Which actions the parts of a pipeline's code can take at all. An observer that does not mind
the actions of a part need not look into it.
-/

namespace SwarmKV

open Monitor

/-- Memory, the clock, and what a finished node leaves in the blackboard. -/
inductive HostAction : Action sig → Prop
  | allocate : HostAction (.op .allocate)
  | steadyClock : HostAction (.op .steadyClock)
  | putOutput (key value : String) : HostAction (.op (.putOutput key value))
  | putTiming (key : String) (ms : Int) : HostAction (.op (.putTiming key ms))
  | lockOutput : HostAction (.lock .outputLock)
  | unlockOutput : HostAction (.unlock .outputLock)
  | lockTiming : HostAction (.lock .timingLock)
  | unlockTiming : HostAction (.unlock .timingLock)

/-- Reads of the blackboard, under its mutex or not. -/
inductive LookupAction : Action sig → Prop
  | load : LookupAction (.op .load)
  | lock : LookupAction (.lock .watermarkMutex)
  | unlock : LookupAction (.unlock .watermarkMutex)

/-- Copies between buffers. -/
inductive CopyAction : Action sig → Prop
  | load : CopyAction (.op .load)
  | bufferSize (b : Nat) : CopyAction (.op (.bufferSize b))
  | readBytes (p : DataPtr) (n : Nat) : CopyAction (.op (.readBytes p n))
  | writeBytes (b : Nat) (bytes : List UInt8) : CopyAction (.op (.writeBytes b bytes))

/-- A new buffer of the pool. -/
inductive PoolAction : Action sig → Prop
  | lock : PoolAction (.lock .poolMutex)
  | unlock : PoolAction (.unlock .poolMutex)
  | llamaInitFromModel : PoolAction (.op .llamaInitFromModel)
  | llamaStateGetSize (h nCtx : Nat) : PoolAction (.op (.llamaStateGetSize h nCtx))
  | llamaFree (h : Nat) : PoolAction (.op (.llamaFree h))
  | allocBuffer (size : Nat) : PoolAction (.op (.allocBuffer size))
  | allocate : PoolAction (.op .allocate)
  | pushActiveBuffer (b : Nat) : PoolAction (.op (.pushActiveBuffer b))

/-- The commit of a watermark. -/
inductive CommitAction : Action sig → Prop
  | note (ctx : Option Nat) (t : Int) : CommitAction (.op (.note (.commitWatermark ctx t)))
  | lock : CommitAction (.lock .watermarkMutex)
  | unlock : CommitAction (.unlock .watermarkMutex)
  | notify : CommitAction (.notify .watermarkCv)
  | load : CommitAction (.op .load)
  | setWatermark (t : Int) : CommitAction (.op (.setWatermark t))
  | setPrefixSeqLen (t : Int) : CommitAction (.op (.setPrefixSeqLen t))
  | setPrefixKvSerialBytes (n : Nat) : CommitAction (.op (.setPrefixKvSerialBytes n))
  | putSnapshot (t : Int) (data : List UInt8) : CommitAction (.op (.putSnapshot t data))
  | allocate : CommitAction (.op .allocate)
  | llamaStateSeqGetSize (h : Nat) (seq : Int) : CommitAction (.op (.llamaStateSeqGetSize h seq))
  | llamaStateSeqGetData (h b cap : Nat) (seq : Int) :
    CommitAction (.op (.llamaStateSeqGetData h b cap seq))
  | bufferSize (b : Nat) : CommitAction (.op (.bufferSize b))
  | readBytes (p : DataPtr) (n : Nat) : CommitAction (.op (.readBytes p n))

/-- The commit of the watermark `t`. -/
inductive CommitsTo (t : Int) : Action sig → Prop
  | note (ctx : Option Nat) : CommitsTo t (.op (.note (.commitWatermark ctx t)))
  | lock : CommitsTo t (.lock .watermarkMutex)
  | unlock : CommitsTo t (.unlock .watermarkMutex)
  | notify : CommitsTo t (.notify .watermarkCv)
  | load : CommitsTo t (.op .load)
  | setWatermark : CommitsTo t (.op (.setWatermark t))
  | setPrefixSeqLen : CommitsTo t (.op (.setPrefixSeqLen t))
  | setPrefixKvSerialBytes (n : Nat) : CommitsTo t (.op (.setPrefixKvSerialBytes n))
  | putSnapshot (data : List UInt8) : CommitsTo t (.op (.putSnapshot t data))
  | allocate : CommitsTo t (.op .allocate)
  | llamaStateSeqGetSize (h : Nat) (seq : Int) : CommitsTo t (.op (.llamaStateSeqGetSize h seq))
  | llamaStateSeqGetData (h b cap : Nat) (seq : Int) :
    CommitsTo t (.op (.llamaStateSeqGetData h b cap seq))
  | bufferSize (b : Nat) : CommitsTo t (.op (.bufferSize b))
  | readBytes (p : DataPtr) (n : Nat) : CommitsTo t (.op (.readBytes p n))

/-- A signal that milestone `t` has been consumed. -/
inductive SignalAction (t : Int) : Action sig → Prop
  | lock : SignalAction t (.lock .watermarkMutex)
  | unlock : SignalAction t (.unlock .watermarkMutex)
  | notify : SignalAction t (.notify .prefillResumeCv)
  | consumeMilestone : SignalAction t (.op (.consumeMilestone t))

/-- A batch has between one and `llama_n_batch` tokens exactly if `within`. -/
def RespectsBatch (E : Engine) (within : Prop) (batch : LlamaBatch) : Prop :=
  1 ≤ batch.nTokens ∧ batch.nTokens ≤ E.llamaNBatch ↔ within

/-- A batch of all tokens of a prompt. -/
theorem fillBatch_respectsBatch {E : Engine} {tokens : List LlamaToken} (h : tokens ≠ [])
    (id : Nat) (start : Int) (lastLogits : Bool) :
    RespectsBatch E (tokens.length ≤ E.llamaNBatch) (fillBatch id tokens start lastLogits) := by
  have hpos := List.length_pos_iff.mpr h
  show 1 ≤ (tokens.length : Int) ∧ (tokens.length : Int) ≤ E.llamaNBatch ↔ _
  omega

/-- The decoding of tokens. -/
inductive DecodeAction (E : Engine) (within : Prop) : Action sig → Prop
  | llamaBatchInit : DecodeAction E within (.op .llamaBatchInit)
  | llamaBatchFree (b : Nat) : DecodeAction E within (.op (.llamaBatchFree b))
  | llamaDecode (h : Nat) (batch : LlamaBatch) (hb : RespectsBatch E within batch) :
    DecodeAction E within (.op (.llamaDecode h batch))

/-- The restoring of a snapshot. -/
inductive RestoreAction : Action sig → Prop
  | lookup {a : Action sig} (h : LookupAction a) : RestoreAction a
  | llamaStateSeqSetData (h : Nat) (p : DataPtr) (n : Nat) (seq : Int) :
    RestoreAction (.op (.llamaStateSeqSetData h p n seq))

/-- The pause of a prefiller at a milestone. -/
inductive PauseAction : Action sig → Prop
  | restore {a : Action sig} (h : RestoreAction a) : PauseAction a
  | llamaInitFromModel : PauseAction (.op .llamaInitFromModel)
  | llamaFree (h : Nat) : PauseAction (.op (.llamaFree h))
  | wait (t : Int) : PauseAction (.wait (.milestoneConsumers t))
  | lock : PauseAction (.lock .llamaApiMutex)
  | unlock : PauseAction (.unlock .llamaApiMutex)

/-- `execute()` of a prefiller. -/
inductive PrefillAction (E : Engine) : Action sig → Prop
  | host {a : Action sig} (h : HostAction a) : PrefillAction E a
  | decode {a : Action sig} (h : DecodeAction E (E.llamaNBatch < 2 ^ 31) a) : PrefillAction E a
  | commit {a : Action sig} (h : CommitAction a) : PrefillAction E a
  | restore {a : Action sig} (h : RestoreAction a) : PrefillAction E a
  | llamaInitFromModel : PrefillAction E (.op .llamaInitFromModel)
  | llamaFree (h : Nat) : PrefillAction E (.op (.llamaFree h))
  | wait (t : Int) : PrefillAction E (.wait (.milestoneConsumers t))
  | note (h : Nat) : PrefillAction E (.op (.note (.markPrefillComplete h)))
  | setPrefillComplete : PrefillAction E (.op .setPrefillComplete)
  | lock : PrefillAction E (.lock .llamaApiMutex)
  | unlock : PrefillAction E (.unlock .llamaApiMutex)

/-- `execute()` of a prefiller, outside its loop. -/
inductive OuterAction : Action sig → Prop
  | host {a : Action sig} (h : HostAction a) : OuterAction a
  | lookup {a : Action sig} (h : LookupAction a) : OuterAction a
  | llamaInitFromModel : OuterAction (.op .llamaInitFromModel)
  | llamaFree (h : Nat) : OuterAction (.op (.llamaFree h))
  | note (h : Nat) : OuterAction (.op (.note (.markPrefillComplete h)))
  | setPrefillComplete : OuterAction (.op .setPrefillComplete)
  | notify : OuterAction (.notify .watermarkCv)

/-- The fork of a branch. -/
inductive ForkAction : Action sig → Prop
  | copy {a : Action sig} (h : CopyAction a) : ForkAction a
  | pool {a : Action sig} (h : PoolAction a) : ForkAction a

/-- A branch that prepares its context and its prompt. -/
inductive PromptAction : Action sig → Prop
  | lookup {a : Action sig} (h : LookupAction a) : PromptAction a
  | allocate : PromptAction (.op .allocate)
  | llamaFree (h : Nat) : PromptAction (.op (.llamaFree h))
  | llamaStateSeqSetData (h : Nat) (p : DataPtr) (n : Nat) (seq : Int) :
    PromptAction (.op (.llamaStateSeqSetData h p n seq))

/-- A branch, before it decodes its prompt. -/
inductive OpeningAction : Action sig → Prop
  | steadyClock : OpeningAction (.op .steadyClock)
  | fork {a : Action sig} (h : ForkAction a) : OpeningAction a
  | prompt {a : Action sig} (h : PromptAction a) : OpeningAction a
  | noteFork (len : Int) (b : Option Nat) (n : Nat) : OpeningAction (.op (.noteFork len b n))
  | llamaInitFromModel : OpeningAction (.op .llamaInitFromModel)

/-- A branch, once it has a context. -/
inductive ContextAction (E : Engine) (within : Prop) : Action sig → Prop
  | host {a : Action sig} (h : HostAction a) : ContextAction E within a
  | lookup {a : Action sig} (h : LookupAction a) : ContextAction E within a
  | decode {a : Action sig} (h : DecodeAction E within a) : ContextAction E within a
  | llamaFree (h : Nat) : ContextAction E within (.op (.llamaFree h))
  | llamaStateSeqSetData (h : Nat) (p : DataPtr) (n : Nat) (seq : Int) :
    ContextAction E within (.op (.llamaStateSeqSetData h p n seq))

/-- A branch, from its fork to its decoded prompt. -/
inductive BranchAction (E : Engine) (within : Prop) : Action sig → Prop
  | host {a : Action sig} (h : HostAction a) : BranchAction E within a
  | lookup {a : Action sig} (h : LookupAction a) : BranchAction E within a
  | copy {a : Action sig} (h : CopyAction a) : BranchAction E within a
  | pool {a : Action sig} (h : PoolAction a) : BranchAction E within a
  | decode {a : Action sig} (h : DecodeAction E within a) : BranchAction E within a
  | noteFork (len : Int) (b : Option Nat) (n : Nat) : BranchAction E within (.op (.noteFork len b n))
  | llamaInitFromModel : BranchAction E within (.op .llamaInitFromModel)
  | llamaFree (h : Nat) : BranchAction E within (.op (.llamaFree h))
  | llamaStateSeqSetData (h : Nat) (p : DataPtr) (n : Nat) (seq : Int) :
    BranchAction E within (.op (.llamaStateSeqSetData h p n seq))

/-- `execute()` of a branch, under the guard. -/
inductive BodyAction (E : Engine) (within : Prop) (t : Int) : Action sig → Prop
  | branch {a : Action sig} (h : BranchAction E within a) : BodyAction E within t a
  | signal {a : Action sig} (h : SignalAction t a) : BodyAction E within t a

/-- `execute()` of a node that forks at `t`. -/
inductive NodeAction (E : Engine) (within : Prop) (t : Int) : Action sig → Prop
  | prefill {a : Action sig} (h : PrefillAction E a) (hw : E.llamaNBatch < 2 ^ 31 ↔ within) :
    NodeAction E within t a
  | body {a : Action sig} (h : BodyAction E within t a) : NodeAction E within t a
  | lock : NodeAction E within t (.lock .llamaApiMutex)
  | unlock : NodeAction E within t (.unlock .llamaApiMutex)

theorem CommitsTo.commit {t : Int} {a : Action sig} (h : CommitsTo t a) : CommitAction a := by
  cases h <;> constructor

theorem PauseAction.prefill {E : Engine} {a : Action sig} (h : PauseAction a) :
    PrefillAction E a := by
  cases h with
  | restore h => exact .restore h
  | llamaInitFromModel => exact .llamaInitFromModel
  | llamaFree h => exact .llamaFree h
  | wait t => exact .wait t
  | lock => exact .lock
  | unlock => exact .unlock

theorem ForkAction.branch {E : Engine} {within : Prop} {a : Action sig} (h : ForkAction a) :
    BranchAction E within a := by
  cases h with
  | copy h => exact .copy h
  | pool h => exact .pool h

theorem PromptAction.context {E : Engine} {within : Prop} {a : Action sig} (h : PromptAction a) :
    ContextAction E within a := by
  cases h with
  | lookup h => exact .lookup h
  | allocate => exact .host .allocate
  | llamaFree h => exact .llamaFree h
  | llamaStateSeqSetData h p n seq => exact .llamaStateSeqSetData h p n seq

theorem ContextAction.branch {E : Engine} {within : Prop} {a : Action sig}
    (h : ContextAction E within a) : BranchAction E within a := by
  cases h with
  | host h => exact .host h
  | lookup h => exact .lookup h
  | decode h => exact .decode h
  | llamaFree h => exact .llamaFree h
  | llamaStateSeqSetData h p n seq => exact .llamaStateSeqSetData h p n seq

theorem RestoreAction.not_note {e : Event} : ¬ RestoreAction (.op (.note e)) := by
  intro h
  cases h with
  | lookup h => cases h

theorem PrefillAction.note_cases {E : Engine} {e : Event} (h : PrefillAction E (.op (.note e))) :
    (∃ ctx t, e = .commitWatermark ctx t) ∨ ∃ h, e = .markPrefillComplete h := by
  cases h with
  | host h => cases h
  | decode h => cases h
  | commit h =>
    cases h with
    | note ctx t => exact .inl ⟨ctx, t, rfl⟩
  | restore h => exact absurd h RestoreAction.not_note
  | note h => exact .inr ⟨h, rfl⟩

theorem BranchAction.not_note {E : Engine} {within : Prop} {e : Event} :
    ¬ BranchAction E within (.op (.note e)) := by
  intro h
  cases h with
  | host h => cases h
  | lookup h => cases h
  | copy h => cases h
  | pool h => cases h
  | decode h => cases h

/-- What a node puts on record during `execute()`. -/
theorem NodeAction.note_cases {E : Engine} {within : Prop} {t : Int} {e : Event}
    (h : NodeAction E within t (.op (.note e))) :
    (∃ ctx t, e = .commitWatermark ctx t) ∨ ∃ h, e = .markPrefillComplete h := by
  cases h with
  | prefill h hw => exact h.note_cases
  | body h =>
    cases h with
    | branch h => exact absurd h BranchAction.not_note
    | signal h => cases h

/-- The batches of the node fit: those of a prefiller do if `llama_n_batch` is positive as an
    `int32_t`, and that of a branch if it takes the whole prompt. -/
def Node.BatchesFit (E : Engine) : Node → Prop
  | .prefill _ => E.llamaNBatch < 2 ^ 31
  | .analytical node =>
    ∀ tokens, tokensOf E node.branchPrompt = some tokens → tokens.length ≤ E.llamaNBatch

/-- The gate of a worker. -/
inductive GateAction : Action sig → Prop
  | lock : GateAction (.lock .watermarkMutex)
  | unlock : GateAction (.unlock .watermarkMutex)
  | wait (t : Int) : GateAction (.wait (.watermark t))
  | awaitCompletion (d : String) : GateAction (.op (.awaitCompletion d))

/-- What a worker does around `execute()`: records, its promise, and its task. -/
inductive WorkerAction (n : String) : Action sig → Prop
  | start : WorkerAction n (.op (.note .executeStart))
  | finish (r : Outcome) : WorkerAction n (.op (.note (.executeEnd r)))
  | setPromise (r : Outcome) : WorkerAction n (.op (.setPromise n r))
  | setTask (r : Outcome) : WorkerAction n (.op (.setTask n r))

/-- What the caller of `execute_pipeline` does. -/
inductive CallerAction : Action sig → Prop
  | awaitTask (n : String) : CallerAction (.op (.awaitTask n))
  | lock : CallerAction (.lock .poolMutex)
  | unlock : CallerAction (.unlock .poolMutex)
  | getActiveBuffers : CallerAction (.op .getActiveBuffers)
  | freeBuffer (b : Nat) : CallerAction (.op (.freeBuffer b))
  | clearActiveBuffers : CallerAction (.op .clearActiveBuffers)

/-- What is true of an answer in any state: a batch that is decoded has tokens. -/
def Answered : (a : Action sig) → a.Res → Prop
  | .op (.llamaDecode _ batch), r => r = true → 0 < batch.nTokens
  | _, _ => True

theorem exec_answered {E : Engine} {i : Thread} {o : Op} {x : Choice} {w w' : World} {r : o.Res}
    (h : exec E i o x w = some (r, w')) : Answered (.op o) r := by
  cases o with
  | llamaDecode hd batch =>
    intro hr
    obtain hfail | ⟨ctx, -, htokens, -⟩ := exec_llamaDecode h
    · exact absurd (hfail.1.symm.trans hr) Bool.false_ne_true
    · exact htokens
  | _ => trivial

theorem acts_answered {E : Engine} {c c' : Config E} {e : Entry (machine E)} (h : c.Acts e c') :
    Answered e.action e.answer := by
  cases h with
  | op ht hx => exact exec_answered hx
  | _ => trivial

variable {E : Engine}

theorem alloc_uses {U : Action sig → Prop} (h : U (.op .allocate)) : alloc.Uses U :=
  .bind (.perform h) fun _ => .ite (.ret ()) (.throw _)

theorem tokenizeWith_uses (failure : Error) (text : String) :
    (tokenizeWith failure E text).Uses HostAction := by
  unfold tokenizeWith
  refine .bind (alloc_uses .allocate) fun _ => .ite ?_ (.ret _)
  exact .bind (alloc_uses .allocate) fun _ => .ite (.throw _) (.ret _)

theorem maxBranchTokens_uses (prompts : List String) (most : Int) :
    (maxBranchTokens E prompts most).Uses HostAction := by
  induction prompts generalizing most with
  | nil => exact .ret _
  | cons prompt rest ih => exact .bind (tokenizeWith_uses _ prompt) fun _ => ih _

theorem swarmkvValidateContextBudget_uses (prefixTokens : Int) (prompts : List String)
    (nCtx : Nat) (headroom : Int) :
    (swarmkvValidateContextBudget E prefixTokens prompts nCtx headroom).Uses HostAction := by
  unfold swarmkvValidateContextBudget
  refine .ite (.throw _) (.bind (maxBranchTokens_uses prompts 0) fun _ => ?_)
  exact .ite (.throw _) (.ret _)

namespace PipelineState

theorem recordTiming_uses (key : String) (t0 : Int) : (recordTiming key t0).Uses HostAction := by
  unfold recordTiming
  refine .bind (.perform .steadyClock) fun _ => .withLock .lockTiming .unlockTiming ?_
  exact .bind (alloc_uses .allocate) fun _ => .perform (.putTiming key _)

theorem isSnapshotMilestone_uses (t : Int) : (isSnapshotMilestone t).Uses LookupAction :=
  .withLock .lock .unlock (.bind (.perform .load) fun _ => .ret _)

theorem tryGetPrefixSnapshot_uses (t : Int) : (tryGetPrefixSnapshot t).Uses LookupAction := by
  unfold tryGetPrefixSnapshot
  refine .withLock .lock .unlock (.bind (.perform .load) fun s => ?_)
  split <;> exact .ret _

theorem signalMilestoneConsumed_uses (t : Int) :
    (signalMilestoneConsumed t).Uses (SignalAction t) := by
  unfold signalMilestoneConsumed
  refine .ite (.ret _) (.withLock .lock .unlock (.bind (.perform .consumeMilestone) fun left => ?_))
  cases left with
  | none => exact .ret _
  | some left => exact .ite (.notifyAll .notify) (.ret _)

theorem publishUnexported_uses (t : Int) : (publishUnexported t).Uses (CommitsTo t) := by
  unfold publishUnexported
  refine .bind (.perform .load) fun s => .ite (.ret _) ?_
  exact .bind (.perform .setWatermark) fun _ => .bind (.notifyAll .notify) fun _ => .ret _

theorem exportPrefix_uses (ctx : Nat) (t : Int) : (exportPrefix ctx).Uses (CommitsTo t) := by
  unfold exportPrefix
  refine .bind (.perform .load) fun s => ?_
  split
  · exact .ret _
  · refine .bind (.perform (.llamaStateSeqGetSize _ _)) fun need => ?_
    refine .bind (.perform (.bufferSize _)) fun cap => .ite (.throw _) ?_
    refine .bind (.perform (.llamaStateSeqGetData _ _ _ _)) fun nw => .ite ?_ (.ret _)
    exact .bind (alloc_uses CommitsTo.allocate) fun _ =>
      .bind (.perform (.readBytes _ _)) fun _ => .ret _

theorem publishExported_uses (t : Int) (nw : Nat) (bytes : List UInt8) :
    (publishExported t nw bytes).Uses (CommitsTo t) := by
  unfold publishExported
  refine .bind (.perform .setWatermark) fun _ => ?_
  refine .bind (.perform .setPrefixSeqLen) fun _ => ?_
  refine .bind (.perform (.setPrefixKvSerialBytes nw)) fun _ => ?_
  refine .bind (.perform .load) fun s => ?_
  dsimp only
  have hput : ∀ data, (perform (.putSnapshot t data) >>= fun _ =>
      notifyAll .watermarkCv).Uses (CommitsTo t) :=
    fun data => .bind (.perform (.putSnapshot data)) fun _ => .notifyAll .notify
  have hend := Prog.Uses.ite (c := nw > 0) (hput bytes) (hput [])
  exact .ite (.bind (alloc_uses CommitsTo.allocate) fun _ => hend) hend

/-- A commit writes the value that it commits. -/
theorem commitWatermark_uses_to (ctx : Option Nat) (t : Int) :
    (commitWatermark ctx t).Uses (CommitsTo t) := by
  unfold commitWatermark
  refine .bind (.perform (.note ctx)) fun _ => ?_
  cases ctx with
  | none => exact .throw _
  | some ctx =>
    refine .ite (.throw _) (.bind (.withLock .lock .unlock (publishUnexported_uses t)) fun _ => ?_)
    refine .ite (.bind (exportPrefix_uses ctx t) fun export' => ?_) (.ret ())
    exact .withLock .lock .unlock (publishExported_uses t _ _)

theorem commitWatermark_uses (ctx : Option Nat) (t : Int) :
    (commitWatermark ctx t).Uses CommitAction :=
  (commitWatermark_uses_to ctx t).mono fun _ ha => ha.commit

end PipelineState

namespace KVHandoff

theorem materializeBranchCache_uses (source target : Option Nat) (nbytes : Nat) :
    (materializeBranchCache source target nbytes).Uses CopyAction := by
  unfold materializeBranchCache
  split
  · refine .bind (.perform (.bufferSize _)) fun _ => .bind (.perform (.bufferSize _)) fun _ => ?_
    refine .ite (.throw _) (.bind (.perform (.readBytes _ _)) fun _ => ?_)
    exact .perform (.writeBytes _ _)
  · exact .throw _

theorem bindContiguousCache_uses {U : Action sig → Prop} (ctx cache : Option Nat) :
    (bindContiguousCache ctx cache).Uses U :=
  .ite (.throw _) (.ret ())

end KVHandoff

namespace MemoryPool

theorem getRequiredKvSize_uses (nCtx : Nat) : (getRequiredKvSize nCtx).Uses PoolAction := by
  unfold getRequiredKvSize
  refine .bind (.perform .llamaInitFromModel) fun ctx => ?_
  cases ctx with
  | none => exact .throw _
  | some ctx =>
    refine .bind (.perform (.llamaStateGetSize ctx nCtx)) fun sz => ?_
    exact .bind (.perform (.llamaFree ctx)) fun _ => .ret _

theorem allocateCache_uses (failure : Error) (nCtx : Nat) :
    (allocateCache failure nCtx).Uses PoolAction := by
  unfold allocateCache
  refine .withLock .lock .unlock (.bind (getRequiredKvSize_uses nCtx) fun kvSize => ?_)
  refine .bind (.perform (.allocBuffer kvSize)) fun buffer => ?_
  cases buffer with
  | none => exact .throw _
  | some buffer =>
    refine .bind (alloc_uses .allocate) fun _ => ?_
    exact .bind (.perform (.pushActiveBuffer buffer)) fun _ => .ret _

end MemoryPool

namespace AnalyticalNode

variable {node : AnalyticalNode} {ctx : OrchestratorContext}

theorem publishOutput_uses (key : String) (nTok : Nat) (fork : Fork) :
    (node.publishOutput key nTok fork).Uses HostAction :=
  .withLock .lockOutput .unlockOutput (.bind (alloc_uses HostAction.allocate) fun _ =>
    .perform (.putOutput _ _))

theorem chooseFork_uses : node.chooseFork.Uses LookupAction := by
  unfold chooseFork
  refine .ite (.bind (PipelineState.tryGetPrefixSnapshot_uses _) fun r => ?_) ?_
  · split
    · exact .throw _
    · exact .ret _
  · refine .bind (.perform .load) fun s₁ => .bind (.perform .load) fun s₂ => .ite ?_ (.ret _)
    refine .bind (.perform .load) fun s₃ => ?_
    split
    · exact .throw _
    · exact .ret _

theorem bindTargetOf_uses (branchBuf : Option Nat) : (bindTargetOf branchBuf).Uses LookupAction := by
  cases branchBuf with
  | some branchBuf => exact .ret _
  | none => exact .bind (.perform .load) fun s => .ret _

end AnalyticalNode

/-! ## Values -/

section Values

variable {σ : Type} {A : Observer sig σ} {I : σ → Prop}

theorem alloc_spec (h : A.Keeps I (.op .allocate)) : A.Spec I alloc (fun _ => I) fun _ => I :=
  .of_uses (alloc_uses rfl) fun _ ha => ha ▸ h

/-- Tokenization returns what the tokenizer says. -/
theorem tokenizeWith_spec {failure : Error} {text : String} (h : A.Keeps I (.op .allocate)) :
    A.Spec I (tokenizeWith failure E text)
      (fun tokens s => I s ∧ tokensOf E text = some tokens) fun _ => I := by
  unfold tokenizeWith
  refine .bind (alloc_spec h) fun _ => ?_
  refine .ite (fun hneg => .bind (alloc_spec h) fun _ => ?_) fun hpos => ?_
  · refine .ite (fun _ => .throw fun _ hs => hs) fun hpos => .ret fun s hs => ⟨hs, ?_⟩
    simp only [tokensOf, hneg, if_true, hpos, if_false]
  · refine .ret fun s hs => ⟨hs, ?_⟩
    simp only [tokensOf, hpos, if_false]

/-- The document is what the file has, or the fallback. -/
theorem PrefillNode.loadDocumentText_spec {path : String} :
    A.Spec I (PrefillNode.loadDocumentText E path)
      (fun text s => I s ∧ documentText E path = some text) fun _ => I := by
  unfold PrefillNode.loadDocumentText documentText
  cases E.readFile path with
  | missing => exact .ret fun s hs => ⟨hs, rfl⟩
  | unreadable => exact .throw fun _ hs => hs
  | contents text => exact .ret fun s hs => ⟨hs, rfl⟩

/-- A document that can be read is. -/
theorem PrefillNode.loadDocumentText_total {path : String}
    (hpath : (documentText E path).isSome) :
    A.Spec I (PrefillNode.loadDocumentText E path)
      (fun text s => I s ∧ documentText E path = some text) fun _ _ => False := by
  unfold PrefillNode.loadDocumentText documentText at *
  cases hread : E.readFile path with
  | missing => exact .ret fun s hs => ⟨hs, rfl⟩
  | unreadable =>
    rw [hread] at hpath
    cases hpath
  | contents text => exact .ret fun s hs => ⟨hs, rfl⟩

/-- The budget check of a single prompt passes on the wrapped sum. -/
theorem swarmkvValidateContextBudget_spec {prefixTokens headroom : Int} {prompt : String}
    {tokens : List LlamaToken} {nCtx : Nat} (htokens : tokensOf E prompt = some tokens)
    (h : A.Keeps I (.op .allocate)) :
    A.Spec I (swarmkvValidateContextBudget E prefixTokens [prompt] nCtx headroom)
      (fun _ s => I s ∧ 0 ≤ prefixTokens ∧
        toInt32 (prefixTokens + tokens.length + headroom) ≤ toInt32 nCtx) fun _ => I := by
  unfold swarmkvValidateContextBudget
  refine .ite (fun _ => .throw fun _ => id) fun hnneg => ?_
  refine .bind (Q := fun (most : Int) s => I s ∧ most = tokens.length) ?_ fun most =>
    .assume fun hmost => ?_
  · refine .bind (tokenizeWith_spec h) fun tokens' => .assume fun htokens' => .ret fun s hs => ⟨hs, ?_⟩
    obtain rfl := Option.some.inj (htokens.symm.trans htokens')
    rw [toInt32_of_lt (tokensOf_length htokens)]
    exact max_eq_right (Int.natCast_nonneg _)
  · rw [hmost]
    refine .ite (fun _ => .throw fun _ => id) fun hfits => .ret fun s hs => ⟨hs, ?_, ?_⟩
    · exact not_lt.mp hnneg
    · exact not_lt.mp hfits

/-- Where memory does not run out, a text that has tokens is tokenized. -/
theorem tokenizeWith_total {failure : Error} {text : String} (htext : (tokensOf E text).isSome)
    (halloc : A.Spec I alloc (fun _ => I) fun _ _ => False) :
    A.Spec I (tokenizeWith failure E text)
      (fun tokens s => I s ∧ tokensOf E text = some tokens) fun _ _ => False := by
  unfold tokenizeWith
  refine .bind halloc fun _ => ?_
  refine .ite (fun hneg => .bind halloc fun _ => ?_) fun hpos => ?_
  · refine .ite (fun hneg' => ?_) fun hpos => .ret fun s hs => ⟨hs, ?_⟩
    · simp only [tokensOf, hneg, if_true, hneg'] at htext
      cases htext
    · simp only [tokensOf, hneg, if_true, hpos, if_false]
  · refine .ret fun s hs => ⟨hs, ?_⟩
    simp only [tokensOf, hpos, if_false]

end Values

end SwarmKV

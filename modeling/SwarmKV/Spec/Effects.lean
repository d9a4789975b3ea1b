import SwarmKV.Native.World

/-!
# What one action can do

For each component of the world, the ways in which an action can change it.
Invariants are derived from these lemmas; nothing after this module looks at all
the actions again.
-/

namespace SwarmKV

variable {E : Engine} {i : Thread} {o : Op} {x : Choice} {w w' : World} {r : o.Res}

/-- The bytes in the fork buffer of a branch. -/
def World.branchBytes (w : World) (buffer : Option Nat) (n : Nat) : List UInt8 :=
  buffer.elim [] fun b => w.bytesAt (.buffer b) n

theorem World.log_grows_record (w : World) (i : Thread) (e : Event) (j : Thread) :
    w.log j <+: (w.record i e).log j := by
  by_cases hj : j = i
  · subst hj
    simp [World.record]
  · simp [World.record, hj]

/-- The events an action can put on record. -/
inductive Emits (E : Engine) (w : World) : Op → Event → Prop
  | note (e : Event) : Emits E w (.note e) e
  | noteFork (len : Int) (buffer : Option Nat) (n : Nat) :
    Emits E w (.noteFork len buffer n) (.forked len (w.branchBytes buffer n))
  | consumeMilestone (t : Int) : Emits E w (.consumeMilestone t) (.milestoneConsumed t)
  | allocate : Emits E w .allocate .badAlloc
  | getData {h : Nat} {ctx : LlamaContext} (hctx : w.contexts h = some ctx) {bytes : List UInt8}
    {seq : Int} (hb : E.exports (seqState seq ctx.cells) bytes) (b cap : Nat) :
    Emits E w (.llamaStateSeqGetData h b cap seq)
      (.exported (seqState seq ctx.cells) (fitting cap bytes))
  | setData (h : Nat) (p : DataPtr) (n : Nat) (seq : Int) :
    Emits E w (.llamaStateSeqSetData h p n seq) (.restored (w.bytesAt p n))

/-- What an action can do to the world: nothing, or the one change that is its own. -/
inductive Effect (E : Engine) (i : Thread) (w : World) : Op → World → Prop
  | same (o : Op)
    (hcount : ∀ t, o = .consumeMilestone t → w.state.milestoneConsumersRemaining t = none) :
    Effect E i w o w
  | note (e : Event) : Effect E i w (.note e) (w.record i e)
  | noteFork (len : Int) (buffer : Option Nat) (n : Nat) :
    Effect E i w (.noteFork len buffer n) (w.record i (.forked len (w.branchBytes buffer n)))
  | setWatermark (t : Int) :
    Effect E i w (.setWatermark t) (w.update fun s => { s with watermark := t })
  | setPrefixSeqLen (t : Int) :
    Effect E i w (.setPrefixSeqLen t) (w.update fun s => { s with prefixSeqLen := t })
  | setPrefixKvSerialBytes (n : Nat) :
    Effect E i w (.setPrefixKvSerialBytes n) (w.update fun s => { s with prefixKvSerialBytes := n })
  | putSnapshot (t : Int) (data : List UInt8) :
    Effect E i w (.putSnapshot t data) (w.update fun s => { s with
      prefixSnapshots := Function.update s.prefixSnapshots t (some ⟨data, t⟩) })
  | setPrefillComplete :
    Effect E i w .setPrefillComplete (w.update fun s => { s with prefillComplete := true })
  | consumeMilestone {t n : Int} (hn : w.state.milestoneConsumersRemaining t = some n) :
    Effect E i w (.consumeMilestone t) ((w.update fun s => { s with
      milestoneConsumersRemaining :=
        Function.update s.milestoneConsumersRemaining t (some (n - 1)) }).record i
      (.milestoneConsumed t))
  | putOutput (key value : String) :
    Effect E i w (.putOutput key value) (w.update fun s => { s with
      nodeOutputs := Function.update s.nodeOutputs key (some value) })
  | putTiming (key : String) (ms : Int) :
    Effect E i w (.putTiming key ms) (w.update fun s => { s with
      timingsMs := Function.update s.timingsMs key (some ms) })
  | badAlloc : Effect E i w .allocate (w.record i .badAlloc)
  | llamaInitFromModel : Effect E i w .llamaInitFromModel { w with
      contexts := Function.update w.contexts w.nextContext (some { owner := i })
      nextContext := w.nextContext + 1 }
  | llamaFree (h : Nat) :
    Effect E i w (.llamaFree h) { w with contexts := Function.update w.contexts h none }
  | llamaBatchInit : Effect E i w .llamaBatchInit { w with
      batches := Function.update w.batches w.nextBatch true
      nextBatch := w.nextBatch + 1 }
  | llamaBatchFree (b : Nat) :
    Effect E i w (.llamaBatchFree b) { w with batches := Function.update w.batches b false }
  | llamaDecode {h : Nat} {ctx : LlamaContext} {batch : LlamaBatch}
    (hctx : w.contexts h = some ctx) (htokens : 0 < batch.nTokens) :
    Effect E i w (.llamaDecode h batch) (w.setCells h (ctx.cells ++ batch.cells))
  | llamaStateSeqGetData {h : Nat} {ctx : LlamaContext} (hctx : w.contexts h = some ctx)
    {bytes : List UInt8} {seq : Int} (hb : E.exports (seqState seq ctx.cells) bytes) (b cap : Nat) :
    Effect E i w (.llamaStateSeqGetData h b cap seq) ((w.overwrite b (fitting cap bytes)).record i
      (.exported (seqState seq ctx.cells) (fitting cap bytes)))
  | llamaStateSeqSetData {h n : Nat} {ctx : LlamaContext} {p : DataPtr} {s : SeqState} {seq : Int}
    (hctx : w.contexts h = some ctx) (hs : E.restore (w.bytesAt p n) = some s) :
    Effect E i w (.llamaStateSeqSetData h p n seq)
      ((w.setCells h (restoreSeq seq s ctx.cells)).record i (.restored (w.bytesAt p n)))
  | allocBuffer (size : Nat) : Effect E i w (.allocBuffer size) { w with
      buffers := Function.update w.buffers w.nextBuffer (some { size := size })
      nextBuffer := w.nextBuffer + 1 }
  | freeBuffer (b : Nat) :
    Effect E i w (.freeBuffer b) { w with buffers := Function.update w.buffers b none }
  | writeBytes (b : Nat) (bytes : List UInt8) :
    Effect E i w (.writeBytes b bytes) (w.overwrite b bytes)
  | pushActiveBuffer (b : Nat) :
    Effect E i w (.pushActiveBuffer b) { w with activeBuffers := w.activeBuffers ++ [b] }
  | clearActiveBuffers : Effect E i w .clearActiveBuffers { w with activeBuffers := [] }
  | setPromise {n : String} (hn : w.promises n = none) (q : Outcome) :
    Effect E i w (.setPromise n q) { w with promises := Function.update w.promises n (some q) }
  | setTask (n : String) (q : Outcome) :
    Effect E i w (.setTask n q) { w with tasks := Function.update w.tasks n (some q) }

/-- Whatever the environment decides, an action has its effect or none. -/
theorem exec_effect (h : exec E i o x w = some (r, w')) : Effect E i w o w' := by
  unfold exec at h
  -- the branches of `exec`: an answer that is `none` is no step
  split at h
  all_goals
    repeat' split at h
    all_goals first
      | obtain ⟨-, rfl⟩ := Prod.mk.inj (Option.some.inj h)
        first
          | constructor <;> assumption
          | exact .same _ fun t ht => by cases ht <;> assumption
      | cases h

section Log

/-- Only the acting thread's log changes, and by at most one event. -/
theorem exec_log (h : exec E i o x w = some (r, w')) :
    w'.log = w.log ∨ ∃ e, Emits E w o e ∧ w'.log = Function.update w.log i (w.log i ++ [e]) := by
  cases exec_effect h with
  | note e => exact .inr ⟨e, .note e, rfl⟩
  | noteFork len buffer n => exact .inr ⟨_, .noteFork len buffer n, rfl⟩
  | consumeMilestone => exact .inr ⟨_, .consumeMilestone _, rfl⟩
  | badAlloc => exact .inr ⟨_, .allocate, rfl⟩
  | llamaStateSeqGetData hctx hb b cap => exact .inr ⟨_, .getData hctx hb b cap, rfl⟩
  | llamaStateSeqSetData => exact .inr ⟨_, .setData _ _ _ _, rfl⟩
  | _ => exact .inl rfl

theorem exec_log_other (h : exec E i o x w = some (r, w')) {j : Thread} (hj : j ≠ i) :
    w'.log j = w.log j := by
  rcases exec_log h with heq | ⟨e, -, heq⟩
  · rw [heq]
  · rw [heq, Function.update_of_ne hj]

/-- Logs grow. -/
theorem exec_log_grows (h : exec E i o x w = some (r, w')) (j : Thread) :
    w.log j <+: w'.log j := by
  rcases exec_log h with heq | ⟨e, -, heq⟩
  · rw [heq]
  · rw [heq]
    by_cases hj : j = i
    · subst hj
      rw [Function.update_self]
      exact List.prefix_append _ _
    · rw [Function.update_of_ne hj]

/-- A new event is one the action emits. -/
theorem exec_mem_log (h : exec E i o x w = some (r, w')) {j : Thread} {e : Event}
    (he : e ∈ w'.log j) : e ∈ w.log j ∨ j = i ∧ Emits E w o e := by
  rcases exec_log h with heq | ⟨e', hemit, heq⟩
  · exact .inl (by rwa [heq] at he)
  · rw [heq] at he
    by_cases hj : j = i
    · subst hj
      rw [Function.update_self, List.mem_append, List.mem_singleton] at he
      rcases he with he | rfl
      · exact .inl he
      · exact .inr ⟨rfl, hemit⟩
    · rw [Function.update_of_ne hj] at he
      exact .inl he

end Log

section State

theorem exec_materializedBranchBuffer (h : exec E i o x w = some (r, w')) :
    w'.state.materializedBranchBuffer = w.state.materializedBranchBuffer := by
  cases exec_effect h <;> rfl

theorem exec_snapshotMilestones (h : exec E i o x w = some (r, w')) :
    w'.state.snapshotMilestones = w.state.snapshotMilestones := by
  cases exec_effect h <;> rfl

theorem exec_watermark (h : exec E i o x w = some (r, w')) :
    w'.state.watermark = w.state.watermark ∨ ∃ t, o = .setWatermark t ∧ w'.state.watermark = t := by
  cases exec_effect h with
  | setWatermark t => exact .inr ⟨t, rfl, rfl⟩
  | _ => exact .inl rfl

theorem exec_prefixSeqLen (h : exec E i o x w = some (r, w')) :
    w'.state.prefixSeqLen = w.state.prefixSeqLen ∨
      ∃ t, o = .setPrefixSeqLen t ∧ w'.state.prefixSeqLen = t := by
  cases exec_effect h with
  | setPrefixSeqLen t => exact .inr ⟨t, rfl, rfl⟩
  | _ => exact .inl rfl

theorem exec_prefixKvSerialBytes (h : exec E i o x w = some (r, w')) :
    w'.state.prefixKvSerialBytes = w.state.prefixKvSerialBytes ∨
      ∃ n, o = .setPrefixKvSerialBytes n ∧ w'.state.prefixKvSerialBytes = n := by
  cases exec_effect h with
  | setPrefixKvSerialBytes n => exact .inr ⟨n, rfl, rfl⟩
  | _ => exact .inl rfl

theorem exec_prefixSnapshots (h : exec E i o x w = some (r, w')) :
    w'.state.prefixSnapshots = w.state.prefixSnapshots ∨
      ∃ t data, o = .putSnapshot t data ∧
        w'.state.prefixSnapshots = Function.update w.state.prefixSnapshots t (some ⟨data, t⟩) := by
  cases exec_effect h with
  | putSnapshot t data => exact .inr ⟨t, data, rfl, rfl⟩
  | _ => exact .inl rfl

/-- A snapshot is not taken back. -/
theorem exec_snapshots_mono (h : exec E i o x w = some (r, w')) {t : Int}
    (ht : (w.state.prefixSnapshots t).isSome) : (w'.state.prefixSnapshots t).isSome := by
  rcases exec_prefixSnapshots h with heq | ⟨t', data, -, heq⟩
  · rwa [heq]
  · rw [heq]
    by_cases htt : t = t'
    · rw [htt, Function.update_self]
      rfl
    · rwa [Function.update_of_ne htt]

theorem exec_prefillComplete (h : exec E i o x w = some (r, w')) :
    w'.state.prefillComplete = w.state.prefillComplete ∨ o = .setPrefillComplete := by
  cases exec_effect h with
  | setPrefillComplete => exact .inr rfl
  | _ => exact .inl rfl

theorem exec_nodeOutputs (h : exec E i o x w = some (r, w')) :
    w'.state.nodeOutputs = w.state.nodeOutputs ∨ ∃ key value, o = .putOutput key value ∧
      w'.state.nodeOutputs = Function.update w.state.nodeOutputs key (some value) := by
  cases exec_effect h with
  | putOutput key value => exact .inr ⟨key, value, rfl, rfl⟩
  | _ => exact .inl rfl

/-- A consumer count goes down by one, on record; nothing else changes one. -/
theorem exec_milestoneConsumersRemaining (h : exec E i o x w = some (r, w')) :
    (w'.state.milestoneConsumersRemaining = w.state.milestoneConsumersRemaining ∧
      ∀ t, o = .consumeMilestone t →
        w.state.milestoneConsumersRemaining t = none ∧ w'.log = w.log) ∨
    ∃ t n, o = .consumeMilestone t ∧ w.state.milestoneConsumersRemaining t = some n ∧
      w'.state.milestoneConsumersRemaining =
        Function.update w.state.milestoneConsumersRemaining t (some (n - 1)) ∧
      w'.log = Function.update w.log i (w.log i ++ [.milestoneConsumed t]) := by
  cases exec_effect h with
  | same _ hcount => exact .inl ⟨rfl, fun t ht => ⟨hcount t ht, rfl⟩⟩
  | consumeMilestone hn => exact .inr ⟨_, _, rfl, hn, rfl, rfl⟩
  | _ => exact .inl ⟨rfl, fun t ht => by cases ht⟩

end State

section Handles

/-- What an action can do to the live contexts. -/
theorem exec_contexts (h : exec E i o x w = some (r, w')) :
    w'.contexts = w.contexts ∧ w'.nextContext = w.nextContext ∨
    (o = .llamaInitFromModel ∧ w'.nextContext = w.nextContext + 1 ∧
      w'.contexts = Function.update w.contexts w.nextContext (some { owner := i })) ∨
    (w'.nextContext = w.nextContext ∧ ∃ hd, o = .llamaFree hd ∧
      w'.contexts = Function.update w.contexts hd none) ∨
    (w'.nextContext = w.nextContext ∧ ∃ hd cells, ((∃ batch, o = .llamaDecode hd batch) ∨
        ∃ p n seq, o = .llamaStateSeqSetData hd p n seq) ∧ w'.contexts = (w.setCells hd cells).contexts) := by
  cases exec_effect h with
  | llamaInitFromModel => exact .inr (.inl ⟨rfl, rfl, rfl⟩)
  | llamaFree hd => exact .inr (.inr (.inl ⟨rfl, hd, rfl, rfl⟩))
  | llamaDecode => exact .inr (.inr (.inr ⟨rfl, _, _, .inl ⟨_, rfl⟩, rfl⟩))
  | llamaStateSeqSetData => exact .inr (.inr (.inr ⟨rfl, _, _, .inr ⟨_, _, _, rfl⟩, rfl⟩))
  | _ => exact .inl ⟨rfl, rfl⟩

/-- What an action can do to the ggml buffers. -/
theorem exec_buffers (h : exec E i o x w = some (r, w')) :
    w'.buffers = w.buffers ∧ w'.nextBuffer = w.nextBuffer ∨
    (∃ size, o = .allocBuffer size ∧ w'.nextBuffer = w.nextBuffer + 1 ∧
      w'.buffers = Function.update w.buffers w.nextBuffer (some { size := size })) ∨
    (w'.nextBuffer = w.nextBuffer ∧ ∃ b, o = .freeBuffer b ∧
      w'.buffers = Function.update w.buffers b none) ∨
    (w'.nextBuffer = w.nextBuffer ∧ ∃ b bytes, (o = .writeBytes b bytes ∨
        ∃ hd cap seq, o = .llamaStateSeqGetData hd b cap seq) ∧
      w'.buffers = (w.overwrite b bytes).buffers) := by
  cases exec_effect h with
  | allocBuffer size => exact .inr (.inl ⟨size, rfl, rfl, rfl⟩)
  | freeBuffer b => exact .inr (.inr (.inl ⟨rfl, b, rfl, rfl⟩))
  | writeBytes b bytes => exact .inr (.inr (.inr ⟨rfl, b, bytes, .inl rfl, rfl⟩))
  | llamaStateSeqGetData => exact .inr (.inr (.inr ⟨rfl, _, _, .inr ⟨_, _, _, rfl⟩, rfl⟩))
  | _ => exact .inl ⟨rfl, rfl⟩

/-- What an action can do to the registry of the pool. -/
theorem exec_activeBuffers (h : exec E i o x w = some (r, w')) :
    w'.activeBuffers = w.activeBuffers ∨ (∃ b, o = .pushActiveBuffer b) ∨
      o = .clearActiveBuffers := by
  cases exec_effect h with
  | pushActiveBuffer b => exact .inr (.inl ⟨b, rfl⟩)
  | clearActiveBuffers => exact .inr (.inr rfl)
  | _ => exact .inl rfl

end Handles

section Futures

/-- A promise is fulfilled once. -/
theorem exec_promises (h : exec E i o x w = some (r, w')) :
    w'.promises = w.promises ∨ ∃ n q, o = .setPromise n q ∧ w.promises n = none ∧
      w'.promises = Function.update w.promises n (some q) := by
  cases exec_effect h with
  | setPromise hn q => exact .inr ⟨_, q, rfl, hn, rfl⟩
  | _ => exact .inl rfl

theorem exec_tasks (h : exec E i o x w = some (r, w')) :
    w'.tasks = w.tasks ∨ ∃ n q, o = .setTask n q ∧
      w'.tasks = Function.update w.tasks n (some q) := by
  cases exec_effect h with
  | setTask n q => exact .inr ⟨n, q, rfl, rfl⟩
  | _ => exact .inl rfl

end Futures

/-! ## The calls that can fail -/

section Calls

theorem exec_allocate {r : Bool} (h : exec E i .allocate x w = some (r, w')) :
    r = true ∧ w' = w ∨ r = false ∧ w' = w.record i .badAlloc := by
  cases x <;> simp only [exec, Option.some.injEq, Prod.mk.injEq] at h <;>
    obtain ⟨rfl, rfl⟩ := h <;> simp

theorem exec_llamaInitFromModel {r : Option Nat}
    (h : exec E i .llamaInitFromModel x w = some (r, w')) :
    r = none ∧ w' = w ∨ r = some w.nextContext ∧ w' = { w with
      contexts := Function.update w.contexts w.nextContext (some { owner := i })
      nextContext := w.nextContext + 1 } := by
  cases x <;> simp only [exec, Option.some.injEq, Prod.mk.injEq] at h <;>
    obtain ⟨rfl, rfl⟩ := h <;> simp

theorem exec_allocBuffer {size : Nat} {r : Option Nat}
    (h : exec E i (.allocBuffer size) x w = some (r, w')) :
    r = none ∧ w' = w ∨ r = some w.nextBuffer ∧ w' = { w with
      buffers := Function.update w.buffers w.nextBuffer (some { size := size })
      nextBuffer := w.nextBuffer + 1 } := by
  cases x <;> simp only [exec, Option.some.injEq, Prod.mk.injEq] at h <;>
    obtain ⟨rfl, rfl⟩ := h <;> simp

/-- A batch is decoded only if it has tokens. -/
theorem exec_llamaDecode {hd : Nat} {batch : LlamaBatch} {r : Bool}
    (h : exec E i (.llamaDecode hd batch) x w = some (r, w')) :
    r = false ∧ w' = w ∨ ∃ ctx, w.contexts hd = some ctx ∧ 0 < batch.nTokens ∧ r = true ∧
      w' = w.setCells hd (ctx.cells ++ batch.cells) := by
  cases x <;> simp only [exec, Option.some.injEq, Prod.mk.injEq] at h
  case fail => exact .inl ⟨h.1.symm, h.2.symm⟩
  all_goals
    split at h
    · rename_i ctx hctx
      split at h
      · rename_i htokens
        simp only [Option.some.injEq, Prod.mk.injEq] at h
        exact .inr ⟨ctx, hctx, htokens, h.1.symm, h.2.symm⟩
      · simp only [Option.some.injEq, Prod.mk.injEq] at h
        exact .inl ⟨h.1.symm, h.2.symm⟩
    · simp only [Option.some.injEq, Prod.mk.injEq] at h
      exact .inl ⟨h.1.symm, h.2.symm⟩

theorem exec_llamaStateSeqGetData {hd b cap : Nat} {seq : Int} {r : Nat} {ctx : LlamaContext}
    (hctx : w.contexts hd = some ctx)
    (h : exec E i (.llamaStateSeqGetData hd b cap seq) x w = some (r, w')) :
    ∃ bytes, E.exports (seqState seq ctx.cells) bytes ∧ r = (fitting cap bytes).length ∧
      w' = (w.overwrite b (fitting cap bytes)).record i
        (.exported (seqState seq ctx.cells) (fitting cap bytes)) := by
  cases x <;> simp only [exec, hctx, reduceCtorEq] at h
  split at h
  · rename_i bytes hb
    simp only [Option.some.injEq, Prod.mk.injEq] at h
    exact ⟨bytes, hb, h.1.symm, h.2.symm⟩
  · cases h

theorem exec_llamaStateSeqSetData {hd n : Nat} {p : DataPtr} {seq : Int} {r : Nat}
    (h : exec E i (.llamaStateSeqSetData hd p n seq) x w = some (r, w')) :
    r = 0 ∧ w' = w ∨ ∃ ctx s, w.contexts hd = some ctx ∧ E.restore (w.bytesAt p n) = some s ∧
      r = (w.bytesAt p n).length ∧
      w' = (w.setCells hd (restoreSeq seq s ctx.cells)).record i (.restored (w.bytesAt p n)) := by
  cases x <;> simp only [exec, Option.some.injEq, Prod.mk.injEq] at h
  case fail => exact .inl ⟨h.1.symm, h.2.symm⟩
  all_goals
    split at h
    · rename_i ctx s hctx hs
      simp only [Option.some.injEq, Prod.mk.injEq] at h
      exact .inr ⟨ctx, s, hctx, hs, h.1.symm, h.2.symm⟩
    · simp only [Option.some.injEq, Prod.mk.injEq] at h
      exact .inl ⟨h.1.symm, h.2.symm⟩

end Calls

end SwarmKV

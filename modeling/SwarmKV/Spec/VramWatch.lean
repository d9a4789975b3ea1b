import SwarmKV.Spec.WorkerRules
import SwarmKV.Spec.Graph

/-!
# Who has a context

The observer of this module knows whether a thread has a llama context, and for a prefiller
whether it has committed a milestone and not yet given its context up for it. A branch
creates and frees its contexts under the guard; a prefiller creates its next one when all
milestones that it has committed are consumed.
-/

namespace SwarmKV

open Monitor

/-- The answer of a call that has not failed. -/
def succeeds : (a : Action sig) → a.Res → Bool
  | .op .allocate, r => r
  | .op .llamaInitFromModel, r => Option.isSome r
  | .op (.llamaDecode _ _), r => r
  | .op (.llamaStateSeqSetData _ _ n _), r => decide (r = n)
  | .op (.allocBuffer _), r => Option.isSome r
  | _, _ => true

/-- What a thread has done with its contexts. -/
structure VramUse where
  /-- It holds the guard. -/
  held : Bool := false
  /-- Its context. -/
  live : Option Nat := none
  /-- It has had a context. -/
  opened : Bool := false
  started : Bool := false
  ended : Bool := false
  signalled : Bool := false
  /-- The last value it has committed. -/
  top : Int := 0
  /-- That was a milestone, and it still has its context. -/
  pausing : Bool := false
  /-- The milestones whose consumers it has waited for. -/
  waited : List Int := []
  /-- The snapshots it has filed. -/
  filed : List Int := []
  /-- The export size that it has asked for. -/
  asked : Nat := 0

namespace VramUse

/-- What a thread has done after an action. -/
def next (cfg : Pipeline) (s : VramUse) : (a : Action sig) → a.Res → VramUse
  | .lock .llamaApiMutex, _ => { s with held := true }
  | .unlock .llamaApiMutex, _ => { s with held := false }
  | .wait (.milestoneConsumers t), _ => { s with waited := t :: s.waited }
  | .op .llamaInitFromModel, r => if Option.isSome r then { s with live := r, opened := true } else s
  | .op (.llamaFree _), _ => { s with live := none, pausing := false }
  | .op (.note .executeStart), _ => { s with started := true }
  | .op (.note (.executeEnd _)), _ => { s with ended := true }
  | .op (.note (.commitWatermark _ t)), _ =>
    { s with top := t, pausing := decide (cfg.IsMilestone t) }
  | .op (.consumeMilestone _), _ => { s with signalled := true }
  | .op (.putSnapshot t _), _ => { s with filed := t :: s.filed }
  | .op (.llamaStateSeqGetSize _ _), r => { s with asked := r }
  | _, _ => s

/-- The milestones of `p` up to `t` have been waited for. -/
def WaitedTo (cfg : Pipeline) (p : String) (s : VramUse) (t : Int) : Prop :=
  ∀ t', cfg.IsMilestone t' → CommitValue (cfg.doc p).length t' → t' ≤ t → t' ∈ s.waited

/-- What a prefiller may do. -/
def prefillAccepts (cfg : Pipeline) (p : String) (s : VramUse) : Action sig → Prop
  | .op .llamaInitFromModel => s.live = none ∧ s.ended = false ∧ (s.opened = true → s.held = true) ∧
    s.WaitedTo cfg p s.top
  | .op (.llamaFree h) => s.live = some h
  | .op (.note (.commitWatermark _ t)) => s.opened = true ∧ s.WaitedTo cfg p (t - 1)
  | .op (.note (.executeEnd r)) => s.live = none ∧
    (r = .ok () ∨ kSwarmkvDefaultPipelineCtx ≤ (cfg.doc p).length)
  | .op (.llamaDecode _ batch) => cfg.engine.llamaNBatch < 2 ^ 31 ∨ cfg.doc p = [] → 0 < batch.nTokens
  | .op (.setWatermark t) => t = s.top
  | _ => True

/-- What a branch may do. -/
def branchAccepts (s : VramUse) : Action sig → Prop
  | .lock .llamaApiMutex => s.started = true ∧ s.signalled = false ∧ s.live = none
  | .unlock .llamaApiMutex => s.live = none
  | .op .llamaInitFromModel => s.held = true ∧ s.live = none
  | .op (.llamaFree h) => s.live = some h
  | .op (.note (.commitWatermark _ _)) => False
  | .op (.setWatermark _) => False
  | _ => True

/-- A prefiller with context `h` that has committed `t`. -/
structure At (h : Nat) (t : Int) (s : VramUse) : Prop where
  live : s.live = some h
  opened : s.opened = true
  ended : s.ended = false
  top : s.top = t

/-- Taking the guard, or giving it away, leaves the context as it is. -/
theorem At.withHeld {h : Nat} {t : Int} {s : VramUse} (hat : s.At h t) (b : Bool) :
    { s with held := b }.At h t :=
  ⟨hat.live, hat.opened, hat.ended, hat.top⟩

/-- What a thread expects of the answers: no call fails, a batch that is decoded has a token, the
    staging buffer is there and large enough, and what it has filed stays filed. -/
def expects (cfg : Pipeline) (s : VramUse) : (a : Action sig) → a.Res → Prop
  | .op .load, r => (∀ t, t ∈ (r : PipelineState).snapshotMilestones ↔ cfg.IsMilestone t) ∧
    r.materializedBranchBuffer.isSome ∧ ∀ t ∈ s.filed, (r.prefixSnapshots t).isSome
  | .op (.bufferSize _), r => s.asked ≤ r
  | .op (.llamaDecode _ batch), r => r = true ∧ 0 < batch.nTokens
  | a, r => succeeds a r = true

end VramUse

/-- The observer of the contexts. -/
def vramWatch (cfg : Pipeline) (i : Thread) : Observer sig VramUse where
  start := {}
  next := VramUse.next cfg
  ok s a := match i with
    | .main => CallerAction a
    | .worker n => if cfg.orchestrator.isPrefill n then s.prefillAccepts cfg n a
      else s.branchAccepts a
  ans := VramUse.expects cfg

/-- The text of the node can be read and tokenized. -/
def Node.Tokenizes (E : Engine) : Node → Prop
  | .prefill node => (documentTokens E node.sourceDocumentPath).isSome
  | .analytical node => (tokensOf E node.branchPrompt).isSome

namespace Pipeline

variable {cfg : Pipeline} {n p : String} {i : Thread} {I : VramUse → Prop}

/-! ## Code that leaves the contexts alone -/

/-- The action has nothing to do with contexts, milestones or the life of a worker. -/
def neutral : Action sig → Bool
  | .lock .llamaApiMutex => false
  | .unlock .llamaApiMutex => false
  | .wait (.milestoneConsumers _) => false
  | .op .llamaInitFromModel => false
  | .op (.llamaFree _) => false
  | .op (.llamaDecode _ _) => false
  | .op (.note _) => false
  | .op (.consumeMilestone _) => false
  | .op (.setWatermark _) => false
  | .op (.putSnapshot _ _) => false
  | .op (.llamaStateSeqGetSize _ _) => false
  | _ => true

theorem next_neutral {a : Action sig} (ha : neutral a = true) (s : VramUse) (r : a.Res) :
    s.next cfg a r = s := by
  cases a with
  | op o => cases o <;> first | rfl | exact absurd ha Bool.false_ne_true
  | lock l => cases l <;> first | rfl | exact absurd ha Bool.false_ne_true
  | unlock l => cases l <;> first | rfl | exact absurd ha Bool.false_ne_true
  | wait w => cases w <;> first | rfl | exact absurd ha Bool.false_ne_true
  | notify v => rfl

private theorem ok_neutral {a : Action sig} (ha : neutral a = true) (s : VramUse) :
    (vramWatch cfg (.worker n)).ok s a := by
  show if cfg.orchestrator.isPrefill n then s.prefillAccepts cfg n a else s.branchAccepts a
  split
  · cases a with
    | op o => cases o <;> trivial
    | _ => trivial
  · cases a with
    | op o => cases o <;> trivial
    | lock l => cases l <;> trivial
    | unlock l => cases l <;> trivial
    | _ => trivial

private theorem keeps_neutral {a : Action sig} (ha : neutral a = true) :
    (vramWatch cfg (.worker n)).Keeps I a := by
  refine fun s hs => ⟨ok_neutral ha s, fun r _ => ?_⟩
  show I (s.next cfg a r)
  rwa [next_neutral ha]

private theorem uses_neutral {α : Type} {q : Prog α} {U : Action sig → Prop} (hq : q.Uses U)
    (hU : ∀ a, U a → neutral a = true) :
    (vramWatch cfg (.worker n)).Spec I q (fun _ => I) fun _ => I :=
  .of_uses hq fun a ha => keeps_neutral (hU a ha)

/-- A neutral action with what is expected of its answer. -/
private theorem op_neutral {o : Op} {X : Error → VramUse → Prop} (ho : neutral (.op o) = true) :
    (vramWatch cfg (.worker n)).Spec I (perform o)
      (fun r s => I s ∧ s.expects cfg (.op o) r) X := by
  refine .op fun s hs => ⟨ok_neutral ho s, fun r hr => ?_⟩
  show I (s.next cfg (.op o) r) ∧ (s.next cfg (.op o) r).expects cfg (.op o) r
  rw [next_neutral ho]
  exact ⟨hs, hr⟩

private theorem op_neutral' {o : Op} {X : Error → VramUse → Prop} (ho : neutral (.op o) = true) :
    (vramWatch cfg (.worker n)).Spec I (perform o) (fun _ => I) X :=
  .post (op_neutral ho) fun _ _ hs => hs.1

/-- A critical section of a mutex other than the guard. -/
private theorem withLock_neutral {α : Type} {l : Lock} {q : Prog α} {P : VramUse → Prop}
    {Q : α → VramUse → Prop} {X : Error → VramUse → Prop} (hl : neutral (.lock l) = true)
    (hu : neutral (.unlock l) = true) (hq : (vramWatch cfg (.worker n)).Spec P q Q X) :
    (vramWatch cfg (.worker n)).Spec P (withLock l q) Q X :=
  .withLock_of_keeps (keeps_neutral hl) hq (fun _ => keeps_neutral hu) fun _ => keeps_neutral hu

private theorem notifyAll_neutral {v : Cv} {X : Error → VramUse → Prop} :
    (vramWatch cfg (.worker n)).Spec I (notifyAll v) (fun _ => I) X :=
  .notifyAll fun s hs => ⟨ok_neutral rfl s, fun _ => hs⟩

/-- Memory does not run out. -/
private theorem alloc_vram {X : Error → VramUse → Prop} :
    (vramWatch cfg (.worker n)).Spec I alloc (fun _ => I) X := by
  refine .bind (op_neutral rfl) fun r => .ite (fun _ => .ret fun _ hs => hs.1) fun hr => ?_
  exact .fix fun s hs => absurd hs.2 hr

private theorem recordTiming_vram {X : Error → VramUse → Prop} (key : String) (t₀ : Int) :
    (vramWatch cfg (.worker n)).Spec I (PipelineState.recordTiming key t₀) (fun _ => I) X := by
  refine .bind (op_neutral' rfl) fun t₁ => withLock_neutral rfl rfl ?_
  exact .bind alloc_vram fun _ => op_neutral' rfl

/-- A context is bound: the staging buffer is there. -/
private theorem bind_vram {h : Nat} {r : PipelineState} {X : Error → VramUse → Prop} :
    (vramWatch cfg (.worker n)).Spec (fun s => I s ∧ s.expects cfg (.op .load) r)
      (KVHandoff.bindContiguousCache (some h) r.materializedBranchBuffer) (fun _ => I) X := by
  unfold KVHandoff.bindContiguousCache
  refine .ite (fun hnone => .fix fun s hs => ?_) fun _ => .ret fun s hs => hs.1
  have hsome := hs.2.2.1
  rw [Option.isNone_some, Bool.false_eq_true, false_or] at hnone
  rw [Option.isNone_iff_eq_none.mp hnone] at hsome
  cases hsome

/-! ## The prefiller -/

/-- Between two slices, with all milestones behind it. -/
private def Steady (cfg : Pipeline) (p : String) (h t : Nat) (s : VramUse) : Prop :=
  s.At h t ∧ s.held = false ∧ s.WaitedTo cfg p t

/-- Behind a slice, whose end may be a milestone. -/
private def Sliced (cfg : Pipeline) (p : String) (h t : Nat) (s : VramUse) : Prop :=
  s.At h t ∧ s.held = false ∧ s.WaitedTo cfg p (t - 1 : Int) ∧ (cfg.IsMilestone t → (t : Int) ∈ s.filed)

private theorem ok_prefill (hp : cfg.orchestrator.isPrefill p = true) {s : VramUse}
    {a : Action sig} (h : s.prefillAccepts cfg p a) : (vramWatch cfg (.worker p)).ok s a := by
  show if cfg.orchestrator.isPrefill p then s.prefillAccepts cfg p a else s.branchAccepts a
  rwa [if_pos hp]

/-- Under the guard, while the slice up to `t` is committed. -/
private def Committing' (cfg : Pipeline) (p : String) (h : Nat) (t : Int) (s : VramUse) : Prop :=
  s.At h t ∧ s.held = true ∧ s.WaitedTo cfg p (t - 1)

/-- Under the guard, behind the commit of `t`. -/
private def Committed' (cfg : Pipeline) (p : String) (h : Nat) (t : Int) (s : VramUse) : Prop :=
  cfg.Committing' p h t s ∧ (cfg.IsMilestone t → t ∈ s.filed)

section Commit

variable {h : Nat} {t : Int} {X : Error → VramUse → Prop}

/-- The size that an export needs is remembered. -/
private theorem seqGetSize_vram (hp : cfg.orchestrator.isPrefill p = true) {seq : Int} :
    (vramWatch cfg (.worker p)).Spec (cfg.Committing' p h t) (perform (.llamaStateSeqGetSize h seq))
      (fun need s => cfg.Committing' p h t s ∧ s.asked = need) X := by
  refine .op fun s hs => ⟨ok_prefill hp trivial, fun need _ => ⟨?_, rfl⟩⟩
  obtain ⟨hat, hheld, hwaited⟩ := hs
  exact ⟨⟨hat.live, hat.opened, hat.ended, hat.top⟩, hheld, hwaited⟩

/-- The export fits into the staging buffer. -/
private theorem exportPrefix_vram (hp : cfg.orchestrator.isPrefill p = true) :
    (vramWatch cfg (.worker p)).Spec (cfg.Committing' p h t) (PipelineState.exportPrefix h)
      (fun _ => cfg.Committing' p h t) X := by
  unfold PipelineState.exportPrefix
  refine .bind (op_neutral' rfl) fun r => ?_
  split
  · exact .ret fun _ hs => hs
  refine .bind (seqGetSize_vram hp) fun need => ?_
  refine .bind (op_neutral rfl) fun cap => .ite (fun hlt => .fix fun s hs => ?_) fun _ => ?_
  · -- the buffer would have to be smaller than the export
    have hle : s.asked ≤ cap := hs.2
    rw [hs.1.2] at hle
    exact absurd hlt (Nat.not_lt.mpr hle)
  refine .pre (I := cfg.Committing' p h t) ?_ fun _ hs => hs.1.1
  refine .bind (op_neutral' rfl) fun nw => .ite (fun _ => ?_) fun _ => .ret fun _ hs => hs
  exact .bind alloc_vram fun _ => .bind (op_neutral' rfl) fun _ => .ret fun _ hs => hs

/-- The prefiller publishes the value that it commits. -/
private theorem setWatermark_vram (hp : cfg.orchestrator.isPrefill p = true) :
    (vramWatch cfg (.worker p)).Spec (cfg.Committing' p h t) (perform (.setWatermark t))
      (fun _ => cfg.Committing' p h t) X :=
  .op fun _ hs => ⟨ok_prefill hp hs.1.top.symm, fun _ _ => hs⟩

/-- What the first critical section finds out about the value. -/
private theorem publishUnexported_vram (hp : cfg.orchestrator.isPrefill p = true) :
    (vramWatch cfg (.worker p)).Spec (cfg.Committing' p h t)
      (withLock .watermarkMutex (PipelineState.publishUnexported t))
      (fun b s => cfg.Committing' p h t s ∧ (b = false → ¬ cfg.IsMilestone t)) X := by
  refine withLock_neutral rfl rfl ?_
  unfold PipelineState.publishUnexported
  refine .bind (op_neutral rfl) fun r => .fix fun s₀ hs₀ => ?_
  have hiff : r.snapshotMilestones.contains t = true ↔ cfg.IsMilestone t := by
    rw [List.contains_iff_mem]
    exact hs₀.2.1 t
  refine .pre (I := cfg.Committing' p h t) (.ite (fun _ => ?_) fun hno => ?_) fun s hs => hs ▸ hs₀.1
  · exact .ret fun s hs => ⟨hs, fun hb => by cases hb⟩
  · refine .bind (setWatermark_vram hp) fun _ => .bind notifyAll_neutral fun _ => ?_
    exact .ret fun s hs => ⟨hs, fun _ hm => hno (hiff.mpr hm)⟩

/-- The snapshot is filed. -/
private theorem putSnapshot_vram (hp : cfg.orchestrator.isPrefill p = true) (data : List UInt8) :
    (vramWatch cfg (.worker p)).Spec (cfg.Committing' p h t)
      (perform (.putSnapshot t data) >>= fun _ => notifyAll .watermarkCv)
      (fun _ => cfg.Committed' p h t) X := by
  refine .bind (.op fun s hs => ⟨ok_prefill hp trivial, fun _ _ => ?_⟩) fun _ => notifyAll_neutral
  obtain ⟨hat, hheld, hwaited⟩ := hs
  refine ⟨⟨⟨hat.live, hat.opened, hat.ended, hat.top⟩, hheld, hwaited⟩, fun _ => ?_⟩
  exact List.mem_cons_self

/-- The last critical section of the commit. -/
private theorem publishExported_vram (hp : cfg.orchestrator.isPrefill p = true) (nw : Nat)
    (bytes : List UInt8) :
    (vramWatch cfg (.worker p)).Spec (cfg.Committing' p h t)
      (withLock .watermarkMutex (PipelineState.publishExported t nw bytes))
      (fun _ => cfg.Committed' p h t) X := by
  refine withLock_neutral rfl rfl ?_
  unfold PipelineState.publishExported
  refine .bind (setWatermark_vram hp) fun _ => ?_
  refine .bind (op_neutral' rfl) fun _ => .bind (op_neutral' rfl) fun _ => ?_
  refine .bind (op_neutral' rfl) fun r => ?_
  dsimp only
  have hend := Observer.Spec.ite (A := vramWatch cfg (.worker p)) (P := cfg.Committing' p h t)
    (Q := fun _ => cfg.Committed' p h t) (X := X) (c := nw > 0) (fun _ => putSnapshot_vram hp bytes)
    fun _ => putSnapshot_vram hp []
  refine .ite (fun _ => ?_) fun _ => hend
  exact .bind alloc_vram fun _ => hend

end Commit

/-- The commit of a value; a milestone gets its snapshot. -/
private theorem commitWatermark_vram (hp : cfg.orchestrator.isPrefill p = true) {h : Nat} {t : Nat}
    {t₀ : Int} {X : Error → VramUse → Prop} :
    (vramWatch cfg (.worker p)).Spec
      (fun s => s.At h t₀ ∧ s.held = true ∧ s.WaitedTo cfg p (t - 1))
      (PipelineState.commitWatermark (some h) t) (fun _ => cfg.Committed' p h t) X := by
  unfold PipelineState.commitWatermark
  refine .bind (Q := fun _ => cfg.Committing' p h t) (.op fun s hs => ?_) fun _ => ?_
  · obtain ⟨hat, hheld, hwaited⟩ := hs
    refine ⟨ok_prefill hp ⟨hat.opened, hwaited⟩, fun _ _ => ?_⟩
    exact ⟨⟨hat.live, hat.opened, hat.ended, rfl⟩, hheld, hwaited⟩
  refine .ite (fun hneg => absurd hneg (by omega)) fun _ => ?_
  refine .bind (publishUnexported_vram hp) fun b => .ite (fun _ => ?_) fun hb => ?_
  · refine .pre (I := cfg.Committing' p h t) ?_ fun _ hs => hs.1
    exact .bind (exportPrefix_vram hp) fun e => publishExported_vram hp e.1 e.2
  · exact .ret fun s hs => ⟨hs.1, fun hm => absurd hm (hs.2 (by simpa using hb))⟩

/-- The slice is decoded, chunk by chunk. -/
private theorem decodeTokenRange_vram (hp : cfg.orchestrator.isPrefill p = true) {h t k : Nat}
    (hlen : t + k ≤ (cfg.doc p).length) :
    (vramWatch cfg (.worker p)).Spec I
      (PrefillNode.decodeTokenRange cfg.engine h (cfg.doc p) t k) (fun _ => I) fun _ _ => False := by
  unfold PrefillNode.decodeTokenRange
  refine PrefillNode.decodeLoop_spec (I := fun _ => I) (X := fun _ => False) hlen ?_
    (fun _ => keeps_neutral rfl) (fun _ _ => keeps_neutral rfl) (fun _ _ hs => hs.elim) ?_ ?_
    k t k rfl le_rfl
  · intro s batch r hr _
    exact hr.2
  · intro cur k' id s hk' hle hs
    refine ⟨ok_prefill hp fun _ => ?_, fun r hr => ⟨fun _ => hs, fun hfalse => ?_⟩⟩
    · -- the chunk is within the document
      simp only [fillBatch, List.length_take, List.length_drop]
      omega
    · exact absurd (hr.1.symm.trans hfalse) (by simp)
  · intro hlarge n cur id s hn hcur _
    refine ⟨ok_prefill hp fun hor => ?_, fun hr => absurd hr.1 (by simp)⟩
    obtain hsmall | hnil := hor
    · exact absurd hsmall (not_lt.mpr hlarge)
    · -- an empty document has no slice
      rw [hnil, List.length_nil] at hlen
      omega

private theorem prefillSlice_vram (hp : cfg.orchestrator.isPrefill p = true) {h t : Nat}
    (hdvd : 128 ∣ t) (hlt : t < (cfg.doc p).length) {X : Error → VramUse → Prop} :
    (vramWatch cfg (.worker p)).Spec (cfg.Steady p h t)
      (PrefillNode.prefillSlice cfg.engine h (cfg.doc p) t (min 128 ((cfg.doc p).length - t)))
      (fun _ => cfg.Sliced p h (t + min 128 ((cfg.doc p).length - t))) X := by
  -- the slice ends at the next value that is committed
  have hnext : ∀ s : VramUse, s.WaitedTo cfg p t →
      s.WaitedTo cfg p ((t + min 128 ((cfg.doc p).length - t) : Nat) - 1) := by
    intro s hs t' hm hv hle
    obtain hle' | heq := hv.slice hdvd hlt (by omega)
    · exact hs t' hm hv hle'
    · omega
  have hlen : t + min 128 ((cfg.doc p).length - t) ≤ (cfg.doc p).length := by omega
  unfold PrefillNode.prefillSlice
  generalize min 128 ((cfg.doc p).length - t) = k at hnext hlen ⊢
  refine .withLock (I := fun s => s.At h t ∧ s.held = true ∧ s.WaitedTo cfg p ((t + k : Nat) - 1))
    (J := fun _ => cfg.Committed' p h (t + k : Nat)) (K := fun _ _ => False)
    (fun s hs => ?_) ?_ (fun _ s hs => ?_) fun _ _ hs => hs.elim
  · obtain ⟨hat, -, hwaited⟩ := hs
    exact ⟨ok_prefill hp trivial, fun _ => ⟨hat.withHeld true, rfl, hnext s hwaited⟩⟩
  · exact .bind (decodeTokenRange_vram hp hlen) fun _ => commitWatermark_vram hp
  · obtain ⟨⟨hat, -, hwaited⟩, hfiled⟩ := hs
    exact ⟨ok_prefill hp trivial, fun _ => ⟨hat.withHeld false, rfl, hwaited, hfiled⟩⟩

private theorem isSnapshotMilestone_vram {h t : Nat} {X : Error → VramUse → Prop} :
    (vramWatch cfg (.worker p)).Spec (cfg.Sliced p h t) (PipelineState.isSnapshotMilestone t)
      (fun b => if b = true then fun s => cfg.Sliced p h t s ∧ cfg.IsMilestone t
        else cfg.Steady p h t) X := by
  unfold PipelineState.isSnapshotMilestone
  refine withLock_neutral rfl rfl (.bind (op_neutral rfl) fun r => .ret fun s hs => ?_)
  have hiff : r.snapshotMilestones.contains (t : Int) = true ↔ cfg.IsMilestone t := by
    rw [List.contains_iff_mem]
    exact hs.2.1 t
  split
  · exact ⟨hs.1, hiff.mp ‹_›⟩
  · -- a value that is no milestone need not be waited for
    rename_i hno
    obtain ⟨hat, hheld, hwaited, -⟩ := hs.1
    refine ⟨hat, hheld, fun t' hm hv hle => ?_⟩
    have hne : t' ≠ t := fun heq => hno (hiff.mpr (heq ▸ hm))
    exact hwaited t' hm hv (by omega)

/-- What has been filed is found. -/
private theorem tryGetPrefixSnapshot_vram {t : Nat} {X : Error → VramUse → Prop}
    (hI : ∀ s, I s → (t : Int) ∈ s.filed) :
    (vramWatch cfg (.worker p)).Spec I (PipelineState.tryGetPrefixSnapshot t)
      (fun r s => I s ∧ r.isSome) X := by
  unfold PipelineState.tryGetPrefixSnapshot
  refine withLock_neutral rfl rfl (.bind (op_neutral rfl) fun r => ?_)
  split
  · rename_i hnone
    refine .fix fun s hs => ?_
    have hsome := hs.2.2.2 t (hI s hs.1)
    rw [hnone] at hsome
    cases hsome
  · exact .ret fun s hs => ⟨hs.1, rfl⟩

private theorem restorePrefixSnapshot_vram {h t : Nat} {X : Error → VramUse → Prop}
    (hI : ∀ s, I s → (t : Int) ∈ s.filed) :
    (vramWatch cfg (.worker p)).Spec I (PrefillNode.restorePrefixSnapshot h t) (fun _ => I) X := by
  unfold PrefillNode.restorePrefixSnapshot
  refine .bind (tryGetPrefixSnapshot_vram hI) fun r => ?_
  cases r with
  | none => exact .fix fun s hs => by cases hs.2
  | some a =>
    obtain ⟨data, nbytes, len⟩ := a
    cases data with
    | none => exact .ret fun s hs => hs.1
    | some data =>
      -- a restore that does not fail takes all bytes
      refine .bind (op_neutral rfl) fun nr => .ite (fun hne => .fix fun s hs => ?_) fun _ => ?_
      · have heq : decide (nr = nbytes) = true := hs.2
        exact absurd (of_decide_eq_true heq) hne
      · exact .ret fun s hs => hs.1.1

/-- A prefiller that has given up its context, and will create the next one. -/
private structure Paused (cfg : Pipeline) (p : String) (t : Nat) (s : VramUse) : Prop where
  live : s.live = none
  opened : s.opened = true
  ended : s.ended = false
  top : s.top = t
  filed : (t : Int) ∈ s.filed

private theorem Paused.withHeld {t : Nat} {s : VramUse} (h : cfg.Paused p t s) (b : Bool) :
    cfg.Paused p t { s with held := b } :=
  ⟨h.live, h.opened, h.ended, h.top, h.filed⟩

section Pause

variable {h t : Nat} {X : Error → VramUse → Prop}

/-- The prefiller gives its context up, under the guard. -/
private theorem pauseFree_vram (hp : cfg.orchestrator.isPrefill p = true) :
    (vramWatch cfg (.worker p)).Spec (fun s => cfg.Sliced p h t s ∧ cfg.IsMilestone t)
      (withLock .llamaApiMutex (perform (.llamaFree h)))
      (fun _ s => cfg.Paused p t s ∧ s.held = false ∧ s.WaitedTo cfg p (t - 1)) X := by
  refine .withLock (I := fun s => cfg.Committing' p h t s ∧ (t : Int) ∈ s.filed)
    (J := fun _ s => cfg.Paused p t s ∧ s.held = true ∧ s.WaitedTo cfg p (t - 1))
    (K := fun _ _ => False) (fun s hs => ?_) (.op fun s hs => ?_) (fun _ s hs => ?_)
    fun _ _ hs => hs.elim
  · obtain ⟨⟨hat, -, hwaited, hfiled⟩, hm⟩ := hs
    exact ⟨ok_prefill hp trivial, fun _ => ⟨⟨hat.withHeld true, rfl, hwaited⟩, hfiled hm⟩⟩
  · obtain ⟨⟨hat, hheld, hwaited⟩, hfiled⟩ := hs
    refine ⟨ok_prefill hp hat.live, fun _ _ => ⟨?_, hheld, hwaited⟩⟩
    exact ⟨rfl, hat.opened, hat.ended, hat.top, hfiled⟩
  · obtain ⟨hpaused, -, hwaited⟩ := hs
    exact ⟨ok_prefill hp trivial, fun _ => ⟨hpaused.withHeld false, rfl, hwaited⟩⟩

/-- It waits for the consumers of the milestone. -/
private theorem waitForMilestoneConsumers_vram (hp : cfg.orchestrator.isPrefill p = true)
    (ht : 0 < t) :
    (vramWatch cfg (.worker p)).Spec
      (fun s => cfg.Paused p t s ∧ s.held = false ∧ s.WaitedTo cfg p (t - 1))
      (PipelineState.waitForMilestoneConsumers t)
      (fun _ s => cfg.Paused p t s ∧ s.held = false ∧ s.WaitedTo cfg p t) X := by
  unfold PipelineState.waitForMilestoneConsumers
  refine .ite (fun hle => absurd hle (by omega)) fun _ => ?_
  refine withLock_neutral rfl rfl (.await fun s hs => ⟨ok_prefill hp trivial, fun _ => ?_⟩)
  obtain ⟨hpaused, hheld, hwaited⟩ := hs
  refine ⟨⟨hpaused.live, hpaused.opened, hpaused.ended, hpaused.top, hpaused.filed⟩, hheld, ?_⟩
  intro t' hm hv hle
  by_cases heq : t' = t
  · subst heq
    exact List.mem_cons_self
  · exact List.mem_cons_of_mem _ (hwaited t' hm hv (by omega))

/-- Under the guard, in the next context. -/
private def Resumed (cfg : Pipeline) (p : String) (t h : Nat) (s : VramUse) : Prop :=
  s.At h t ∧ s.held = true ∧ s.WaitedTo cfg p t ∧ (t : Int) ∈ s.filed

/-- It creates the next context. -/
private theorem resumeInit_vram (hp : cfg.orchestrator.isPrefill p = true) :
    (vramWatch cfg (.worker p)).Spec
      (fun s => cfg.Paused p t s ∧ s.held = true ∧ s.WaitedTo cfg p t)
      (perform .llamaInitFromModel) (fun r s => ∃ h', r = some h' ∧ cfg.Resumed p t h' s) X := by
  refine .op fun s hs => ?_
  obtain ⟨hpaused, hheld, hwaited⟩ := hs
  have hall : s.WaitedTo cfg p s.top := hpaused.top ▸ hwaited
  refine ⟨ok_prefill hp ⟨hpaused.live, hpaused.ended, fun _ => hheld, hall⟩, fun r hr => ?_⟩
  obtain ⟨h', rfl⟩ := Option.isSome_iff_exists.mp hr
  exact ⟨h', rfl, ⟨rfl, rfl, hpaused.ended, hpaused.top⟩, hheld, hwaited, hpaused.filed⟩

/-- It goes on in the next context. -/
private theorem resume_vram :
    (vramWatch cfg (.worker p)).Spec (cfg.Resumed p t h)
      (do
        let s ← perform .load
        KVHandoff.bindContiguousCache (some h) s.materializedBranchBuffer
        PrefillNode.restorePrefixSnapshot h t
        pure h : Prog Nat)
      (fun h' s => s.At h' t ∧ s.held = true ∧ s.WaitedTo cfg p t) X := by
  refine .bind (op_neutral rfl) fun r => .bind bind_vram fun _ => ?_
  refine .bind (restorePrefixSnapshot_vram fun s hs => hs.2.2.2) fun _ => .ret fun s hs => ?_
  obtain ⟨hat, hheld, hwaited, -⟩ := hs
  exact ⟨hat, hheld, hwaited⟩

private theorem pauseAtMilestone_vram (hp : cfg.orchestrator.isPrefill p = true) (ht : 0 < t) :
    (vramWatch cfg (.worker p)).Spec (fun s => cfg.Sliced p h t s ∧ cfg.IsMilestone t)
      (PrefillNode.pauseAtMilestone h t) (fun h' => cfg.Steady p h' t) X := by
  unfold PrefillNode.pauseAtMilestone
  refine .bind (pauseFree_vram hp) fun _ => .bind (waitForMilestoneConsumers_vram hp ht) fun _ => ?_
  refine .withLock (I := fun s => cfg.Paused p t s ∧ s.held = true ∧ s.WaitedTo cfg p t)
    (J := fun h' s => s.At h' t ∧ s.held = true ∧ s.WaitedTo cfg p t) (K := fun _ _ => False)
    (fun s hs => ?_) (.bind (resumeInit_vram hp) fun r => ?_) (fun h' s hs => ?_)
    fun _ _ hs => hs.elim
  · obtain ⟨hpaused, -, hwaited⟩ := hs
    exact ⟨ok_prefill hp trivial, fun _ => ⟨hpaused.withHeld true, rfl, hwaited⟩⟩
  · refine .fix fun s₀ hs₀ => ?_
    obtain ⟨h', rfl, hresumed⟩ := hs₀
    exact .pre resume_vram fun s hs => hs ▸ hresumed
  · obtain ⟨hat, -, hwaited⟩ := hs
    exact ⟨ok_prefill hp trivial, fun _ => ⟨hat.withHeld false, rfl, hwaited⟩⟩

end Pause

/-- A worker whose node has started to execute. -/
structure Ready (s : VramUse) : Prop where
  live : s.live = none
  opened : s.opened = false
  started : s.started = true
  ended : s.ended = false
  held : s.held = false
  signalled : s.signalled = false
  top : s.top = 0

/-- A worker without a context. -/
private def Bare (s : VramUse) : Prop := s.live = none

/-- The first context of the prefiller. -/
private theorem prefillInit_vram (hp : cfg.orchestrator.isPrefill p = true)
    {X : Error → VramUse → Prop} :
    (vramWatch cfg (.worker p)).Spec Ready (perform .llamaInitFromModel)
      (fun r s => ∃ h, r = some h ∧ cfg.Steady p h 0 s) X := by
  refine .op fun s hs => ?_
  have hwaited : s.WaitedTo cfg p 0 := fun t hm _ hle => absurd hm.pos (by omega)
  refine ⟨ok_prefill hp ⟨hs.live, hs.ended, fun ho => ?_, hs.top ▸ hwaited⟩, fun r hr => ?_⟩
  · rw [hs.opened] at ho
    cases ho
  · obtain ⟨h, rfl⟩ := Option.isSome_iff_exists.mp hr
    exact ⟨h, rfl, ⟨rfl, rfl, hs.ended, hs.top⟩, hs.held, hwaited⟩

private theorem prefillFree_vram (hp : cfg.orchestrator.isPrefill p = true) {h t : Nat}
    {X : Error → VramUse → Prop} :
    (vramWatch cfg (.worker p)).Spec (cfg.Steady p h t) (perform (.llamaFree h)) (fun _ => Bare) X :=
  .op fun _ hs => ⟨ok_prefill hp hs.1.live, fun _ _ => rfl⟩

/-- The loop, from the start of the document to its end. -/
private theorem prefillLoop_vram (hp : cfg.orchestrator.isPrefill p = true) {h : Nat}
    {X : Error → VramUse → Prop} :
    (vramWatch cfg (.worker p)).Spec (cfg.Steady p h 0)
      (PrefillNode.prefillLoop cfg.engine (cfg.doc p) (cfg.doc p).length (cfg.doc p).length h 0)
      (fun h' => cfg.Steady p h' (cfg.doc p).length) X :=
  PrefillNode.prefillLoop_spec (J := cfg.Steady p) (K := cfg.Sliced p)
    (L := fun h t s => cfg.Sliced p h t s ∧ cfg.IsMilestone t)
    (fun _ _ hdvd hlt => prefillSlice_vram hp hdvd hlt)
    (fun _ _ _ => isSnapshotMilestone_vram)
    (fun _ _ ht => pauseAtMilestone_vram hp (Int.natCast_pos.mp ht.1))
    _ h 0 (Nat.zero_le _) (fun _ => Nat.dvd_zero _) (Nat.sub_le _ _)

/-- The prefiller with the tokens of its document. -/
private theorem prefillTokens_vram (hp : cfg.orchestrator.isPrefill p = true) {h : Nat}
    {tokens : List LlamaToken} {text : String} {key : String} {t₀ : Int} {nCtx : Nat}
    (hnCtx : nCtx = kSwarmkvDefaultPipelineCtx)
    (hdoc : tokensOf cfg.engine text = some tokens → tokens = cfg.doc p) :
    (vramWatch cfg (.worker p)).Spec
      (fun s => cfg.Steady p h 0 s ∧ tokensOf cfg.engine text = some tokens)
      (if toInt32 tokens.length ≥ toInt32 nCtx then do
          perform (.llamaFree h)
          throw (.documentTooLarge tokens.length nCtx)
        else do
          let total := (toInt32 tokens.length).toNat
          let lctx ← PrefillNode.prefillLoop cfg.engine tokens total total h 0
          perform (.note (.markPrefillComplete lctx))
          PipelineState.markPrefillComplete
          perform (.llamaFree lctx)
          PipelineState.recordTiming key t₀ : Prog Unit)
      (fun _ => Bare) fun _ s => Bare s ∧ kSwarmkvDefaultPipelineCtx ≤ (cfg.doc p).length := by
  have hlimit : toInt32 nCtx = kSwarmkvDefaultPipelineCtx := by rw [hnCtx]; decide
  rw [hlimit]
  generalize hcount : toInt32 tokens.length = count
  refine .assume fun htokens => ?_
  have htotal : count.toNat = (cfg.doc p).length := by
    rw [← hcount, toInt32_of_lt (tokensOf_length htokens), Int.toNat_natCast, hdoc htokens]
  refine .ite (fun hlarge => ?_) fun _ => ?_
  · refine .bind (prefillFree_vram hp) fun _ => .throw fun _ hs => ⟨hs, ?_⟩
    -- the count of a document that is rejected is not negative
    rw [← htotal]
    omega
  rw [htotal, hdoc htokens]
  refine .bind (prefillLoop_vram hp) fun h' => ?_
  refine .bind (Q := fun _ => cfg.Steady p h' (cfg.doc p).length) ?_ fun _ => ?_
  · exact .op fun s hs => ⟨ok_prefill hp trivial, fun _ _ => hs⟩
  refine .bind (Q := fun _ => cfg.Steady p h' (cfg.doc p).length) ?_ fun _ => ?_
  · exact withLock_neutral rfl rfl (.bind (op_neutral' rfl) fun _ => notifyAll_neutral)
  · exact .bind (prefillFree_vram hp) fun _ => recordTiming_vram _ _

/-- A prefiller leaves no context behind, and fails only if its document is too long. -/
private theorem executePrefill_vram {node : PrefillNode} {ctx : OrchestratorContext}
    (hnode : cfg.orchestrator.node p = some (.prefill node)) (hE : ctx.engine = cfg.engine)
    (hnCtx : ctx.nCtx = kSwarmkvDefaultPipelineCtx)
    (htext : Node.Tokenizes cfg.engine (.prefill node)) :
    (vramWatch cfg (.worker p)).Spec Ready (node.execute ctx) (fun _ => Bare)
      fun _ s => Bare s ∧ kSwarmkvDefaultPipelineCtx ≤ (cfg.doc p).length := by
  have hp : cfg.orchestrator.isPrefill p = true := by
    simp [Orchestrator.isPrefill, hnode, Node.isPrefillProvider]
  obtain ⟨text, hread, htokenized⟩ : ∃ text, documentText cfg.engine node.sourceDocumentPath =
      some text ∧ (tokensOf cfg.engine text).isSome := by
    obtain ⟨tokens, htokens⟩ := Option.isSome_iff_exists.mp htext
    obtain ⟨text, hread, htokens⟩ := Option.bind_eq_some_iff.mp htokens
    exact ⟨text, hread, Option.isSome_iff_exists.mpr ⟨tokens, htokens⟩⟩
  unfold PrefillNode.execute
  rw [hE]
  refine .bind (op_neutral' rfl) fun t₀ => .bind (prefillInit_vram hp) fun r => ?_
  refine .fix fun s₀ hs₀ => ?_
  obtain ⟨h, rfl, hsteady⟩ := hs₀
  refine .pre (I := cfg.Steady p h 0) ?_ fun s hs => hs ▸ hsteady
  refine .bind (op_neutral rfl) fun r => .bind bind_vram fun _ => ?_
  -- the document can be read and tokenized
  refine .bind (.noThrow (PrefillNode.loadDocumentText_total (Option.isSome_of_eq_some hread)))
    fun text' => .assume fun hread' => ?_
  obtain rfl := Option.some.inj (hread.symm.trans hread')
  refine .bind (.noThrow (tokenizeWith_total htokenized alloc_vram)) fun tokens => ?_
  refine @prefillTokens_vram cfg p hp h tokens text ctx.nodeName t₀ ctx.nCtx hnCtx fun htokens => ?_
  simp only [doc, hnode, documentTokens, hread, Option.bind_some, htokens, Option.getD_some]

/-! ## The branch -/

private theorem ok_branch (hn : cfg.orchestrator.isPrefill n = false) {s : VramUse}
    {a : Action sig} (h : s.branchAccepts a) : (vramWatch cfg (.worker n)).ok s a := by
  show if cfg.orchestrator.isPrefill n then s.prefillAccepts cfg n a else s.branchAccepts a
  rwa [if_neg (by simp [hn])]

/-- Under the guard, without a context. -/
private def Empty (s : VramUse) : Prop := s.live = none ∧ s.held = true

/-- Under the guard, with a context. -/
private def Full (h : Nat) (s : VramUse) : Prop := s.live = some h ∧ s.held = true

private theorem init_vram (hn : cfg.orchestrator.isPrefill n = false)
    {X : Error → VramUse → Prop} :
    (vramWatch cfg (.worker n)).Spec Empty (perform .llamaInitFromModel)
      (fun r s => ∃ h, r = some h ∧ Full h s) X := by
  refine .op fun s hs => ⟨ok_branch hn ⟨hs.2, hs.1⟩, fun r hr => ?_⟩
  obtain ⟨h, rfl⟩ := Option.isSome_iff_exists.mp hr
  exact ⟨h, rfl, rfl, hs.2⟩

private theorem free_vram (hn : cfg.orchestrator.isPrefill n = false) {h : Nat}
    {X : Error → VramUse → Prop} :
    (vramWatch cfg (.worker n)).Spec (Full h) (perform (.llamaFree h)) (fun _ => Empty) X :=
  .op fun _ hs => ⟨ok_branch hn hs.1, fun _ _ => ⟨rfl, hs.2⟩⟩

/-- The context that sizes a buffer is freed at once. -/
private theorem getRequiredKvSize_vram (hn : cfg.orchestrator.isPrefill n = false) (nCtx : Nat)
    {X : Error → VramUse → Prop} :
    (vramWatch cfg (.worker n)).Spec Empty (MemoryPool.getRequiredKvSize nCtx) (fun _ => Empty) X := by
  unfold MemoryPool.getRequiredKvSize
  refine .bind (init_vram hn) fun r => .fix fun s₀ hs₀ => ?_
  obtain ⟨h, rfl, hfull⟩ := hs₀
  refine .pre (I := Full h) ?_ fun s hs => hs ▸ hfull
  exact .bind (op_neutral' rfl) fun sz => .bind (free_vram hn) fun _ => .ret fun _ hs => hs

private theorem allocateBranchCache_vram (hn : cfg.orchestrator.isPrefill n = false) (nCtx : Nat) :
    (vramWatch cfg (.worker n)).Spec Empty (MemoryPool.allocateBranchCache nCtx) (fun _ => Empty)
      fun _ => Empty := by
  refine withLock_neutral rfl rfl (.bind (getRequiredKvSize_vram hn nCtx) fun kvSize => ?_)
  refine .bind (op_neutral' rfl) fun r => ?_
  cases r with
  | none => exact .throw fun _ hs => hs
  | some b => exact .bind alloc_vram fun _ => .bind (op_neutral' rfl) fun _ => .ret fun _ hs => hs

private theorem materializeFork_vram (hn : cfg.orchestrator.isPrefill n = false)
    (node : AnalyticalNode) (ctx : OrchestratorContext) (fork : AnalyticalNode.Fork) :
    (vramWatch cfg (.worker n)).Spec Empty (node.materializeFork ctx fork) (fun _ => Empty)
      fun _ => Empty := by
  unfold AnalyticalNode.materializeFork
  refine .ite (fun _ => ?_) fun _ => .ret fun _ hs => hs
  cases fork.data with
  | none => exact .throw fun _ hs => hs
  | some data =>
    refine .bind (allocateBranchCache_vram hn ctx.nCtx) fun b => .bind (op_neutral' rfl) fun s => ?_
    refine .ite (fun _ => ?_) fun _ => ?_
    · -- the canonical export is copied
      refine .bind (uses_neutral (KVHandoff.materializeBranchCache_uses _ _ _) fun a ha => ?_)
        fun _ => .ret fun _ hs => hs
      cases ha <;> rfl
    · -- a snapshot is copied
      refine .bind (op_neutral' rfl) fun size => .ite (fun _ => .throw fun _ hs => hs) fun _ => ?_
      exact .bind (op_neutral' rfl) fun _ => .bind (op_neutral' rfl) fun _ => .ret fun _ hs => hs

/-- There is a buffer to bind the branch context to. -/
private theorem bindTarget_vram {h : Nat} (branchBuf : Option Nat) {X : Error → VramUse → Prop} :
    (vramWatch cfg (.worker n)).Spec (Full h) (AnalyticalNode.bindTargetOf branchBuf)
      (fun target s => Full h s ∧ target.isSome) X := by
  cases branchBuf with
  | some b => exact .ret fun s hs => ⟨hs, rfl⟩
  | none => exact .bind (op_neutral rfl) fun r => .ret fun s hs => ⟨hs.1, hs.2.2.1⟩

private theorem bindBranch_vram {h : Nat} (target : Option Nat) {X : Error → VramUse → Prop} :
    (vramWatch cfg (.worker n)).Spec (fun s => Full h s ∧ target.isSome)
      (KVHandoff.bindContiguousCache (some h) target) (fun _ => Full h) X := by
  unfold KVHandoff.bindContiguousCache
  refine .ite (fun hnone => .fix fun s hs => ?_) fun _ => .ret fun s hs => hs.1
  rw [Option.isNone_some, Bool.false_eq_true, false_or, Option.isNone_iff_eq_none] at hnone
  rw [hnone] at hs
  cases hs.2

/-- A prompt that is rejected costs the branch its context. -/
private theorem preparePrompt_vram (hn : cfg.orchestrator.isPrefill n = false)
    {node : AnalyticalNode} {ctx : OrchestratorContext}
    (htext : Node.Tokenizes ctx.engine (.analytical node)) (h : Nat) (branchBuf : Option Nat)
    (fork : AnalyticalNode.Fork) :
    (vramWatch cfg (.worker n)).Spec (Full h) (node.preparePrompt ctx h branchBuf fork)
      (fun _ => Full h) fun _ => Empty := by
  have htokenize : (vramWatch cfg (.worker n)).Spec (Full h)
      (AnalyticalNode.tokenizeText ctx.engine node.branchPrompt) (fun _ => Full h) fun _ => Empty :=
    .noThrow (.post (tokenizeWith_total htext alloc_vram) fun _ _ hs => hs.1)
  have hbudget : (vramWatch cfg (.worker n)).Spec (Full h)
      (swarmkvValidateContextBudget ctx.engine fork.prefixLen [node.branchPrompt] ctx.nCtx)
      (fun _ => Full h) fun _ => Full h :=
    uses_neutral (swarmkvValidateContextBudget_uses _ _ _ _) fun a ha => by cases ha <;> rfl
  have hreject : ∀ {α : Type} (e : Error), (vramWatch cfg (.worker n)).Spec (Full h)
      (perform (.llamaFree h) >>= fun _ => throw e : Prog α) (fun _ => Full h) fun _ => Empty :=
    fun e => .bind (free_vram hn) fun _ => .throw fun _ hs => hs
  unfold AnalyticalNode.preparePrompt
  refine .bind (bindTarget_vram branchBuf) fun target => .bind (bindBranch_vram target) fun _ => ?_
  refine .bind htokenize fun tokens => ?_
  refine .ite (fun _ => hreject _) fun _ => ?_
  refine .bind (Q := fun _ => Full h) (.catch' hbudget fun e => hreject _) fun _ => ?_
  exact .ret fun _ hs => hs

private theorem decodePrompt_vram (hn : cfg.orchestrator.isPrefill n = false)
    (node : AnalyticalNode) (ctx : OrchestratorContext) (h : Nat) (tokens : List LlamaToken)
    (fork : AnalyticalNode.Fork) :
    (vramWatch cfg (.worker n)).Spec (Full h) (node.decodePrompt ctx h tokens fork)
      (fun _ => Empty) fun _ => Empty := by
  have hpublish : (vramWatch cfg (.worker n)).Spec (Full h)
      (node.publishOutput ctx.nodeName tokens.length fork) (fun _ => Full h) fun _ => Empty :=
    withLock_neutral rfl rfl (.bind alloc_vram fun _ => op_neutral' rfl)
  unfold AnalyticalNode.decodePrompt
  refine .bind (op_neutral' rfl) fun id => .bind (Q := fun _ => Full h) ?_ fun ok => ?_
  · exact .op fun s hs => ⟨ok_branch hn trivial, fun _ _ => hs⟩
  refine .ite (fun _ => ?_) fun _ => ?_
  · exact .bind hpublish fun _ => .bind (op_neutral' rfl) fun _ => free_vram hn
  · exact .bind (op_neutral' rfl) fun _ => .bind (free_vram hn) fun _ => .throw fun _ hs => hs

private theorem restoreFork_vram (hn : cfg.orchestrator.isPrefill n = false) (h : Nat)
    (fork : AnalyticalNode.Fork) (branchBuf : Option Nat) :
    (vramWatch cfg (.worker n)).Spec (Full h) (AnalyticalNode.restoreFork h fork branchBuf)
      (fun _ => Full h) fun _ => Empty := by
  cases branchBuf with
  | none => exact .ret fun _ hs => hs
  | some b =>
    refine .bind (op_neutral' rfl) fun n' => .ite (fun _ => ?_) fun _ => .ret fun _ hs => hs
    exact .bind (free_vram hn) fun _ => .throw fun _ hs => hs

private theorem signalMilestoneConsumed_vram (hn : cfg.orchestrator.isPrefill n = false)
    (tokenCount : Int) :
    (vramWatch cfg (.worker n)).Spec Empty (PipelineState.signalMilestoneConsumed tokenCount)
      (fun _ => Empty) fun _ => Empty := by
  refine .of_uses (PipelineState.signalMilestoneConsumed_uses _) fun a ha => ?_
  cases ha with
  | consumeMilestone => exact fun s hs => ⟨ok_branch hn trivial, fun _ _ => hs⟩
  | _ => exact keeps_neutral rfl

private theorem forkAndDecode_vram (hn : cfg.orchestrator.isPrefill n = false)
    {node : AnalyticalNode} {ctx : OrchestratorContext}
    (htext : Node.Tokenizes ctx.engine (.analytical node)) :
    (vramWatch cfg (.worker n)).Spec Empty (node.forkAndDecode ctx) (fun _ => Empty)
      fun _ => Empty := by
  unfold AnalyticalNode.forkAndDecode
  refine .bind (op_neutral' rfl) fun t₀ => .ite (fun _ => .throw fun _ hs => hs) fun _ => ?_
  refine .bind (uses_neutral AnalyticalNode.chooseFork_uses fun a ha => by cases ha <;> rfl)
    fun fork => ?_
  refine .bind (materializeFork_vram hn node ctx fork) fun branchBuf => ?_
  refine .bind (op_neutral' rfl) fun _ => .bind (init_vram hn) fun r => .fix fun s₀ hs₀ => ?_
  obtain ⟨h, rfl, hfull⟩ := hs₀
  refine .pre (I := Full h) ?_ fun s hs => hs ▸ hfull
  -- each step keeps the context, or frees it and throws
  refine .bind (restoreFork_vram hn h fork branchBuf) fun _ => ?_
  refine .bind (preparePrompt_vram hn htext h branchBuf fork) fun tokens => ?_
  refine .bind (decodePrompt_vram hn node ctx h tokens fork) fun _ => ?_
  refine .ite (fun _ => ?_) fun _ => recordTiming_vram _ _
  exact .bind (signalMilestoneConsumed_vram hn _) fun _ => recordTiming_vram _ _

/-- A branch leaves no context behind. -/
private theorem executeBranch_vram {node : AnalyticalNode} {ctx : OrchestratorContext}
    (hnode : cfg.orchestrator.node n = some (.analytical node))
    (htext : Node.Tokenizes ctx.engine (.analytical node)) :
    (vramWatch cfg (.worker n)).Spec Ready (node.execute ctx) (fun _ => Bare) fun _ => Bare := by
  have hn : cfg.orchestrator.isPrefill n = false := by
    simp [Orchestrator.isPrefill, hnode, Node.isPrefillProvider]
  refine .withLock (fun s hs => ?_) (forkAndDecode_vram hn htext) (fun _ s hs => ?_) fun _ s hs => ?_
  · exact ⟨ok_branch hn ⟨hs.started, hs.signalled, hs.live⟩, fun _ => ⟨hs.live, rfl⟩⟩
  · exact ⟨ok_branch hn hs.1, fun _ => hs.1⟩
  · exact ⟨ok_branch hn hs.1, fun _ => hs.1⟩

/-- How a worker ends, as far as its observer cares. -/
private def EndsWell (cfg : Pipeline) (n : String) (r : Outcome) (s : VramUse) : Prop :=
  Bare s ∧ (cfg.orchestrator.isPrefill n = true →
    r = .ok () ∨ kSwarmkvDefaultPipelineCtx ≤ (cfg.doc n).length)

/-- A worker whose text can be tokenized does with its contexts what its observer accepts. -/
theorem worker_vram (htext : ∀ node, cfg.orchestrator.node n = some node →
    node.Tokenizes cfg.engine) :
    (vramWatch cfg (.worker n)).Spec (· = {}) (cfg.orchestrator.worker cfg.engine n)
      (fun _ _ => True) fun _ _ => True := by
  have hok : ∀ {s : VramUse} {a : Action sig}, s.prefillAccepts cfg n a → s.branchAccepts a →
      (vramWatch cfg (.worker n)).ok s a := by
    intro s a hprefill hbranch
    show if cfg.orchestrator.isPrefill n then _ else _
    split
    · exact hprefill
    · exact hbranch
  have hgate : ∀ node, cfg.orchestrator.node n = some node → (vramWatch cfg (.worker n)).Spec (· = {})
      (cfg.orchestrator.awaitDependencies node.requiredPrefixTokens
        (cfg.orchestrator.getDependenciesForNode n)) (fun _ => (· = {})) fun _ => Bare := by
    intro node _
    refine .err (uses_neutral (Orchestrator.awaitDependencies_uses _ _) fun a ha => ?_) fun _ s hs => ?_
    · cases ha <;> rfl
    · rw [hs]
      rfl
  have hnode : ∀ node (ctx : OrchestratorContext), cfg.orchestrator.node n = some node →
      ctx.engine = cfg.engine → ctx.nCtx = kSwarmkvDefaultPipelineCtx → ctx.nodeName = n →
      (vramWatch cfg (.worker n)).Spec Ready (node.execute ctx) (fun _ => cfg.EndsWell n (.ok ()))
        fun e => cfg.EndsWell n (.error e) := by
    intro node ctx hn hE hnCtx _
    have htext := htext node hn
    cases node with
    | prefill node =>
      refine .conseq (executePrefill_vram hn hE hnCtx htext) (fun _ hs => hs) (fun _ _ hs => ?_)
        fun _ _ hs => ⟨hs.1, fun _ => .inr hs.2⟩
      exact ⟨hs, fun _ => .inl rfl⟩
    | analytical node =>
      -- nothing more is asked of a branch
      have hbranch : cfg.orchestrator.isPrefill n ≠ true := by
        simp [Orchestrator.isPrefill, hn, Node.isPrefillProvider]
      refine .conseq (executeBranch_vram hn (hE ▸ htext)) (fun _ hs => hs) (fun _ _ hs => ?_)
        fun _ _ hs => ⟨hs, fun h => absurd h hbranch⟩
      exact ⟨hs, fun h => absurd h hbranch⟩
  refine .conseq (I := (· = {})) (J := fun _ => Bare) (K := fun _ => Bare)
    (Orchestrator.workerAt_outcome_spec (I := (· = {})) (J := Ready) (Q := cfg.EndsWell n)
      (fun s hs => ?_) hgate (fun s hs => ?_) (fun q s hs => ?_)
      (fun _ => keeps_neutral rfl) (fun _ => keeps_neutral rfl) (fun t a ha => ?_) hnode)
    (fun _ hs => hs) (fun _ _ _ => trivial) fun _ _ _ => trivial
  · rw [hs]
    rfl
  · subst hs
    exact ⟨hok trivial trivial, fun _ _ => ⟨rfl, rfl, rfl, rfl, rfl, rfl, rfl⟩⟩
  · -- the end of `execute()`
    refine ⟨?_, fun _ _ => hs.1⟩
    show if cfg.orchestrator.isPrefill n then _ else _
    split
    · exact ⟨hs.1, hs.2 ‹_›⟩
    · trivial
  · cases ha with
    | consumeMilestone => exact fun s hs => ⟨hok trivial trivial, fun _ _ => hs⟩
    | _ => exact keeps_neutral rfl

/-- All texts of the pipeline can be tokenized. -/
def Tokenizes (cfg : Pipeline) : Prop :=
  ∀ n node, cfg.orchestrator.node n = some node → node.Tokenizes cfg.engine

/-- The threads of a pipeline do with their contexts what their observers accept. -/
theorem program_vram (htext : cfg.Tokenizes) (i : Thread) :
    (vramWatch cfg i).Meets (cfg.program i) (fun _ _ => True) {} :=
  cfg.program_meets (A := vramWatch cfg) (fun _ ha _ _ => ⟨ha, fun _ _ => trivial⟩)
    (fun n _ => worker_vram (htext n)) i

end Pipeline

end SwarmKV

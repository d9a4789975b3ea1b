import SwarmKV.Spec.Sequential
import SwarmKV.Spec.View

/-!
# Threads that follow the sequential program

The rules of this module are about a graph with one provider `p`, when llama.cpp answers as `D`
says and no allocation fails. The provider then files the snapshots of `Calls.provided`, in that
order, and has published what it has filed whenever it gives the guard away. Each worker ends with
the result that `Calls.result` has for its node.
-/

namespace SwarmKV

open Monitor

/-- What a thread knows, but for what it has merely looked at. -/
def View.bare (s : View) : View :=
  { s with found := none, last := none, restored := [], watermark := 0 }

namespace Pipeline

/-- All that the provider `p` has filed is published, and it has filed all snapshots up to its last
    commit. -/
structure AllPublished (cfg : Pipeline) (D : Calls) (p : String) (s : View) : Prop where
  exported : s.exported = none
  seqLen : s.seqLen = (Calls.lastFiled s.filed).1
  serialBytes : s.serialBytes = (Calls.lastFiled s.filed).2.length
  filed : ∀ t ≤ s.top, (D.provided cfg p).filed.lookup t = s.filed.lookup t

/-- The rules, on top of those of every thread. -/
def scheduleRule (cfg : Pipeline) (D : Calls) (p : String) (i : Thread) (s : View) :
    Action sig → Prop
  | .unlock .llamaApiMutex => i = .worker p → cfg.AllPublished D p s
  | .op (.note (.commitWatermark _ t)) => i = .worker p ∧ s.held = true ∧ s.top < t
  | .op (.setWatermark t) => i = .worker p ∧ s.held = true ∧ t = s.top
  | .op (.setPrefixSeqLen _) => i = .worker p
  | .op (.setPrefixKvSerialBytes _) => i = .worker p
  | .op (.llamaStateSeqGetData _ _ _ _) => i = .worker p ∧ s.cells.isSome
  | .op (.putSnapshot _ data) => i = .worker p ∧ s.settled = false ∧
    (data ≠ [] → ∀ b, cfg.stagingBuffer = some b → s.last = some (.buffer b, data.length, data))
  | .op (.putOutput key value) => i = .worker key ∧ s.held = true ∧
    D.result cfg p key = (.ok (), some value)
  | .op (.setPromise n r) => i = .worker n ∧ s.held = false ∧ s.settled = false ∧
    (n = p → s.filed = (D.provided cfg p).filed) ∧ r = (D.result cfg p n).1
  | .op (.setTask n r) => (r, s.output) = D.result cfg p n
  | _ => True

/-- What `r` shows of the snapshots and of the canonical export: to `p` what it has `filed`, and to
    a branch what it forks from. -/
structure Shows (cfg : Pipeline) (D : Calls) (p : String) (i : Thread)
    (filed : List (Int × List UInt8)) (r : PipelineState) : Prop where
  own : i = .worker p → ∀ t, r.prefixSnapshots t = (filed.lookup t).map (⟨·, t⟩)
  snapshot : ∀ n, i = .worker n → n ≠ p → 0 ≤ cfg.orchestrator.req n →
    r.prefixSnapshots (cfg.orchestrator.req n) =
      ((D.provided cfg p).filed.lookup (cfg.orchestrator.req n)).map (⟨·, cfg.orchestrator.req n⟩)
  canonical : ∀ n, i = .worker n → n ≠ p → cfg.orchestrator.req n < 0 →
    (r.prefixSeqLen, r.prefixKvSerialBytes) = ((Calls.lastFiled (D.provided cfg p).filed).1,
      (Calls.lastFiled (D.provided cfg p).filed).2.length)

/-- What the threads expect of the answers: those of `D`, no failed allocation, and snapshots that
    belong to what the provider files. -/
def scheduleAnswer (cfg : Pipeline) (D : Calls) (p : String) (i : Thread) (s : View) :
    (a : Action sig) → a.Res → Prop
  | .op .allocate, r => r = true
  | .op .llamaInitFromModel, r => Option.isSome r = true
  | .op (.allocBuffer _), r => Option.isSome r = true
  | .op (.llamaStateGetSize _ nCtx), r => r = cfg.engine.llamaStateGetSize nCtx
  | .op (.llamaDecode _ batch), r => ∀ cells, s.cells = some cells →
    r = D.decodes cells batch
  | .op (.llamaStateSeqGetData _ _ cap seq), r => ∀ cells, s.cells = some cells →
    cfg.engine.llamaStateSeqGetSize (seqState seq cells) ≤ cap →
      r = (D.getData (seqState seq cells)).length
  | .op (.llamaStateSeqSetData _ q k _), r => ∀ cells, s.cells = some cells →
    r = if D.setData cells (s.bytesAt q k) then (s.bytesAt q k).length else 0
  | .op (.bufferSize b), r => s.held = true → cfg.stagingBuffer = some b → cfg.staging = some r
  | .op (.readBytes (.buffer b) k), r => cfg.stagingBuffer = some b → ∀ n, i = .worker n → n ≠ p →
    cfg.orchestrator.req n < 0 → k = (Calls.lastFiled (D.provided cfg p).filed).2.length →
      r = (Calls.lastFiled (D.provided cfg p).filed).2
  | .op .load, r => (r : PipelineState).snapshotMilestones =
      cfg.registeredState.snapshotMilestones ∧ (s.held = true → cfg.Shows D p i s.filed r)
  | .op (.setPromise _ _), r => r = true
  | _, _ => True

/-- The observer of threads that follow the sequential program. -/
abbrev scheduleWatch (cfg : Pipeline) (D : Calls) (p : String) : Thread → Observer sig View :=
  viewWatch cfg cfg.stagingBuffer (cfg.scheduleRule D p) (cfg.scheduleAnswer D p)

variable {cfg : Pipeline} {D : Calls} {p n : String} {h t : Nat} {s : View} {C : View}
  {I : View → Prop} {X : Error → View → Prop}

theorem scheduleRule_lenient : Lenient (cfg.scheduleRule D p) := by
  intro i s a ha
  cases a with
  | op o =>
    cases o with
    | note e => cases e <;> trivial
    | _ => trivial
  | unlock l => cases l <;> trivial
  | _ => trivial

/-! ## What both kinds of nodes do -/

/-- Memory does not run out. -/
theorem alloc_schedule :
    (cfg.scheduleWatch D p (.worker n)).Spec I alloc (fun _ => I) X := by
  refine .bind (scheduleRule_lenient.op rfl) fun r => .ite (fun _ => ?_) fun hr => ?_
  · exact .ret fun _ hs => hs.1
  · exact .throw fun _ hs => absurd hs.2.2 hr

/-- A thread without a context creates one. -/
theorem initContext_schedule (hC : C.ctx = none) :
    (cfg.scheduleWatch D p (.worker n)).Spec (·.bare = C) (perform .llamaInitFromModel)
      (fun r s => ∃ h, r = some h ∧ s.bare = { C with ctx := some h, cells := some [] }) X := by
  refine .op fun s hs => ?_
  have hctx : s.ctx = none := (congrArg View.ctx hs :).trans hC
  refine ⟨⟨hctx, trivial⟩, fun r hr => ?_⟩
  obtain ⟨h, rfl⟩ := Option.isSome_iff_exists.mp hr.2
  have hnext := congrArg (fun v : View => ({ v with ctx := some h, cells := some [] } : View)) hs
  exact ⟨h, rfl, hnext⟩

/-- A thread frees its context. -/
theorem freeContext_schedule (hC : C.ctx = some h) :
    (cfg.scheduleWatch D p (.worker n)).Spec (·.bare = C) (perform (.llamaFree h))
      (fun _ s => s.bare = { C with ctx := none, cells := none }) X := by
  refine .op fun s hs => ?_
  have hctx : s.ctx = some h := (congrArg View.ctx hs :).trans hC
  have hnext := congrArg (fun v : View => ({ v with ctx := none, cells := none } : View)) hs
  exact ⟨⟨hctx, trivial⟩, fun _ _ => hnext⟩

/-- `data` is restored from `q` into an empty context, as far as llama.cpp takes it. -/
theorem seqSetData_schedule {q : DataPtr} {data : List UInt8} (hctx : C.ctx = some h)
    (hheld : C.held = true) (hcells : C.cells = some []) (hne : data ≠ []) :
    (cfg.scheduleWatch D p (.worker n)).Spec
      (fun s => s.bare = C ∧ s.Knows q ∧ s.bytesAt q data.length = data)
      (perform (.llamaStateSeqSetData h q data.length kSwarmkvPrefixSeqId))
      (fun nr s => if nr = data.length then
          s.bare = { C with cells := some ((cfg.engine.restore data).elim []
            (restoreSeq kSwarmkvPrefixSeqId · [])) } ∧ D.setData [] data = true
        else s.bare = C ∧ D.setData [] data = false) X := by
  refine .op fun s hs => ?_
  obtain ⟨hbare, hknows, hbytes⟩ := hs
  have hctx' : s.ctx = some h := (congrArg View.ctx hbare :).trans hctx
  have hheld' : s.held = true := (congrArg View.held hbare :).trans hheld
  have hcells' : s.cells = some [] := (congrArg View.cells hbare :).trans hcells
  refine ⟨⟨⟨hctx', hheld', hknows⟩, trivial⟩, fun nr hnr => ?_⟩
  have hnr := hnr.2 [] hcells'
  rw [hbytes] at hnr
  have hpos : data.length ≠ 0 := fun hzero => hne (List.length_eq_zero_iff.mp hzero)
  have hstep : (cfg.scheduleWatch D p (.worker n)).next s
      (.op (.llamaStateSeqSetData h q data.length kSwarmkvPrefixSeqId)) nr =
        if nr = 0 then s else s.restore cfg.engine q data.length kSwarmkvPrefixSeqId :=
    View.next_restore (by rwa [hbytes]) h kSwarmkvPrefixSeqId nr
  rw [hstep]
  cases hset : D.setData [] data with
  | true =>
    -- the cells of `data` are appended to none
    rw [hset, if_pos rfl] at hnr
    rw [hnr, if_pos rfl, if_neg hpos]
    refine ⟨?_, rfl⟩
    have hnext := congrArg (fun v : View => ({ v with
      cells := v.cells.map fun cells => (cfg.engine.restore data).elim cells
        (restoreSeq kSwarmkvPrefixSeqId · cells) } : View)) hbare
    simp only [View.restore, hbytes, if_neg hne]
    refine hnext.trans ?_
    rw [hcells, Option.map_some]
  | false =>
    -- nothing is restored
    rw [hset, if_neg Bool.false_ne_true] at hnr
    rw [hnr, if_pos rfl, if_neg (Ne.symm hpos)]
    exact ⟨hbare, rfl⟩

/-- What is known of a blackboard that a thread with view `C` has looked at. -/
structure Looked (cfg : Pipeline) (D : Calls) (p n : String) (C : View) (r : PipelineState) :
    Prop where
  staging : r.materializedBranchBuffer = cfg.stagingBuffer
  milestones : r.snapshotMilestones = cfg.registeredState.snapshotMilestones
  shows : C.held = true → cfg.Shows D p (.worker n) C.filed r

/-- A look at the blackboard, under the guard. -/
theorem load_found (hC : C.held = true) :
    (cfg.scheduleWatch D p (.worker n)).Spec (·.bare = C) (perform .load)
      (fun r s => (s.bare = C ∧ s.found = some r) ∧ cfg.Looked D p n C r) X := by
  refine .op fun s hs => ⟨⟨trivial, trivial⟩, fun r hr => ?_⟩
  subst hs
  have hheld : s.held = true := hC
  show (View.bare (s.next cfg.engine (.op .load) r) = s.bare ∧
    (s.next cfg.engine (.op .load) r).found = some r) ∧ cfg.Looked D p n s.bare r
  rw [View.next_load hheld]
  exact ⟨⟨rfl, rfl⟩, hr.1.1, hr.2.1, fun _ => hr.2.2 hheld⟩

theorem load_schedule :
    (cfg.scheduleWatch D p (.worker n)).Spec (·.bare = C) (perform .load)
      (fun r s => s.bare = C ∧ cfg.Looked D p n C r) X := by
  refine .op fun s hs => ⟨⟨trivial, trivial⟩, fun r hr => ?_⟩
  subst hs
  refine ⟨?_, hr.1.1, hr.2.1, fun hC => hr.2.2 hC⟩
  show View.bare (if s.held then { s with found := some r } else s) = s.bare
  split <;> rfl

/-- A text is tokenized as often as it takes. -/
theorem tokenizeWith_schedule {failure : Error} {E : Engine} {text : String} :
    (cfg.scheduleWatch D p (.worker n)).Spec I (tokenizeWith failure E text)
      (fun tokens s => I s ∧ tokensOf E text = some tokens)
      fun e s => I s ∧ e = failure ∧ tokensOf E text = none := by
  unfold tokenizeWith
  refine .bind alloc_schedule fun _ => ?_
  refine .ite (fun hneg => .bind alloc_schedule fun _ => ?_) fun hpos => ?_
  · refine .ite (fun hneg' => .throw fun s hs => ⟨hs, rfl, ?_⟩) fun hpos => .ret fun s hs => ⟨hs, ?_⟩
    · simp only [tokensOf, hneg, if_true, hneg']
    · simp only [tokensOf, hneg, if_true, hpos, if_false]
  · refine .ret fun s hs => ⟨hs, ?_⟩
    simp only [tokensOf, hpos, if_false]

/-- A document is read, or it cannot be. -/
theorem loadDocumentText_schedule {E : Engine} {path : String} :
    (cfg.scheduleWatch D p (.worker n)).Spec I (PrefillNode.loadDocumentText E path)
      (fun text s => I s ∧ documentText E path = some text)
      fun e s => I s ∧ e = .documentUnreadable ∧ documentText E path = none := by
  unfold PrefillNode.loadDocumentText documentText
  cases E.readFile path with
  | missing => exact .ret fun s hs => ⟨hs, rfl⟩
  | unreadable => exact .throw fun s hs => ⟨hs, rfl, rfl⟩
  | contents text => exact .ret fun s hs => ⟨hs, rfl⟩

theorem signalMilestoneConsumed_schedule (tokenCount : Int) :
    (cfg.scheduleWatch D p (.worker n)).Spec I (PipelineState.signalMilestoneConsumed tokenCount)
      (fun _ => I) X := by
  unfold PipelineState.signalMilestoneConsumed
  refine .ite (fun _ => .ret fun _ hs => hs) fun _ => ?_
  refine .noThrow (scheduleRule_lenient.withLock rfl rfl ?_)
  refine .bind (scheduleRule_lenient.op' rfl) fun left => ?_
  cases left with
  | none => exact .ret fun _ hs => hs
  | some left =>
    refine .ite (fun _ => ?_) fun _ => .ret fun _ hs => hs
    exact .notifyAll fun s hs => ⟨⟨trivial, trivial⟩, fun _ => hs⟩

theorem recordTiming_schedule (key : String) (t₀ : Int) :
    (cfg.scheduleWatch D p (.worker n)).Spec I (PipelineState.recordTiming key t₀) (fun _ => I) X := by
  refine .bind (scheduleRule_lenient.op' rfl) fun _ => ?_
  refine .noThrow (scheduleRule_lenient.withLock rfl rfl ?_)
  exact .bind alloc_schedule fun _ => scheduleRule_lenient.op' rfl

/-- A lookup under the guard. -/
theorem tryGetPrefixSnapshot_schedule {u : Int} (hC : C.held = true) :
    (cfg.scheduleWatch D p (.worker n)).Spec (·.bare = C) (PipelineState.tryGetPrefixSnapshot u)
      (fun a s => ∃ r, s.bare = C ∧ s.found = some r ∧ cfg.Looked D p n C r ∧
        a = (r.prefixSnapshots u).map fun snap => (if snap.data.isEmpty then none
          else some (.snapshot u), snap.data.length, snap.seqLen)) X := by
  refine .noThrow (scheduleRule_lenient.withLock rfl rfl ?_)
  refine .bind (load_found hC) fun r => .assume fun hr => ?_
  split
  · rename_i hnone
    exact .ret fun s hs => ⟨r, hs.1, hs.2, hr, by simp [hnone]⟩
  · rename_i snap hsome
    exact .ret fun s hs => ⟨r, hs.1, hs.2, hr, by simp [hsome]⟩

/-- `execute()` of node `n` has ended, with `r`, and so has the node in the sequential program. -/
structure NodeEnded (cfg : Pipeline) (D : Calls) (p n : String) (r : Outcome) (s : View) :
    Prop where
  held : s.held = false
  live : s.done = false
  settled : s.settled = false
  result : (r, s.output) = D.result cfg p n
  filed : n = p → s.filed = (D.provided cfg p).filed

end Pipeline

end SwarmKV

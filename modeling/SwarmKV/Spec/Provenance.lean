import SwarmKV.Spec.View

/-!
# Where a fork comes from

The rules of this module are about the snapshots of one provider `p` up to one watermark `W`. A
provider commits increasing positions of its document, and files a milestone once, right after
it has committed it; what `p` files is its export of the document up to there, if its context
has held the document up to there each time. A branch that forks at `W` decodes behind the
snapshot that it has found there.
-/

namespace SwarmKV.Pipeline

open Monitor

/-- What `p` files is its own export. -/
structure OwnExport (cfg : Pipeline) (p : String) (x : Int × List UInt8) : Prop where
  exports : cfg.engine.exports (docSeq (cfg.doc p) x.1.toNat) x.2 = true
  ne_nil : x.2 ≠ []

/-- The rules, on top of those of every thread. -/
def provenanceRule (cfg : Pipeline) (staging : Option Nat) (p : String) (W : Int) (i : Thread)
    (s : View) : Action sig → Prop
  | .op (.note (.commitWatermark _ t)) => ∃ n, i = .worker n ∧ cfg.orchestrator.isPrefill n = true ∧
    CommitValue (cfg.doc n).length t ∧ s.top < t
  | .op (.putSnapshot t data) => ∃ n, i = .worker n ∧ t = s.top ∧ cfg.IsMilestone t ∧
    (∀ x ∈ s.filed, x.1 < t) ∧ (n = p → t ≤ W → ∃ b k, staging = some b ∧
      s.last = some (.buffer b, k, data) ∧ s.exported = some (docSeq (cfg.doc p) t.toNat, k) ∧
      data ≠ [])
  | .op (.llamaDecode _ _) => ∀ n, i = .worker n → cfg.orchestrator.req n = W →
    s.held = true ∧ ∃ r snap, s.found = some r ∧ r.prefixSnapshots W = some snap ∧
      s.restored = [snap.data]
  | _ => True

/-- What the threads expect of the answers: the milestones are those of the pipeline, nobody has
    touched what `p` has filed, the snapshot at `W` is not empty, and an export that fits is not
    empty either. -/
def provenanceAnswer (cfg : Pipeline) (p : String) (W : Int) (i : Thread) (s : View) :
    (a : Action sig) → a.Res → Prop
  | .op .load, r => (∀ t, t ∈ (r : PipelineState).snapshotMilestones ↔ cfg.IsMilestone t) ∧
    (s.held = true → (∀ snap, r.prefixSnapshots W = some snap → snap.data ≠ []) ∧
      (i = .worker p → ∀ x ∈ s.filed, x.1 ≤ W →
        (r.prefixSnapshots x.1).map (·.data) = some x.2))
  | .op (.llamaStateSeqGetData _ _ cap seq), r => ∀ cells, s.cells = some cells →
    seqState seq cells ≠ [] → cfg.engine.llamaStateSeqGetSize (seqState seq cells) ≤ cap →
    r ≠ (0 : Nat)
  | _, _ => True

/-- The observer of where forks come from. -/
abbrev provenanceWatch (cfg : Pipeline) (staging : Option Nat) (p : String) (W : Int) :
    Thread → Observer sig View :=
  viewWatch cfg staging (cfg.provenanceRule staging p W) (cfg.provenanceAnswer p W)

variable {cfg : Pipeline} {staging : Option Nat} {p n : String} {W : Int} {b h t : Nat}
  {s : View} {I : View → Prop} {X : Error → View → Prop}

theorem provenanceRule_lenient : Lenient (cfg.provenanceRule staging p W) := by
  intro i s a ha
  cases a with
  | op o =>
    cases o with
    | note e => cases e <;> trivial
    | putSnapshot => cases ha
    | llamaDecode => cases ha
    | _ => trivial
  | _ => trivial

/-- A thread that has not ended. -/
def Alive (held : Bool) (s : View) : Prop := s.held = held ∧ s.done = false

/-- Nothing has changed but what the thread knows of the blackboard and of buffers. -/
structure SamePlace (s s' : View) : Prop where
  held : s'.held = s.held
  live : s'.done = s.done
  ctx : s'.ctx = s.ctx
  cells : s'.cells = s.cells
  filed : s'.filed = s.filed
  top : s'.top = s.top
  restored : s'.restored = s.restored

theorem samePlace_found (s : View) (r : PipelineState) :
    SamePlace s { s with found := some r } :=
  ⟨rfl, rfl, rfl, rfl, rfl, rfl, rfl⟩

/-- An operation on the blackboard or on a buffer that files nothing. -/
def peripheral : Op → Bool
  | .setWatermark _ => true
  | .setPrefixSeqLen _ => true
  | .setPrefixKvSerialBytes _ => true
  | .llamaStateSeqGetData _ _ _ _ => true
  | .readBytes _ _ => true
  | .allocBuffer _ => true
  | .writeBytes _ _ => true
  | _ => false

theorem samePlace_next {o : Op} (ho : peripheral o = true) {i : Thread}
    {r : (Action.op o : Action sig).Res} :
    SamePlace s ((cfg.provenanceWatch staging p W i).next s (.op o) r) := by
  cases o with
  | setWatermark t => exact ⟨rfl, rfl, rfl, rfl, rfl, rfl, rfl⟩
  | setPrefixSeqLen t => exact ⟨rfl, rfl, rfl, rfl, rfl, rfl, rfl⟩
  | setPrefixKvSerialBytes n => exact ⟨rfl, rfl, rfl, rfl, rfl, rfl, rfl⟩
  | llamaStateSeqGetData h b cap seq => exact ⟨rfl, rfl, rfl, rfl, rfl, rfl, rfl⟩
  | readBytes p n => exact ⟨rfl, rfl, rfl, rfl, rfl, rfl, rfl⟩
  | allocBuffer size => exact ⟨rfl, rfl, rfl, rfl, rfl, rfl, rfl⟩
  | writeBytes b bytes => exact ⟨rfl, rfl, rfl, rfl, rfl, rfl, rfl⟩
  | _ => cases ho

/-! ## Steps of all nodes -/

/-- Memory may run out. -/
theorem alloc_provenance (hI : ∀ e s, I s → X e s) :
    (cfg.provenanceWatch staging p W (.worker n)).Spec I alloc (fun _ => I) X := by
  refine .bind (provenanceRule_lenient.op' rfl) fun r => .ite (fun _ => ?_) fun _ => ?_
  · exact .ret fun _ hs => hs
  · exact .throw fun s hs => hI _ s hs

/-- The blackboard is looked at. -/
theorem load_provenance (hI : ∀ s r, I s → I { s with found := some r }) :
    (cfg.provenanceWatch staging p W (.worker n)).Spec I (perform .load)
      (fun r s => I s ∧ r.materializedBranchBuffer = staging ∧
        ∀ t, r.snapshotMilestones.contains t = true ↔ cfg.IsMilestone t) X := by
  refine .op fun s hs => ⟨⟨trivial, trivial⟩, fun r hr => ⟨?_, hr.1.1, fun t => ?_⟩⟩
  · show I (if s.held then { s with found := some r } else s)
    split
    · exact hI s r hs
    · exact hs
  · rw [List.contains_iff_mem]
    exact hr.2.1 t

/-- A worker takes the guard. -/
theorem lock_provenance (hmem : n ∈ cfg.orchestrator.names) (hlive : s.done = false) :
    (cfg.provenanceWatch staging p W (.worker n)).ok s (.lock .llamaApiMutex) :=
  ⟨⟨hlive, n, hmem, rfl⟩, trivial⟩

/-- What `try_get_prefix_snapshot` answers, by the blackboard that it has found. -/
def lookupOf (t : Int) (q : PipelineState) : Option (Option DataPtr × Nat × Int) :=
  (q.prefixSnapshots t).map fun snap =>
    (if snap.data.isEmpty then none else some (.snapshot t), snap.data.length, snap.seqLen)

/-- What is known of a blackboard that has been looked at under the guard. -/
def FoundBy (p : String) (W : Int) (n : String) (q : PipelineState) (s : View) : Prop :=
  s.found = some q ∧ (∀ snap, q.prefixSnapshots W = some snap → snap.data ≠ []) ∧
    (n = p → ∀ x ∈ s.filed, x.1 ≤ W → (q.prefixSnapshots x.1).map (·.data) = some x.2)

/-- A lookup under the guard. -/
theorem tryGetPrefixSnapshot_provenance {t : Int} (hheld : ∀ s, I s → s.held = true)
    (hI : ∀ s r, I s → I { s with found := some r }) :
    (cfg.provenanceWatch staging p W (.worker n)).Spec I (PipelineState.tryGetPrefixSnapshot t)
      (fun r s => I s ∧ ∃ q, FoundBy p W n q s ∧ r = lookupOf t q) fun _ => I := by
  have hload : (cfg.provenanceWatch staging p W (.worker n)).Spec I (perform .load)
      (fun q s => I s ∧ FoundBy p W n q s) fun _ => I := by
    refine .op fun s hs => ⟨⟨trivial, trivial⟩, fun q hq => ?_⟩
    have hq' := hq.2.2 (hheld s hs)
    show I (s.next cfg.engine (.op .load) q) ∧ FoundBy p W n q (s.next cfg.engine (.op .load) q)
    rw [View.next_load (hheld s hs)]
    exact ⟨hI s q hs, rfl, hq'.1, fun hp => hq'.2 (congrArg Thread.worker hp)⟩
  apply provenanceRule_lenient.withLock rfl rfl
  refine .bind hload fun q => ?_
  split
  · rename_i hnone
    exact .ret fun s hs => ⟨hs.1, q, hs.2, by simp [lookupOf, hnone]⟩
  · rename_i snap hsome
    exact .ret fun s hs => ⟨hs.1, q, hs.2, by simp [lookupOf, hsome]⟩

/-- A context is bound to a buffer. -/
theorem bindContiguousCache_provenance {cache : Option Nat} (hI : ∀ e s, I s → X e s) :
    (cfg.provenanceWatch staging p W (.worker n)).Spec I
      (KVHandoff.bindContiguousCache (some h) cache) (fun _ s => I s ∧ cache.isSome) X := by
  unfold KVHandoff.bindContiguousCache
  refine .ite (fun _ => ?_) fun hsome => ?_
  · exact .throw fun s hs => hI _ s hs
  · have hcache : cache.isSome := by
      rw [not_or] at hsome
      exact Option.isSome_iff_ne_none.mpr fun hnone => hsome.2 (by rw [hnone]; rfl)
    exact .ret fun s hs => ⟨hs, hcache⟩

end SwarmKV.Pipeline

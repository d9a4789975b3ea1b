import SwarmKV.Spec.Commit

/-!
# The last critical section of commit_watermark

Under both mutexes the prefiller makes the canonical triple whole again, field by
field, and files the snapshot. In between only the export itself can be relied on
(`Publishing`). A failing allocation cuts the section off after the watermark has
been raised: the notification is dropped then, and no snapshot is filed.
-/

namespace SwarmKV.Pipeline

open Monitor.Outline

variable {cfg : Pipeline} {n : String} {w : World} {h p c nw : Nat} {buf : List UInt8}

/-- The watermark has been raised to `c`; the canonical triple may be in pieces. -/
structure Publishing (cfg : Pipeline) (n : String) (h c nw : Nat) (buf : List UInt8)
    (w : World) : Prop where
  exporting : cfg.Exporting n h c nw buf w
  watermark : w.state.watermark = c
  filed : cfg.FiledUpTo (c - 1) w

/-- The export does not depend on the blackboard. -/
theorem Exporting.update (hw : cfg.Exporting n h c nw buf w)
    (f : PipelineState → PipelineState) : cfg.Exporting n h c nw buf (w.update f) := by
  obtain ⟨cells, hctx, hcells, hne⟩ := hw.doc
  obtain ⟨s, hs, hprefix⟩ := hw.exported
  have hgrows : cfg.Good (w.update f) → cfg.Good w := fun hgood =>
    hgood.grows fun _ => List.prefix_rfl
  exact {
    called := hw.called.congr rfl rfl rfl
    doc := ⟨cells, hctx, fun hgood => hcells (hgrows hgood), hne⟩
    stagingLive := hw.stagingLive
    length := hw.length
    exported := ⟨s, hs, fun hgood => hprefix (hgrows hgood)⟩
    bytes := hw.bytes }

theorem Publishing.update (hw : cfg.Publishing n h c nw buf w)
    (f : PipelineState → PipelineState) (hf : (f w.state).watermark = w.state.watermark)
    (hs : ∀ t, (w.state.prefixSnapshots t).isSome → ((f w.state).prefixSnapshots t).isSome) :
    cfg.Publishing n h c nw buf (w.update f) where
  exporting := hw.exporting.update f
  watermark := hf.trans hw.watermark
  filed := hw.filed.grows (fun _ => List.prefix_rfl) hs

/-- The mutexes of the last critical section. -/
private abbrev both : Finset Lock := insert .watermarkMutex {.llamaApiMutex}

theorem Closed.publishing : cfg.Closed (.worker n) both (cfg.Publishing n h c nw buf) :=
  fun w w' hw hq => {
    exporting := Closed.exporting (by simp) w w' hw.exporting hq
    watermark := ((hq.mutex (by simp)).1).trans hw.watermark
    filed := hw.filed.grows hq.grows fun t ht => by
      rw [(hq.mutex (by simp)).2]
      exact ht }

/-- Under the guard the canonical fields stay. -/
theorem Closed.canonicalFields {k : Int} : cfg.Closed (.worker n) both fun w =>
    cfg.Publishing n h c nw buf w ∧ w.state.prefixSeqLen = k :=
  fun w w' hw hq => ⟨Closed.publishing w w' hw.1 hq,
    (hq.prefixSeqLen (by simp) n rfl hw.1.exporting.called.running.live).trans hw.2⟩

/-- Once all fields are written, the canonical triple is in order and `c` is
    published. -/
structure Republished (cfg : Pipeline) (n : String) (h c nw : Nat) (buf : List UInt8)
    (w : World) : Prop where
  publishing : cfg.Publishing n h c nw buf w
  prefixSeqLen : w.state.prefixSeqLen = c
  prefixKvSerialBytes : w.state.prefixKvSerialBytes = nw

theorem Closed.republished : cfg.Closed (.worker n) both (cfg.Republished n h c nw buf) := by
  intro w w' hw hq
  have hl := hw.publishing.exporting.called.running.live
  exact {
    publishing := Closed.publishing w w' hw.publishing hq
    prefixSeqLen := (hq.prefixSeqLen (by simp) n rfl hl).trans hw.prefixSeqLen
    prefixKvSerialBytes :=
      (hq.prefixKvSerialBytes (by simp) n rfl hl).trans hw.prefixKvSerialBytes }

theorem Republished.tripleOk (hw : cfg.Republished n h c nw buf w) (hs : cfg.Slice n p c)
    (hgood : cfg.Good w) : cfg.TripleOk w := by
  have hexp := hw.publishing.exporting
  obtain ⟨s, hexported, hprefix⟩ := hexp.exported
  have hbytes : w.branchBytes cfg.stagingBuffer w.state.prefixKvSerialBytes = buf := by
    rw [hw.prefixKvSerialBytes, hexp.bytes]
  constructor
  · rw [hbytes]
    have hpos := hs.pos
    exact .inr ⟨c, s, by omega, hw.prefixSeqLen, hprefix hgood, hexported⟩
  · rw [hbytes, hw.prefixKvSerialBytes, hexp.length]

theorem Republished.atSliceEnd (hw : cfg.Republished n h c nw buf w) (hs : cfg.Slice n p c)
    (hm : cfg.IsMilestone c) : cfg.AtSliceEnd n h c c c w := by
  have hexp := hw.publishing.exporting
  have hpublished : cfg.Published n c w := {
    watermark := fun _ => hw.publishing.watermark
    seqLen := fun _ => hw.prefixSeqLen.le
    canonical := fun _ _ => iff_of_true hw.prefixSeqLen hm }
  exact ⟨⟨hexp.called, hpublished⟩, hexp.doc, hexp.called.running, fun _ => hexp.stagingLive,
    fun _ => hw.tripleOk hs⟩

/-- What is filed in the end. -/
theorem Republished.snapshotOk (hw : cfg.Republished n h c nw buf w) (hs : cfg.Slice n p c)
    (hm : cfg.IsMilestone c) : cfg.SnapshotOk w c ⟨buf, c⟩ where
  seqLen := rfl
  milestone := hm
  exported := hw.publishing.exporting.exported
  commitValue := fun p' hp' => by
    obtain rfl := hp'.2 n hs.prefill
    exact hs.value

/-- With the snapshot filed, the mutex's invariant holds again. -/
theorem Republished.mutexInv (hw : cfg.Republished n h c nw buf w) :
    cfg.MutexInv (w.update fun s => { s with
      prefixSnapshots := Function.update s.prefixSnapshots (c : Int) (some ⟨buf, c⟩) }) := by
  intro p' hp' hmem t ht hle hm
  have hle : t ≤ w.state.watermark := hle
  rw [hw.publishing.watermark] at hle
  show (Function.update w.state.prefixSnapshots (c : Int) (some ⟨buf, c⟩) t).isSome
  by_cases htc : t = c
  · rw [htc, Function.update_self]
    rfl
  · rw [Function.update_of_ne htc]
    exact hw.publishing.filed p' hp' hmem t ht (by omega) hm

theorem Republished.putSnapshot (hw : cfg.Republished n h c nw buf w) :
    cfg.Republished n h c nw buf (w.update fun s => { s with
      prefixSnapshots := Function.update s.prefixSnapshots (c : Int) (some ⟨buf, c⟩) }) where
  publishing := hw.publishing.update _ rfl fun t ht => by
    show (Function.update w.state.prefixSnapshots (c : Int) (some ⟨buf, c⟩) t).isSome
    by_cases htc : t = c
    · rw [htc, Function.update_self]
      rfl
    · rwa [Function.update_of_ne htc]
  prefixSeqLen := hw.prefixSeqLen
  prefixKvSerialBytes := hw.prefixKvSerialBytes

/-- An allocation while a notification is owed. -/
theorem wp_alloc {α : Type} {H : Finset Lock} {D : Finset Cv} {A : World → Prop}
    {k : Unit → Prog α} {Q : Monitor.Post (machine cfg.engine) Error α}
    (hA : cfg.Closed (.worker n) H A) (hw : A w) (hrun : ∀ w, A w → cfg.Running n w)
    (hok : ∀ w, cfg.Inv w → A w → cfg.outline.wp (.worker n) (k ()) Q H D w)
    (hfail : ∀ w, A w → Q (.error .badAlloc) H D (w.record (.worker n) .badAlloc)) :
    cfg.outline.wp (.worker n) (alloc >>= k) Q H D w := by
  intro w₁ hR hI
  have hw₁ := hA.stable w w₁ hw hR hI
  refine ⟨⟨(hrun w₁ hw₁).live, n, rfl, hrun w₁ hw₁⟩, fun x r w₂ hx hI₂ => ?_⟩
  have hD : ∀ r, D ∪ cfg.outline.touches .allocate r = D := fun _ => Finset.union_empty D
  rw [hD]
  obtain ⟨rfl, rfl⟩ | ⟨rfl, rfl⟩ := exec_allocate hx
  · exact hok _ hI₂ hw₁
  · exact hfail _ hw₁

/-- `publishExported`, without the distinction that makes no difference. -/
private theorem publishExported_eq (t : Int) (hlen : buf.length = nw) :
    PipelineState.publishExported t nw buf = (do
      perform (.setWatermark t)
      perform (.setPrefixSeqLen t)
      perform (.setPrefixKvSerialBytes nw)
      let s ← perform .load
      if (s.prefixSnapshots t).isNone then do
        alloc
        perform (.putSnapshot t buf)
        notifyAll .watermarkCv
      else do
        perform (.putSnapshot t buf)
        notifyAll .watermarkCv) := by
  have hput : (if nw > 0 then do
        perform (.putSnapshot t buf)
        notifyAll .watermarkCv
      else do
        perform (.putSnapshot t [])
        notifyAll .watermarkCv) = (do
      perform (.putSnapshot t buf)
      notifyAll .watermarkCv) := by
    split
    · rfl
    · have hzero : buf.length = 0 := by omega
      rw [List.length_eq_zero_iff.mp hzero]
  unfold PipelineState.publishExported
  dsimp only
  rw [hput]

/-- What the last critical section owes: the mutex's invariant, the notification
    unless it was dropped, and what it promises the caller. -/
private abbrev PublishPost (cfg : Pipeline) (n : String) (h c : Nat) :
    Monitor.Post (machine cfg.engine) Error Unit := fun r H D w =>
  H = both ∧ ∀ w₁, cfg.Rely (.worker n) both w w₁ → cfg.Inv w₁ →
    cfg.Active (.worker n) both w₁ ∧ cfg.MutexInv w₁ ∧ (D = ∅ ∨ cfg.Lossy w₁) ∧
      match r with
      | .ok _ => cfg.AtSliceEnd n h c c c w₁
      | .error e => cfg.Failing n {.llamaApiMutex} e w₁

/-- The allocation fails: the section ends with the notification dropped. -/
private theorem cutOff {D : Finset Cv} (hw : cfg.Exporting n h c nw buf w) :
    PublishPost cfg n h c (.error .badAlloc) both D (w.record (.worker n) .badAlloc) := by
  refine ⟨rfl, fun w₁ hR hI => ?_⟩
  have hfail : cfg.Failing n {.llamaApiMutex} .badAlloc w₁ :=
    Closed.failing _ w₁ hw.badAlloc (hR.quiet.mono (Finset.subset_insert _ _))
  have hmem : w₁.OutOfMemory n := by
    apply (hR.grows _).subset
    simp [World.record]
  refine ⟨hfail.body.running.live, fun p' hp' hmem' => ?_, .inr ⟨n, hw.called.prefill, hmem⟩,
    hfail⟩
  obtain rfl := hp'.2 n hw.called.prefill
  exact absurd hmem hmem'

/-- Filing the snapshot and notifying. -/
private theorem file_wp (hs : cfg.Slice n p c) (hm : cfg.IsMilestone c)
    {D : Finset Cv} (hD : D.erase .watermarkCv = ∅) (hw : cfg.Republished n h c nw buf w) :
    cfg.outline.wp (.worker n) (do
      perform (.putSnapshot c buf)
      notifyAll .watermarkCv) (PublishPost cfg n h c) both D w := by
  have hdone : cfg.Closed (.worker n) both fun w =>
      cfg.AtSliceEnd n h c c c w ∧ cfg.MutexInv w :=
    (Closed.atSliceEnd (Finset.subset_insert _ _)).and (Closed.mutexInv (by simp))
  refine wp_op Closed.republished.stable hw fun w₁ hI₁ hw₁ => ?_
  have hexp := hw₁.publishing.exporting
  refine ⟨⟨hexp.called.running.live, ⟨n, rfl, hs.prefill, hexp.called.running, by simp, by simp⟩,
    hw₁.snapshotOk hs hm, hw₁.publishing.watermark⟩, fun x r w₂ hx _ => ?_⟩
  simp only [exec, Option.some.injEq, Prod.mk.injEq] at hx
  obtain ⟨-, rfl⟩ := hx
  have hM := hw₁.mutexInv
  have hend := hw₁.putSnapshot.atSliceEnd hs hm
  refine wp_notifyAll hdone.stable ⟨hend, hM⟩ (fun w hw => hw.1.2.2.running.live)
    ⟨rfl, fun w₃ hR hI => ?_⟩
  obtain ⟨hend₃, hM₃⟩ := hdone.stable _ w₃ ⟨hend, hM⟩ hR hI
  refine ⟨hend₃.2.2.running.live, hM₃, .inl ?_, hend₃⟩
  show (D ∪ ∅).erase .watermarkCv = ∅
  rw [Finset.union_empty, hD]

/-- The last critical section of `commit_watermark`, under both mutexes. -/
private theorem publishExported_wp (hs : cfg.Slice n p c) (hm : cfg.IsMilestone c)
    (hw : cfg.Exporting n h c nw buf w ∧ cfg.Published n p w) (hM : cfg.MutexInv w) :
    cfg.outline.wp (.worker n) (PipelineState.publishExported c nw buf) (PublishPost cfg n h c)
      both ∅ w := by
  rw [publishExported_eq _ hw.1.length]
  -- `watermark = tokens_ready;`
  have hclosed₀ : cfg.Closed (.worker n) both fun w =>
      (cfg.Exporting n h c nw buf w ∧ cfg.Published n p w) ∧ cfg.MutexInv w :=
    ((Closed.exporting (by simp)).and Closed.published).and (Closed.mutexInv (by simp))
  refine wp_op hclosed₀.stable ⟨hw, hM⟩ fun w₁ _ hw₁ => ?_
  obtain ⟨⟨hexp₁, hpub₁⟩, hM₁⟩ := hw₁
  refine ⟨⟨hexp₁.called.running.live, ⟨n, rfl, hs.prefill, hexp₁.called.running, by simp, by simp⟩,
    hs.filed hM₁ hpub₁.watermark, hs.raises hpub₁.watermark⟩, fun x r w₂ hx _ => ?_⟩
  simp only [exec, Option.some.injEq, Prod.mk.injEq] at hx
  obtain ⟨-, rfl⟩ := hx
  have hp₂ : cfg.Publishing n h c nw buf (w₁.update fun s => { s with watermark := c }) := {
    exporting := hexp₁.update _
    watermark := rfl
    filed := (hs.filed hM₁ hpub₁.watermark).grows (fun _ => List.prefix_rfl) fun _ h => h }
  -- `prefix_seq_len = tokens_ready;`
  refine wp_op Closed.publishing.stable hp₂ fun w₂ _ hw₂ => ?_
  refine ⟨⟨hw₂.exporting.called.running.live, n, rfl, hs.prefill, hw₂.exporting.called.running,
    by simp, by simp⟩, fun x r w₃ hx _ => ?_⟩
  simp only [exec, Option.some.injEq, Prod.mk.injEq] at hx
  obtain ⟨-, rfl⟩ := hx
  have hp₃ := hw₂.update (fun s => { s with prefixSeqLen := c }) rfl fun _ h => h
  -- `prefix_kv_serial_bytes = nw;`
  refine wp_op Closed.canonicalFields.stable ⟨hp₃, rfl⟩ fun w₃ _ hw₃ => ?_
  have hexp₃ := hw₃.1.exporting
  refine ⟨⟨hexp₃.called.running.live, n, rfl, hs.prefill, hexp₃.called.running,
    by simp, by simp⟩, fun x r w₄ hx _ => ?_⟩
  simp only [exec, Option.some.injEq, Prod.mk.injEq] at hx
  obtain ⟨-, rfl⟩ := hx
  have hp₄ : cfg.Republished n h c nw buf
      (w₃.update fun s => { s with prefixKvSerialBytes := nw }) := {
    publishing := hw₃.1.update _ rfl fun _ h => h
    prefixSeqLen := hw₃.2
    prefixKvSerialBytes := rfl }
  -- `prefix_snapshots[tokens_ready]`
  refine wp_op Closed.republished.stable hp₄ fun w₄ _ hw₄ => ?_
  refine ⟨⟨hw₄.publishing.exporting.called.running.live, trivial⟩, fun x s w₅ hx _ => ?_⟩
  simp only [exec, Option.some.injEq, Prod.mk.injEq] at hx
  obtain ⟨rfl, rfl⟩ := hx
  have hpaid : (∅ ∪ {.watermarkCv} ∪ ∅ ∪ ∅ ∪ ∅ : Finset Cv).erase .watermarkCv = ∅ := by decide
  split
  · exact wp_alloc Closed.republished hw₄ (fun w hw => hw.publishing.exporting.called.running)
      (fun w _ hw => file_wp hs hm hpaid hw) fun w hw => cutOff hw.publishing.exporting
  · exact file_wp hs hm hpaid hw₄

/-- The last critical section of `commit_watermark`. -/
theorem publishExported_triple (hs : cfg.Slice n p c) (hm : cfg.IsMilestone c) :
    cfg.outline.Triple (.worker n) {.llamaApiMutex}
      (fun w => cfg.Exporting n h c nw buf w ∧ cfg.Published n p w)
      (withLock .watermarkMutex (PipelineState.publishExported c nw buf))
      (fun _ => cfg.AtSliceEnd n h c c c) (cfg.Failing n {.llamaApiMutex}) := by
  have hclosed : cfg.Closed (.worker n) {.llamaApiMutex} fun w =>
      cfg.Exporting n h c nw buf w ∧ cfg.Published n p w :=
    (Closed.exporting (by simp)).and Closed.published
  refine Triple.critical (watermarkMutex_notMem subset_rfl) (rank_lt_watermarkMutex subset_rfl)
    hclosed.stable (fun w hw => hw.1.called.running.live) fun w hw _ hM => ?_
  refine wp_mono (fun r H D d hr => ?_) (publishExported_wp hs hm hw hM)
  cases r <;> exact hr

/-- `commit_watermark` publishes the end of a slice. -/
theorem commitWatermark_triple {b : Nat} (hs : cfg.Slice n p c) (hb : cfg.stagingBuffer = some b) :
    cfg.outline.Triple (.worker n) {.llamaApiMutex} (cfg.AtSliceEnd n h p p c)
      (PipelineState.commitWatermark (some h) c) (fun _ => cfg.AtSliceEnd n h c c c)
      (cfg.Failing n {.llamaApiMutex}) := by
  unfold PipelineState.commitWatermark
  refine Triple.bind (note_commit_triple hs) fun _ => ?_
  dsimp only
  rw [if_neg (Int.not_lt.mpr (Int.natCast_nonneg c))]
  refine Triple.bind (publishUnexported_triple hs) fun exportKv => ?_
  cases exportKv with
  | false => exact Triple.ret fun w _ hw => hw
  | true =>
    refine Triple.assume fun hm => Triple.bind (exportPrefix_triple hb) fun r => ?_
    exact publishExported_triple hs hm

end SwarmKV.Pipeline

import SwarmKV.Spec.Publish

/-!
# The prefiller meets its outline

The loop of `PrefillNode::execute`: a slice is decoded and committed under the
guard; at a milestone the context is given up, and a fresh one resumes from the
snapshot. The loop invariant is `AtSlice`, between two slices and outside the guard.
-/

namespace SwarmKV.Pipeline

open Monitor.Outline

variable {cfg : Pipeline} {n : String} {w w' : World} {h p c : Nat}

/-! ## The guard -/

/-- What the guard gives to a worker that takes it. -/
theorem Inv.inBody (hI : cfg.Inv w) (hG : cfg.GuardInv w) (hr : cfg.Running n w) :
    cfg.InBody n {.llamaApiMutex} w := by
  refine ⟨hr, fun _ => hI.stagingLive' hr.live, fun _ hgood => ?_⟩
  rcases hG hgood with hdone | htriple
  · have hend := hdone n hr.live.1
    rw [hr.live.2] at hend
    cases hend
  · exact htriple

/-- What a worker gives back with the guard. -/
theorem InBody.guardInv {H : Finset Lock} (hw : cfg.InBody n H w) (hH : .llamaApiMutex ∈ H) :
    cfg.GuardInv w :=
  fun hgood => .inr (hw.triple hH hgood)

/-- Outside the guard only the node's own state matters. -/
theorem Running.inBody (hw : cfg.Running n w) : cfg.InBody n ∅ w :=
  ⟨hw, fun h => (by cases h), fun h => by cases h⟩

/-- A block under the guard. -/
theorem guard_triple {α : Type} {A : World → Prop} {q : Prog α} {Q : α → World → Prop}
    (hA : cfg.Closed (.worker n) ∅ A) (hrun : ∀ w, A w → cfg.Running n w)
    (hbody : cfg.outline.Triple (.worker n) {.llamaApiMutex}
      (fun w => A w ∧ cfg.InBody n {.llamaApiMutex} w) q
      (fun a w => Q a w ∧ cfg.InBody n {.llamaApiMutex} w) (cfg.Failing n {.llamaApiMutex}))
    (hQ : ∀ a, cfg.Closed (.worker n) {.llamaApiMutex} (Q a)) :
    cfg.outline.Triple (.worker n) ∅ A (withLock .llamaApiMutex q) Q (cfg.Failing n ∅) := by
  have hmem : Lock.llamaApiMutex ∈ insert Lock.llamaApiMutex (∅ : Finset Lock) := by decide
  refine Triple.withLock (Finset.notMem_empty _) (fun _ h => by cases h) hA.stable
    (fun w hw => (hrun w hw).live)
    (hbody.conseq (fun w hI hw => ⟨hw.1, hI.inBody hw.2 (hrun w hw.1)⟩)
      (fun _ _ _ h => h) fun _ _ _ h => h)
    (fun a => ((hQ a).and Closed.inBody).stable) (fun _ => Closed.failing.stable) ?_ ?_
  · exact fun a w _ hw => ⟨hw.2.running.live, hw.2.guardInv hmem, hw.1⟩
  · exact fun e w _ hw => ⟨hw.body.running.live, hw.body.guardInv hmem, hw.mono fun _ => hmem⟩

/-! ## One slice -/

/-- The prefiller between two slices: `p` tokens are decoded and published. -/
def AtSlice (cfg : Pipeline) (n : String) (h p : Nat) (w : World) : Prop :=
  cfg.Committed n p p w ∧ cfg.HoldsDoc n h p False w

theorem Closed.atSlice {H : Finset Lock} : cfg.Closed (.worker n) H (cfg.AtSlice n h p) :=
  Closed.committed.and Closed.holdsDoc

theorem HoldsDoc.weaken {ne : Prop} (hw : cfg.HoldsDoc n h c ne w) :
    cfg.HoldsDoc n h c False w := by
  obtain ⟨cells, hctx, hcells, -⟩ := hw
  exact ⟨cells, hctx, hcells, fun hf => hf.elim⟩

theorem prefillSlice_triple {b : Nat} (hs : cfg.Slice n p c) (hb : cfg.stagingBuffer = some b)
    {chunk : Nat} (hchunk : c = p + chunk) :
    cfg.outline.Triple (.worker n) ∅ (cfg.AtSlice n h p)
      (PrefillNode.prefillSlice cfg.engine h (cfg.doc n) p chunk)
      (fun _ => cfg.AtSlice n h c) (cfg.Failing n ∅) := by
  have hpos := hs.pos
  have hlt := hs.lt
  have heq := hs.eq
  unfold PrefillNode.prefillSlice
  refine guard_triple Closed.atSlice (fun w hw => hw.1.running) ?_ fun _ => Closed.atSlice
  refine Triple.bind (Q := fun _ w => cfg.AtSliceEnd n h p p c w) ?_ fun _ => ?_
  · refine (decodeLoop_triple (q := p) (p := p) hs.prefill False chunk p chunk le_rfl
      (by omega)).conseq (fun w _ hw => ⟨hw.1.1, hw.1.2, hw.2⟩) (fun _ w _ hw => ?_)
      (fun _ _ _ h => h)
    obtain ⟨hcom, ⟨cells, hctx, hcells, hne⟩, hbody⟩ := hw
    rw [← hchunk] at hcells
    exact ⟨hcom, ⟨cells, hctx, hcells, fun _ => hne (.inr (by omega))⟩, hbody⟩
  · rw [← hchunk]
    exact (commitWatermark_triple hs hb).conseq (fun _ _ h => h)
      (fun _ w _ hw => ⟨⟨hw.1, hw.2.1.weaken⟩, hw.2.2⟩) fun _ _ _ h => h

/-! ## The pause at a milestone -/

/-- The old context is given up. -/
private theorem freeContext_triple :
    cfg.outline.Triple (.worker n) ∅ (cfg.AtSlice n h c)
      (withLock .llamaApiMutex (perform (.llamaFree h))) (fun _ => cfg.Committed n c c)
      (cfg.Failing n ∅) := by
  refine guard_triple Closed.atSlice (fun w hw => hw.1.running) ?_ fun _ => Closed.committed
  refine Triple.op (Closed.atSlice.and Closed.inBody).stable fun w hinv hw => ?_
  obtain ⟨⟨hcom, cells, hctx, -⟩, hbody⟩ := hw
  refine ⟨⟨hbody.running.live, fun ctx hctx' => ?_⟩, fun x r w' hx _ => ⟨rfl, ?_⟩⟩
  · rw [← Option.some.inj (hctx.symm.trans hctx')]
  · simp only [exec, Option.some.injEq, Prod.mk.injEq] at hx
    obtain ⟨-, rfl⟩ := hx
    exact ⟨hcom.congr rfl rfl rfl rfl, hbody.setContexts _⟩

/-- `wait_for_milestone_consumers` of the watermark that was just published. -/
theorem waitForMilestoneConsumers_triple (hm : cfg.IsMilestone c) :
    cfg.outline.Triple (.worker n) ∅ (cfg.Committed n c c)
      (PipelineState.waitForMilestoneConsumers c) (fun _ => cfg.Committed n c c)
      (cfg.Failing n ∅) := by
  unfold PipelineState.waitForMilestoneConsumers
  refine Triple.ite (fun _ => Triple.ret fun w _ hw => hw) fun _ => ?_
  have hclosed : cfg.Closed (.worker n) ∅ (cfg.Committed n c c) := Closed.committed
  refine Triple.waiting hclosed.stable (fun w hw => ⟨hw.running.live, hw.running.live⟩) ?_ ?_ ?_
  · exact fun w _ hw => ⟨hw.running, hw.prefill, hm, hw.inMemory, hw.watermark⟩
  · exact fun w w' hM hR _ => stable_mutexInv (Finset.mem_singleton_self _) hM hR
  · exact fun w w' hw _ hR _ =>
      Closed.committed w w' hw hR.quiet

/-- Good exports restore to what was exported. -/
theorem Inv.restore_exported (hI : cfg.Inv w) (hgood : cfg.Good w) {s : SeqState}
    {bytes : List UInt8} (hs : w.Exported s bytes) : cfg.engine.restore bytes = some s :=
  hgood.roundTrips s bytes (hI.exported s bytes hs).2 (hgood.nonempty s bytes hs)

/-- The prefiller resumes under the guard: it has a fresh context, and `snap` is filed. -/
private structure Resuming (cfg : Pipeline) (n : String) (h c : Nat) (snap : PrefixKvSnapshot)
    (w : World) : Prop where
  committed : cfg.Committed n c c w
  body : cfg.InBody n {.llamaApiMutex} w
  ctx : w.contexts h = some { owner := .worker n }
  snapshot : w.state.prefixSnapshots c = some snap

private theorem Closed.resuming {snap : PrefixKvSnapshot} :
    cfg.Closed (.worker n) {.llamaApiMutex} (cfg.Resuming n h c snap) := fun w w' hw hq => {
  committed := Closed.committed w w' hw.committed hq
  body := Closed.inBody w w' hw.body hq
  ctx := hq.contexts h _ hw.ctx rfl
  snapshot := by
    rw [hq.prefixSnapshots (by simp) n rfl hw.body.running.live]
    exact hw.snapshot }

/-- A restored snapshot is the prefix at its milestone. -/
private theorem Resuming.restored (hI : cfg.Inv w) {snap : PrefixKvSnapshot}
    (hw : cfg.Resuming n h c snap w) {s : SeqState} (hs : cfg.engine.restore snap.data = some s) :
    cfg.AtSlice n h c ((w.setCells h (restoreSeq kSwarmkvPrefixSeqId s [])).record (.worker n)
      (.restored snap.data)) := by
  have hg := (w.setCells h (restoreSeq kSwarmkvPrefixSeqId s [])).log_grows_record (.worker n)
    (.restored snap.data)
  refine ⟨⟨?_, hw.committed.toPublished.congr rfl⟩, toCells s, ?_, fun hgood => ⟨s, ?_, rfl⟩,
    fun hf => hf.elim⟩
  · apply Called.record _ rfl (by simp) (by simp)
    exact hw.committed.toCalled.congr rfl rfl rfl
  · simp [World.record, World.setCells, hw.ctx, restoreSeq_nil]
  · have hgood' : cfg.Good w := hgood.grows hg
    have hok := hI.snapshots c snap hw.snapshot
    obtain ⟨s', hs', hprefix⟩ := hok.exported
    obtain rfl := Option.some.inj (hs.symm.trans (hI.restore_exported hgood' hs'))
    simpa using hprefix hgood'

/-- `restore_prefix_snapshot` into a fresh context. -/
theorem restorePrefixSnapshot_triple :
    cfg.outline.Triple (.worker n) {.llamaApiMutex}
      (fun w => (cfg.Committed n c c w ∧ cfg.InBody n {.llamaApiMutex} w) ∧
        w.contexts h = some { owner := .worker n })
      (PrefillNode.restorePrefixSnapshot h c)
      (fun _ w => cfg.AtSlice n h c w ∧ cfg.InBody n {.llamaApiMutex} w)
      (cfg.Failing n {.llamaApiMutex}) := by
  have hclosed : cfg.Closed (.worker n) {.llamaApiMutex} fun w =>
      (cfg.Committed n c c w ∧ cfg.InBody n {.llamaApiMutex} w) ∧
        w.contexts h = some { owner := .worker n } :=
    (Closed.committed.and Closed.inBody).and fun w w' hw hq => hq.contexts h _ hw rfl
  unfold PrefillNode.restorePrefixSnapshot
  refine Triple.bind (tryGetPrefixSnapshot_triple (N := fun _ => True) hclosed
    (fun w hw => hw.1.2.running) (fun _ _ _ _ _ => trivial) Closed.const) fun r => ?_
  cases r with
  | none => exact Triple.throw fun w _ hw => hw.1.1.2.failing (by simp)
  | some a =>
    refine Triple.of_exists (A := fun snap (w : World) =>
        cfg.Resuming n h c snap w ∧ a = snapshotAnswer c snap) (fun w _ hw => ?_) fun snap => ?_
    · obtain ⟨⟨⟨hcom, hbody⟩, hctx⟩, snap, hsnap, ha⟩ := hw
      exact ⟨snap, ⟨hcom, hbody, hctx, hsnap⟩, ha⟩
    · refine Triple.assume fun ha => ?_
      rw [ha, snapshotAnswer]
      dsimp only
      by_cases hempty : snap.data.isEmpty
      · -- nothing was exported: the context stays empty
        rw [if_pos hempty]
        refine Triple.ret fun w hI hw => ?_
        refine ⟨⟨hw.committed, [], hw.ctx, fun hgood => ?_, fun hf => hf.elim⟩, hw.body⟩
        obtain ⟨s, hs, -⟩ := (hI.snapshots c snap hw.snapshot).exported
        exact absurd (List.isEmpty_iff.mp hempty) (hgood.nonempty s _ hs)
      · rw [if_neg hempty]
        dsimp only
        -- the snapshot is restored, or the size does not match
        refine Triple.bind (Q := fun (nr : Nat) (w : World) => cfg.InBody n {.llamaApiMutex} w ∧
          (nr = snap.data.length → cfg.AtSlice n h c w)) ?_ fun nr => ?_
        · refine Triple.op Closed.resuming.stable fun w hI hw => ?_
          refine ⟨⟨hw.body.running.live, fun ctx hctx => ?_⟩, fun x r w' hx _ => ⟨rfl, ?_⟩⟩
          · rw [← Option.some.inj (hw.ctx.symm.trans hctx)]
          · have hbytes : w.bytesAt (.snapshot c) snap.data.length = snap.data := by
              simp [World.bytesAt, hw.snapshot]
            obtain ⟨rfl, rfl⟩ | ⟨ctx, s, hctx, hs, rfl, rfl⟩ := exec_llamaStateSeqSetData hx
            · refine ⟨hw.body, fun hlen => ?_⟩
              rw [List.isEmpty_iff_length_eq_zero] at hempty
              exact absurd hlen.symm hempty
            · obtain rfl := Option.some.inj (hw.ctx.symm.trans hctx)
              rw [hbytes] at hs ⊢
              refine ⟨?_, fun _ => hw.restored hI hs⟩
              exact (hw.body.setContexts _).record (by simp)
        · refine Triple.ite (fun _ => Triple.throw fun w _ hw => hw.1.failing (by simp))
            fun hlen => ?_
          exact Triple.ret fun w _ hw => ⟨hw.2 (not_not.mp hlen), hw.1⟩

/-- The pause at a milestone ends with a fresh context at the same position. -/
theorem pauseAtMilestone_triple {b : Nat} (hb : cfg.stagingBuffer = some b)
    (hm : cfg.IsMilestone c) :
    cfg.outline.Triple (.worker n) ∅ (cfg.AtSlice n h c) (PrefillNode.pauseAtMilestone h c)
      (fun h' => cfg.AtSlice n h' c) (cfg.Failing n ∅) := by
  unfold PrefillNode.pauseAtMilestone
  refine Triple.bind freeContext_triple fun _ => ?_
  refine Triple.bind (waitForMilestoneConsumers_triple hm) fun _ => ?_
  refine guard_triple Closed.committed (fun w hw => hw.running) ?_ fun _ => Closed.atSlice
  have hclosed : cfg.Closed (.worker n) {.llamaApiMutex} fun w =>
      cfg.Committed n c c w ∧ cfg.InBody n {.llamaApiMutex} w :=
    Closed.committed.and Closed.inBody
  refine Triple.bind (init_triple hclosed fun w hw => hw.2.running) fun r => ?_
  cases r with
  | none => exact Triple.throw fun w _ hw => hw.1.2.failing (by simp)
  | some h' =>
    have hclosed' : cfg.Closed (.worker n) {.llamaApiMutex} fun w =>
        (cfg.Committed n c c w ∧ cfg.InBody n {.llamaApiMutex} w) ∧
          w.contexts h' = some { owner := .worker n } :=
      hclosed.and fun w w' hw hq => hq.contexts h' _ hw rfl
    refine Triple.bind (Q := fun (s : PipelineState) (w : World) =>
        ((cfg.Committed n c c w ∧ cfg.InBody n {.llamaApiMutex} w) ∧
          w.contexts h' = some { owner := .worker n }) ∧
        s.materializedBranchBuffer = some b) ?_ fun s => Triple.assume fun hs => ?_
    · exact (load_triple hclosed' (fun w hw => hw.1.2.running)
        fun w hI _ => hI.staging.trans hb).conseq
        (fun w _ hw => ⟨hw.1, hw.2 h' rfl⟩) (fun _ _ _ h => h) fun _ _ _ h => h
    · refine Triple.bind (Q := fun _ (w : World) =>
        (cfg.Committed n c c w ∧ cfg.InBody n {.llamaApiMutex} w) ∧
          w.contexts h' = some { owner := .worker n }) ?_ fun _ => ?_
      · rw [hs]
        exact Triple.ret fun w _ hw => hw
      · refine Triple.bind restorePrefixSnapshot_triple fun _ => ?_
        exact Triple.ret fun w _ hw => hw

/-! ## The loop -/

/-- The V2 loop: `AtSlice` is its invariant. -/
theorem prefillLoop_triple {b : Nat} (hn : cfg.orchestrator.isPrefill n)
    (hb : cfg.stagingBuffer = some b) {N : Nat} (hN : N = (cfg.doc n).length)
    (fuel h p : Nat) (hp : p ≤ N) (hdvd : p < N → 128 ∣ p) (hfuel : N - p ≤ fuel) :
    cfg.outline.Triple (.worker n) ∅ (cfg.AtSlice n h p)
      (PrefillNode.prefillLoop cfg.engine (cfg.doc n) N fuel h p)
      (fun h' => cfg.AtSlice n h' N) (cfg.Failing n ∅) := by
  induction fuel generalizing h p with
  | zero =>
    obtain rfl : p = N := by omega
    exact Triple.ret fun w _ hw => hw
  | succ fuel ih =>
    unfold PrefillNode.prefillLoop
    refine Triple.ite (fun hlt => ?_) (fun hge => ?_)
    · dsimp only
      generalize hchunk : min kSwarmkvPrefillChunkTokens (N - p) = chunk
      have hchunk' : chunk = min 128 (N - p) := hchunk.symm
      have hs : cfg.Slice n p (p + chunk) :=
        ⟨hn, hdvd hlt, by omega, by omega⟩
      have hnext : p + chunk < N → 128 ∣ p + chunk := by
        intro hlt'
        have := hdvd hlt
        omega
      refine Triple.bind (prefillSlice_triple hs hb rfl) fun _ => ?_
      refine Triple.bind (isSnapshotMilestone_triple (Finset.empty_subset _) Closed.atSlice
        fun w hw => hw.1.running) fun m => Triple.assume fun hm => ?_
      refine Triple.ite (fun hyes => ?_) (fun _ => ?_)
      · refine Triple.bind (pauseAtMilestone_triple hb (hm.mp hyes)) fun h' => ?_
        exact ih h' (p + chunk) (by omega) hnext (by omega)
      · exact ih h (p + chunk) (by omega) hnext (by omega)
    · obtain rfl : p = N := by omega
      exact Triple.ret fun w _ hw => hw

/-! ## execute -/

/-- At the end of the loop the whole document is published. -/
theorem Committed.prefillDone (hw : cfg.Committed n (cfg.doc n).length (cfg.doc n).length w) :
    cfg.PrefillDone n w where
  inMemory := hw.inMemory
  commits := hw.last
  nBatch := hw.nBatch
  watermark := hw.watermark
  prefixSeqLen := hw.canonical

theorem Closed.prefillDone {H : Finset Lock} :
    cfg.Closed (.worker n) H (cfg.PrefillDone n) := fun w w' hw hq => {
  inMemory := fun hm => hw.inMemory (hq.badAlloc hm)
  commits := by
    rw [hq.commits]
    exact hw.commits
  nBatch := hw.nBatch
  watermark := fun hs => (hq.sole n hs rfl).1.trans (hw.watermark hs)
  prefixSeqLen := fun hs => by
    rw [(hq.sole n hs rfl).2]
    exact hw.prefixSeqLen hs }

/-- `mark_prefill_complete`. -/
theorem markPrefillComplete_triple {A : World → Prop}
    (hA : ∀ H, cfg.Closed (.worker n) H A) (hrun : ∀ w, A w → cfg.Running n w)
    (hup : ∀ w, A w → A (w.update fun s => { s with prefillComplete := true })) :
    cfg.outline.Triple (.worker n) ∅ A PipelineState.markPrefillComplete (fun _ w => A w)
      (cfg.Failing n ∅) := by
  have hM : ∀ H, .watermarkMutex ∈ H → cfg.Closed (.worker n) H cfg.MutexInv :=
    fun H hH => Closed.mutexInv hH
  have hmem : Lock.watermarkMutex ∈ insert Lock.watermarkMutex (∅ : Finset Lock) := by decide
  have hclosed := (hA (insert .watermarkMutex ∅)).and (hM _ hmem)
  unfold PipelineState.markPrefillComplete
  refine Triple.critical (watermarkMutex_notMem (Finset.empty_subset _))
    (rank_lt_watermarkMutex (Finset.empty_subset _)) (hA ∅).stable
    (fun w hw => (hrun w hw).live) fun w hw _ hL => ?_
  refine wp_op hclosed.stable ⟨hw, hL⟩ fun w₁ _ hw₁ =>
    ⟨⟨(hrun w₁ hw₁.1).live, hmem⟩, fun x r w₂ hx _ => ?_⟩
  simp only [exec, Option.some.injEq, Prod.mk.injEq] at hx
  obtain ⟨-, rfl⟩ := hx
  have hM₂ : cfg.MutexInv (w₁.update fun s => { s with prefillComplete := true }) :=
    MutexInv.same (fun _ => List.prefix_rfl) hw₁.2 rfl rfl
  refine wp_notifyAll hclosed.stable ⟨hup w₁ hw₁.1, hM₂⟩ (fun w hw => (hrun w hw.1).live)
    ⟨rfl, fun w₃ hR hI => ?_⟩
  obtain ⟨hw₃, hM₃⟩ := hclosed.stable _ w₃ ⟨hup w₁ hw₁.1, hM₂⟩ hR hI
  have hpaid : (∅ ∪ {Cv.watermarkCv} : Finset Cv).erase .watermarkCv = ∅ := by decide
  exact ⟨(hrun w₃ hw₃).live, hM₃, .inl hpaid, hw₃⟩

/-- `bind_contiguous_cache` with a live context passes if there is a buffer. -/
theorem bindContiguousCache_triple {H : Finset Lock} {A : World → Prop} {buffer : Option Nat}
    (hB : ∀ w, A w → cfg.InBody n H w) :
    cfg.outline.Triple (.worker n) H A (KVHandoff.bindContiguousCache (some h) buffer)
      (fun _ w => A w ∧ buffer.isSome) (cfg.Failing n H) := by
  cases buffer with
  | none => exact Triple.throw fun w _ hw => (hB w hw).failing (by simp)
  | some b => exact Triple.ret fun w _ hw => ⟨hw, rfl⟩

/-- A thread frees its own context. -/
theorem llamaFree_triple {H : Finset Lock} {A B : World → Prop} {X : Error → World → Prop}
    (hA : cfg.Closed (.worker n) H A) (hrun : ∀ w, A w → cfg.Running n w)
    (hctx : ∀ w, A w → ∃ cells, w.contexts h = some ⟨.worker n, cells⟩)
    (hB : ∀ w, A w → B { w with contexts := Function.update w.contexts h none }) :
    cfg.outline.Triple (.worker n) H A (perform (.llamaFree h)) (fun _ w => B w) X := by
  refine Triple.op hA.stable fun w _ hw => ⟨⟨(hrun w hw).live, fun ctx hctx' => ?_⟩,
    fun x r w' hx _ => ⟨rfl, ?_⟩⟩
  · obtain ⟨cells, hc⟩ := hctx w hw
    rw [← Option.some.inj (hc.symm.trans hctx')]
  · simp only [exec, Option.some.injEq, Prod.mk.injEq] at hx
    obtain ⟨-, rfl⟩ := hx
    exact hB w hw

/-- The call of `mark_prefill_complete` goes on record. -/
private theorem note_complete_triple :
    cfg.outline.Triple (.worker n) ∅ (cfg.AtSlice n h (cfg.doc n).length)
      (perform (.note (.markPrefillComplete h)))
      (fun _ => cfg.AtSlice n h (cfg.doc n).length) (cfg.Failing n ∅) := by
  refine Triple.op Closed.atSlice.stable fun w _ hw => ?_
  obtain ⟨cells, hctx, hcells, -⟩ := hw.2
  refine ⟨⟨hw.1.running.live, n, rfl, hw.1.running, hw.1.prefill, hw.1.prefillDone, _, hctx,
    hcells⟩, fun x r w' hx _ => ⟨rfl, ?_⟩⟩
  simp only [exec, Option.some.injEq, Prod.mk.injEq] at hx
  obtain ⟨-, rfl⟩ := hx
  exact ⟨⟨hw.1.toCalled.record rfl (by simp) (by simp), hw.1.toPublished.congr rfl⟩,
    hw.2.record _⟩

/-- A fresh context holds the empty prefix. -/
theorem Committed.atSlice_zero (hw : cfg.Committed n 0 0 w)
    (hctx : w.contexts h = some { owner := .worker n }) : cfg.AtSlice n h 0 w :=
  ⟨hw, [], hctx, fun _ => ⟨[], ⟨covers_zero, fun _ _ => (docSeq_zero _).symm⟩, rfl⟩,
    fun hf => hf.elim⟩

theorem AtSlice.update (hw : cfg.AtSlice n h c w) (f : PipelineState → PipelineState)
    (hwm : (f w.state).watermark = w.state.watermark)
    (hsl : (f w.state).prefixSeqLen = w.state.prefixSeqLen) : cfg.AtSlice n h c (w.update f) := by
  obtain ⟨hcom, cells, hctx, hcells, hne⟩ := hw
  refine ⟨⟨hcom.toCalled.congr rfl rfl rfl, fun hs => hwm.trans (hcom.watermark hs), fun hs => ?_,
    fun hs => ?_⟩, cells, hctx, fun hgood => hcells (hgood.grows fun _ => List.prefix_rfl), hne⟩
  · show (f w.state).prefixSeqLen ≤ _
    rw [hsl]
    exact hcom.seqLen hs
  · show _ → ((f w.state).prefixSeqLen = _ ↔ _)
    rw [hsl]
    exact hcom.canonical hs

/-- From the tokenized document to the end of `execute`; `big` says that it does not
    fit. -/
private theorem prefillTokens_triple {b N : Nat} {key : String} {t₀ : Int} {e : Error} {big : Prop}
    [Decidable big] (hn : cfg.orchestrator.isPrefill n) (hb : cfg.stagingBuffer = some b)
    (hN : N = (cfg.doc n).length) (he : ∀ t, e ≠ .missingPrefixSnapshot t) :
    cfg.outline.Triple (.worker n) ∅ (cfg.AtSlice n h 0)
      (if big then do
        perform (.llamaFree h)
        throw e
      else do
        let lctx ← PrefillNode.prefillLoop cfg.engine (cfg.doc n) N N h 0
        perform (.note (.markPrefillComplete lctx))
        PipelineState.markPrefillComplete
        perform (.llamaFree lctx)
        PipelineState.recordTiming key t₀)
      (fun _ w => cfg.Running n w ∧ cfg.PrefillDone n w) (cfg.Failing n ∅) := by
  have hrun : ∀ c w, cfg.AtSlice n h c w → cfg.Running n w := fun c w hw => hw.1.running
  have hctx : ∀ h c w, cfg.AtSlice n h c w → ∃ cells, w.contexts h = some ⟨.worker n, cells⟩ := by
    intro h c w hw
    obtain ⟨cells, hctx, -⟩ := hw.2
    exact ⟨cells, hctx⟩
  refine Triple.ite (fun _ => ?_) (fun _ => ?_)
  · refine Triple.bind (llamaFree_triple (B := cfg.Running n) Closed.atSlice (hrun 0) (hctx h 0)
      fun w hw => (hrun 0 w hw).congr rfl rfl rfl) fun _ => ?_
    exact Triple.throw fun w _ hw => hw.inBody.failing he
  · refine Triple.bind (prefillLoop_triple hn hb hN N h 0 (by omega) (by omega) (by omega))
      fun lctx => ?_
    rw [hN]
    refine Triple.bind note_complete_triple fun _ => ?_
    refine Triple.bind (markPrefillComplete_triple (fun _ => Closed.atSlice)
      (fun w hw => hw.1.running) fun w hw => hw.update _ rfl rfl) fun _ => ?_
    refine Triple.bind (llamaFree_triple (B := fun w => cfg.Running n w ∧ cfg.PrefillDone n w)
      Closed.atSlice (fun w hw => hw.1.running) (hctx lctx _) fun w hw => ?_) fun _ => ?_
    · have hcom : cfg.Committed n (cfg.doc n).length (cfg.doc n).length
          { w with contexts := Function.update w.contexts lctx none } :=
        hw.1.congr rfl rfl rfl rfl
      exact ⟨hcom.running, hcom.prefillDone⟩
    · exact recordTiming_triple (Finset.empty_subset _) (Closed.running.and Closed.prefillDone)
        fun w hw => hw.1.inBody

/-- The document's text, if the file can be read. -/
private theorem loadDocumentText_triple {A : World → Prop} {path : String}
    (hA : ∀ w, A w → cfg.InBody n ∅ w) :
    cfg.outline.Triple (.worker n) ∅ A (PrefillNode.loadDocumentText cfg.engine path)
      (fun text w => A w ∧ documentText cfg.engine path = some text) (cfg.Failing n ∅) := by
  unfold PrefillNode.loadDocumentText documentText
  cases cfg.engine.readFile path with
  | missing => exact Triple.ret fun w _ hw => ⟨hw, rfl⟩
  | unreadable => exact Triple.throw fun w _ hw => (hA w hw).failing (by simp)
  | contents text => exact Triple.ret fun w _ hw => ⟨hw, rfl⟩

/-- `PrefillNode::execute`: when it returns, the whole document is published. -/
theorem executePrefill_triple {node : PrefillNode} {ctx : OrchestratorContext}
    (hnode : cfg.orchestrator.node n = some (.prefill node)) (hE : ctx.engine = cfg.engine) :
    cfg.outline.Triple (.worker n) ∅ (cfg.Committed n 0 0) (node.execute ctx)
      (fun _ w => cfg.Running n w ∧ cfg.PrefillDone n w) (cfg.Failing n ∅) := by
  have hn : cfg.orchestrator.isPrefill n := by
    simp [Orchestrator.isPrefill, hnode, Node.isPrefillProvider]
  have hcom : cfg.Closed (.worker n) ∅ (cfg.Committed n 0 0) := Closed.committed
  unfold PrefillNode.execute
  rw [hE]
  refine Triple.bind (quiet_op' rfl hcom (fun w hw => hw.running) fun _ _ _ => trivial) fun t₀ => ?_
  refine Triple.bind (init_triple hcom fun w hw => hw.running) fun r => ?_
  cases r with
  | none => exact Triple.throw fun w _ hw => hw.1.running.inBody.failing (by simp)
  | some lctx =>
    have hat : cfg.Closed (.worker n) ∅ (cfg.AtSlice n lctx 0) := Closed.atSlice
    have hrun : ∀ w, cfg.AtSlice n lctx 0 w → cfg.Running n w := fun w hw => hw.1.running
    have hbody : ∀ w, cfg.AtSlice n lctx 0 w → cfg.InBody n ∅ w := fun w hw => (hrun w hw).inBody
    refine Triple.bind (Q := fun (s : PipelineState) (w : World) => cfg.AtSlice n lctx 0 w ∧
      s.materializedBranchBuffer = cfg.stagingBuffer) ?_ fun s => Triple.assume fun hs => ?_
    · exact (load_triple hat hrun fun w hI _ => hI.staging).conseq
        (fun w _ hw => hw.1.atSlice_zero (hw.2 lctx rfl)) (fun _ _ _ h => h) fun _ _ _ h => h
    rw [hs]
    refine Triple.bind (bindContiguousCache_triple hbody) fun _ => Triple.assume fun hb => ?_
    obtain ⟨b, hb⟩ := Option.isSome_iff_exists.mp hb
    dsimp only
    refine Triple.bind (loadDocumentText_triple hbody) fun text => Triple.assume fun htext => ?_
    refine Triple.bind (tokenizeWith_triple hat hrun (Raises.of_body hbody)
      (by simp)) fun tokens => ?_
    generalize hcount : toInt32 tokens.length = count
    generalize toInt32 ctx.nCtx = limit
    refine Triple.assume fun htokens => ?_
    have hdoc : tokens = cfg.doc n := by
      simp only [doc, hnode, documentTokens, htext, Option.bind_some, htokens, Option.getD_some]
    have htotal : count.toNat = (cfg.doc n).length := by
      rw [← hcount, toInt32_of_lt (tokensOf_length htokens), Int.toNat_natCast, hdoc]
    rw [htotal, hdoc]
    exact prefillTokens_triple hn hb rfl (by simp)

end SwarmKV.Pipeline

import SwarmKV.Spec.Decode

/-!
# commit_watermark meets its outline

One commit of the prefiller, from the end of a slice to the published watermark.
A value that is no milestone is published in the first critical section. At a
milestone the canonical buffer is overwritten outside the mutex, which leaves the
canonical triple in pieces until the last critical section has put it together; if
that section is cut off by a failing allocation, exports are not `Good` any more.
-/

namespace SwarmKV.Pipeline

open Monitor.Outline

variable {cfg : Pipeline} {n : String} {w w' : World}

/-- `c` is the end of the slice of `n`'s document that starts at `p`. -/
structure Slice (cfg : Pipeline) (n : String) (p c : Nat) : Prop where
  prefill : cfg.orchestrator.isPrefill n
  dvd : 128 ∣ p
  lt : p < (cfg.doc n).length
  eq : c = p + min 128 ((cfg.doc n).length - p)

namespace Slice

variable {p c : Nat}

theorem pos (h : cfg.Slice n p c) : p < c := by
  have := h.lt
  have := h.eq
  omega

theorem value (h : cfg.Slice n p c) : CommitValue (cfg.doc n).length c := by
  rw [h.eq]
  exact commitValue_slice h.dvd h.lt

/-- No commit value lies inside a slice. -/
theorem step (h : cfg.Slice n p c) {t : Int} (ht : CommitValue (cfg.doc n).length t)
    (hle : t ≤ c) : t ≤ p ∨ t = c := by
  have heq := h.eq
  rw [heq] at hle
  rw [heq]
  exact ht.slice h.dvd h.lt hle

end Slice

/-- Publishing the end of a slice, with its snapshot if it is a milestone. -/
theorem MutexInv.publish {p c : Nat} (h : cfg.MutexInv w) (hs : cfg.Slice n p c)
    (hold : cfg.orchestrator.Sole n → w.state.watermark = p)
    (hg : ∀ j, w.log j <+: w'.log j) (hnew : w'.state.watermark = c)
    (hkeep : ∀ t, (w.state.prefixSnapshots t).isSome → (w'.state.prefixSnapshots t).isSome)
    (hsnap : cfg.IsMilestone c → (w'.state.prefixSnapshots c).isSome) :
    cfg.MutexInv w' := by
  intro p' hp' hmem t ht hle hm
  obtain rfl := hp'.2 n hs.prefill
  rw [hnew] at hle
  rcases hs.step ht hle with hle | rfl
  · refine hkeep t (h n hp' (fun hm => hmem ((hg _).subset hm)) t ht ?_ hm)
    rw [hold hp']
    exact hle
  · exact hsnap hm

section Commit

variable {h p c : Nat}

/-- The prefiller at the end of a slice, under the guard. -/
def AtSliceEnd (cfg : Pipeline) (n : String) (h q p c : Nat) (w : World) : Prop :=
  cfg.Committed n q p w ∧ cfg.HoldsDoc n h c True w ∧ cfg.InBody n {.llamaApiMutex} w

theorem Closed.atSliceEnd {H : Finset Lock} {q : Nat} (hH : ({.llamaApiMutex} : Finset Lock) ⊆ H) :
    cfg.Closed (.worker n) H (cfg.AtSliceEnd n h q p c) :=
  (Closed.committed.and (Closed.holdsDoc.and Closed.inBody)).mono hH

/-- The call goes on record. -/
theorem note_commit_triple (hs : cfg.Slice n p c) :
    cfg.outline.Triple (.worker n) {.llamaApiMutex} (cfg.AtSliceEnd n h p p c)
      (perform (.note (.commitWatermark (some h) c))) (fun _ => cfg.AtSliceEnd n h c p c)
      (cfg.Failing n {.llamaApiMutex}) := by
  refine Triple.op (Closed.atSliceEnd subset_rfl).stable fun w hinv hw => ?_
  obtain ⟨hcom, hdoc, hbody⟩ := hw
  obtain ⟨cells, hctx, hcells, hne⟩ := id hdoc
  refine ⟨⟨hbody.running.live, n, rfl, hbody.running, hs.prefill, hcom.inMemory, hs.value, ?_,
    (hne trivial).2, h, _, rfl, hctx, by simpa using hcells⟩, fun x r w' hx _ => ⟨rfl, ?_⟩⟩
  · intro t ht
    have hle := hcom.below t ht
    have hlt := hs.pos
    omega
  · simp only [exec, Option.some.injEq, Prod.mk.injEq] at hx
    obtain ⟨-, rfl⟩ := hx
    have hcommits : (w.record (.worker n) (.commitWatermark (some h) c)).commits (.worker n) =
        w.commits (.worker n) ++ [(c : Int)] := by
      simp [World.commits, World.record, Event.committed]
    refine ⟨⟨⟨hcom.prefill, hcom.running.record (by simp), ?_, ?_, ?_, fun _ => (hne trivial).2⟩,
        hcom.toPublished.congr rfl⟩,
      hdoc.record _, hbody.record (by simp)⟩
    · intro hm
      exact hcom.inMemory (by simpa [World.OutOfMemory, World.record] using hm)
    · intro t ht
      rw [hcommits, List.mem_append, List.mem_singleton] at ht
      rcases ht with ht | rfl
      · have hle := hcom.below t ht
        have hlt := hs.pos
        omega
      · exact le_rfl
    · intro _
      rw [hcommits, List.getLast?_concat]

/-! ## A value that is no milestone -/

/-- What a prefiller that holds both mutexes may write. -/
private theorem AtSliceEnd.committing {q : Nat} (hs : cfg.Slice n p c)
    (hw : cfg.AtSliceEnd n h q p c w) :
    cfg.Committing (.worker n) (insert .watermarkMutex {.llamaApiMutex}) n w where
  thread := rfl
  prefill := hs.prefill
  running := hw.2.2.running
  guard := by simp
  mutex := by simp

/-- Whatever lies before the end of a slice is filed when its start is published. -/
theorem Slice.filed (hs : cfg.Slice n p c) (hM : cfg.MutexInv w)
    (hw : cfg.orchestrator.Sole n → w.state.watermark = p) : cfg.FiledUpTo (c - 1) w := by
  intro p' hp' hmem t ht hle hm
  obtain rfl := hp'.2 n hs.prefill
  apply hM n hp' hmem t ht _ hm
  rw [hw hp']
  obtain hle' | heq := hs.step ht (by omega)
  · exact hle'
  · omega

/-- What others rely on when the watermark is raised to the end of a slice. -/
theorem Slice.raises (hs : cfg.Slice n p c)
    (hw : cfg.orchestrator.Sole n → w.state.watermark = p) :
    ∀ p', cfg.orchestrator.Sole p' → CommitValue (cfg.doc p').length c ∧
      w.state.watermark ≤ c := by
  intro p' hp'
  obtain rfl := hp'.2 n hs.prefill
  refine ⟨hs.value, ?_⟩
  rw [hw hp']
  exact Int.ofNat_le.mpr hs.pos.le

/-- A value that is no milestone leaves the canonical triple alone. -/
private theorem AtSliceEnd.publish (hs : cfg.Slice n p c) (hw : cfg.AtSliceEnd n h c p c w)
    (hm : ¬ cfg.IsMilestone c) :
    cfg.AtSliceEnd n h c c c (w.update fun s => { s with watermark := c }) := by
  obtain ⟨hcom, ⟨cells, hctx, hcells, hne⟩, hbody⟩ := hw
  have hlt := hs.pos
  refine ⟨⟨hcom.toCalled.congr rfl rfl rfl, fun _ => rfl, fun hsole => ?_, fun hsole _ => ?_⟩,
    ⟨cells, hctx, fun hgood => hcells (hgood.grows fun _ => List.prefix_rfl), hne⟩,
    hbody.running.congr rfl rfl rfl, hbody.stagingLive,
    fun hH hgood => hbody.triple hH (hgood.grows fun _ => List.prefix_rfl)⟩
  · have hle := hcom.seqLen hsole
    show w.state.prefixSeqLen ≤ _
    omega
  · have hle := hcom.seqLen hsole
    show w.state.prefixSeqLen = _ ↔ _
    constructor
    · intro heq
      omega
    · exact fun h => absurd h hm

/-- The first critical section of `commit_watermark`. -/
theorem publishUnexported_triple (hs : cfg.Slice n p c) :
    cfg.outline.Triple (.worker n) {.llamaApiMutex} (cfg.AtSliceEnd n h c p c)
      (withLock .watermarkMutex (PipelineState.publishUnexported c))
      (fun exportKv w => if exportKv then
          cfg.AtSliceEnd n h c p c w ∧ cfg.IsMilestone c
        else cfg.AtSliceEnd n h c c c w)
      (cfg.Failing n {.llamaApiMutex}) := by
  have hsub : ({.llamaApiMutex} : Finset Lock) ⊆ insert .watermarkMutex {.llamaApiMutex} :=
    Finset.subset_insert _ _
  have hclosed : ∀ p, cfg.Closed (.worker n) (insert .watermarkMutex {.llamaApiMutex}) fun w =>
      cfg.AtSliceEnd n h c p c w ∧ cfg.MutexInv w :=
    fun p => (Closed.atSliceEnd hsub).and (Closed.mutexInv (Finset.mem_insert_self _ _))
  refine Triple.critical (watermarkMutex_notMem subset_rfl) (rank_lt_watermarkMutex subset_rfl)
    (Closed.atSliceEnd subset_rfl).stable (fun w hw => hw.2.2.running.live) fun w hw _ hM => ?_
  unfold PipelineState.publishUnexported
  refine wp_op (hclosed p).stable ⟨hw, hM⟩ fun w₁ hinv₁ hw₁ =>
    ⟨⟨hw₁.1.2.2.running.live, trivial⟩, fun x s w₂ hx _ => ?_⟩
  simp only [exec, Option.some.injEq, Prod.mk.injEq] at hx
  obtain ⟨rfl, rfl⟩ := hx
  have hcontains : w₁.state.snapshotMilestones.contains (c : Int) = true ↔
      cfg.IsMilestone c := by
    rw [List.contains_iff_mem, hinv₁.milestones]
  split
  · -- a milestone: nothing is published yet
    rename_i hm
    refine ⟨rfl, fun w₃ hR hI => ?_⟩
    obtain ⟨hw₃, hM₃⟩ := (hclosed p).stable w₁ w₃ hw₁ hR hI
    exact ⟨hw₃.2.2.running.live, hM₃, .inl rfl, hw₃, hcontains.mp hm⟩
  · -- no milestone: the watermark is published at once
    rename_i hm
    rw [hcontains] at hm
    refine wp_op (hclosed p).stable hw₁ fun w₂ hinv₂ hw₂ =>
      ⟨⟨hw₂.1.2.2.running.live, ⟨n, hw₂.1.committing hs⟩, hs.filed hw₂.2 hw₂.1.1.watermark,
        hs.raises hw₂.1.1.watermark⟩,
        fun x s w₃ hx _ => ?_⟩
    simp only [exec, Option.some.injEq, Prod.mk.injEq] at hx
    obtain ⟨-, rfl⟩ := hx
    have hw₃ := hw₂.1.publish hs hm
    have hM₃ : cfg.MutexInv (w₂.update fun s => { s with watermark := c }) :=
      hw₂.2.publish hs hw₂.1.1.watermark (fun _ => List.prefix_rfl) rfl (fun _ h => h)
        fun h => absurd h hm
    refine wp_notifyAll (hclosed c).stable ⟨hw₃, hM₃⟩ (fun w hw => hw.1.2.2.running.live)
      ⟨rfl, fun w₄ hR hI => ?_⟩
    obtain ⟨hw₄, hM₄⟩ := (hclosed c).stable _ w₄ ⟨hw₃, hM₃⟩ hR hI
    have hpaid : (∅ ∪ ∅ ∪ {Cv.watermarkCv} : Finset Cv).erase .watermarkCv = ∅ := by decide
    exact ⟨hw₄.2.2.running.live, hM₄, .inl hpaid, hw₄⟩

/-! ## A milestone: the export -/

/-- After the export: the canonical buffer starts with `buf`, `nw` bytes that stand for
    the first `c` tokens. -/
structure Exporting (cfg : Pipeline) (n : String) (h c nw : Nat) (buf : List UInt8) (w : World) :
    Prop where
  called : cfg.Called n c w
  doc : cfg.HoldsDoc n h c True w
  stagingLive : ∀ b, cfg.stagingBuffer = some b → (w.buffers b).isSome
  length : buf.length = nw
  exported : ∃ s, w.Exported s buf ∧ (cfg.Good w → cfg.IsPrefix c s)
  bytes : w.branchBytes cfg.stagingBuffer nw = buf

theorem Closed.exporting {H : Finset Lock} {nw : Nat} {buf : List UInt8}
    (hH : .llamaApiMutex ∈ H) : cfg.Closed (.worker n) H (cfg.Exporting n h c nw buf) := by
  intro w w' hw hq
  have hl := hw.called.running.live
  obtain ⟨s, hs, hprefix⟩ := hw.exported
  refine ⟨Closed.called w w' hw.called hq, Closed.holdsDoc w w' hw.doc hq, fun b hb => ?_,
    hw.length, ⟨s, hs.grows hq.grows, fun hgood => hprefix (hgood.grows hq.grows)⟩, ?_⟩
  · obtain ⟨buf, hbuf⟩ := Option.isSome_iff_exists.mp (hw.stagingLive b hb)
    rw [hq.buffers hH n rfl hl b buf hbuf]
    rfl
  · rw [hq.branchBytes hH hl hw.stagingLive, hw.bytes]

/-- When the prefiller runs out of memory, nothing is promised of the exports. -/
theorem Exporting.badAlloc {H : Finset Lock} {nw : Nat} {buf : List UInt8}
    (hw : cfg.Exporting n h c nw buf w) :
    cfg.Failing n H .badAlloc (w.record (.worker n) .badAlloc) := by
  apply InBody.failing _ (by simp)
  refine ⟨hw.called.running.record (by simp), fun _ => hw.stagingLive, fun _ hgood => ?_⟩
  have hmem : (w.record (.worker n) .badAlloc).OutOfMemory n := by
    simp [World.OutOfMemory, World.record]
  exact absurd hmem (hgood.inMemory n hw.called.prefill)

/-- The bytes that were just written are the bytes behind the handle. -/
theorem branchBytes_overwrite {b : Nat} (hb : cfg.stagingBuffer = some b)
    (hlive : (w.buffers b).isSome) (bytes : List UInt8) :
    (w.overwrite b bytes).branchBytes cfg.stagingBuffer bytes.length = bytes := by
  obtain ⟨buf, hbuf⟩ := Option.isSome_iff_exists.mp hlive
  simp [hb, World.branchBytes, World.bytesAt, World.overwrite, hbuf]

/-- The call that exports. -/
private theorem getData_triple {b cap p : Nat} {cells : List KvCell}
    (hb : cfg.stagingBuffer = some b)
    (hcap : cfg.engine.llamaStateSeqGetSize (seqState kSwarmkvPrefixSeqId cells) ≤ cap) :
    cfg.outline.Triple (.worker n) {.llamaApiMutex}
      (fun w => cfg.AtSliceEnd n h c p c w ∧ w.contexts h = some ⟨.worker n, cells⟩)
      (perform (.llamaStateSeqGetData h b cap kSwarmkvPrefixSeqId))
      (fun nw w => (∃ buf, cfg.Exporting n h c nw buf w) ∧ cfg.Published n p w)
      (cfg.Failing n {.llamaApiMutex}) := by
  have hclosed : cfg.Closed (.worker n) {.llamaApiMutex} fun w =>
      cfg.AtSliceEnd n h c p c w ∧ w.contexts h = some ⟨.worker n, cells⟩ :=
    (Closed.atSliceEnd subset_rfl).and fun w w' hw hq => hq.contexts h _ hw rfl
  refine Triple.op hclosed.stable fun w hinv hw => ?_
  obtain ⟨⟨hcom, hdoc, hbody⟩, hctx⟩ := hw
  obtain ⟨cells', hctx', hcells, hne⟩ := id hdoc
  obtain rfl : cells = cells' := by
    rw [hctx] at hctx'
    injection hctx' with hctx'
    injection hctx'
  refine ⟨⟨hbody.running.live, by simp, ⟨n, rfl⟩, hb, _, hctx, (hne trivial).1, hcap⟩,
    fun x nw w' hx _ => ⟨rfl, ?_⟩⟩
  obtain ⟨bytes, hbytes, rfl, rfl⟩ := exec_llamaStateSeqGetData hctx hx
  -- what was exported fits, as its size was asked for
  have hfit : fitting cap bytes = bytes :=
    if_pos ((cfg.engine.exports_size _ _ hbytes).trans hcap)
  simp only [hfit]
  have hlive := hbody.stagingLive (by simp)
  have hg := (w.overwrite b bytes).log_grows_record (.worker n)
    (.exported (seqState kSwarmkvPrefixSeqId cells) bytes)
  refine ⟨⟨bytes, ?_, ?_, fun b' hb' => ?_, rfl,
    ⟨seqState kSwarmkvPrefixSeqId cells, ⟨.worker n, ?_⟩, fun hgood => ?_⟩, ?_⟩,
    hcom.toPublished.congr rfl⟩
  · apply Called.record _ rfl (by simp) (by simp)
    exact hcom.toCalled.congr rfl rfl rfl
  · exact ⟨cells, hctx, fun hgood => hcells (hgood.grows hg), hne⟩
  · obtain rfl := Option.some.inj (hb.symm.trans hb')
    have := hlive b hb
    simpa [World.overwrite, World.record] using this
  · simp [World.record]
  · obtain ⟨s, hs, rfl⟩ := hcells (hgood.grows hg)
    rwa [seqState_toCells]
  · exact branchBytes_overwrite hb (hlive b hb) bytes

/-- The export in the middle of `commit_watermark`. -/
theorem exportPrefix_triple {b p : Nat} (hb : cfg.stagingBuffer = some b) :
    cfg.outline.Triple (.worker n) {.llamaApiMutex} (cfg.AtSliceEnd n h c p c)
      (PipelineState.exportPrefix h)
      (fun r w => cfg.Exporting n h c r.1 r.2 w ∧ cfg.Published n p w)
      (cfg.Failing n {.llamaApiMutex}) := by
  have hclosed : cfg.Closed (.worker n) {.llamaApiMutex} (cfg.AtSliceEnd n h c p c) :=
    Closed.atSliceEnd subset_rfl
  have hrun : ∀ w, cfg.AtSliceEnd n h c p c w → cfg.Running n w := fun w hw => hw.2.2.running
  unfold PipelineState.exportPrefix
  refine Triple.bind (load_triple (R := fun s _ => s.materializedBranchBuffer = some b)
    hclosed hrun fun w hinv _ => hinv.staging.trans hb) fun s => Triple.assume fun hs => ?_
  rw [hs]
  dsimp only
  -- the cells of the context are fixed while the prefiller exports them
  refine Triple.of_exists (A := fun cells (w : World) =>
      cfg.AtSliceEnd n h c p c w ∧ w.contexts h = some ⟨.worker n, cells⟩)
    (fun w _ hw => ?_) fun cells => ?_
  · obtain ⟨cells, hctx, -⟩ := hw.2.1
    exact ⟨cells, hw, hctx⟩
  · have hclosed' : cfg.Closed (.worker n) {.llamaApiMutex} fun w =>
        cfg.AtSliceEnd n h c p c w ∧ w.contexts h = some ⟨.worker n, cells⟩ :=
      hclosed.and fun w w' hw hq => hq.contexts h _ hw rfl
    have hrun' : ∀ w, cfg.AtSliceEnd n h c p c w ∧ w.contexts h = some ⟨.worker n, cells⟩ →
        cfg.Running n w := fun w hw => hrun w hw.1
    refine Triple.bind (quiet_op (R := fun need _ =>
        need = cfg.engine.llamaStateSeqGetSize (seqState kSwarmkvPrefixSeqId cells))
      rfl hclosed' hrun' (fun _ _ _ => trivial) ?_) fun need => Triple.assume fun hneed => ?_
    · intro x r w w' _ hw hx
      simp only [exec, hw.2, Option.some.injEq, Prod.mk.injEq] at hx
      exact hx.1.symm
    · refine Triple.bind (quiet_op' rfl hclosed' hrun' fun _ _ _ => trivial) fun cap => ?_
      refine Triple.ite (fun _ => Triple.throw fun w _ hw => hw.1.2.2.failing (by simp))
        fun hcap => ?_
      have hle : cfg.engine.llamaStateSeqGetSize (seqState kSwarmkvPrefixSeqId cells) ≤ cap := by
        rw [← hneed]
        exact Nat.le_of_not_lt hcap
      refine Triple.bind (getData_triple hb hle) fun nw => ?_
      dsimp only
      refine Triple.of_exists (A := fun buf (w : World) =>
          cfg.Exporting n h c nw buf w ∧ cfg.Published n p w) (fun w _ hw => ?_) fun buf => ?_
      · obtain ⟨⟨buf, hbuf⟩, hp⟩ := hw
        exact ⟨buf, hbuf, hp⟩
      · have hexp : cfg.Closed (.worker n) {.llamaApiMutex} fun w =>
            cfg.Exporting n h c nw buf w ∧ cfg.Published n p w :=
          (Closed.exporting (by simp)).and Closed.published
        refine Triple.ite (fun hpos => ?_) (fun hzero => ?_)
        · refine Triple.bind (alloc_triple hexp (fun w hw => hw.1.called.running)
            fun w hw => hw.1.badAlloc) fun _ => ?_
          refine Triple.bind (quiet_op (R := fun bytes _ => bytes = buf) rfl hexp
            (fun w hw => hw.1.called.running) (fun _ _ _ => trivial) ?_) fun bytes =>
            Triple.assume fun hbytes => ?_
          · intro x r w w' _ hw hx
            simp only [exec, Option.some.injEq, Prod.mk.injEq] at hx
            have := hw.1.bytes
            rw [hb] at this
            exact hx.1.symm.trans this
          · rw [hbytes]
            exact Triple.ret fun w _ hw => hw
        · refine Triple.ret fun w _ hw => ?_
          obtain rfl : nw = 0 := Nat.eq_zero_of_not_pos hzero
          obtain rfl := List.length_eq_zero_iff.mp hw.1.length
          exact hw

end Commit

end SwarmKV.Pipeline
